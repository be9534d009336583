import RainWrt.En75.Init

/-! What a chip holds, and how it answers with and without failures. Programming clears bits and never sets
    them; only an erasure does. -/

namespace RainWrt.En75

/-- The bytes of a page, by offset, in its data area and in its out-of-band area. -/
structure PageBytes where
  data : Nat → UInt8
  oob : Nat → UInt8

def PageBytes.erased : PageBytes := ⟨fun _ => 0xff, fun _ => 0xff⟩

/-- Bytes are programmed from the start on. -/
def overlay (old : Nat → UInt8) (bytes : Bytes) : Nat → UInt8 := fun i => old i &&& bytes.getD i 0xff

/-- Block, then page. -/
abbrev Chip := Nat → Nat → PageBytes

namespace Chip

def erase (c : Chip) (blk : Nat) : Chip := fun b => if b = blk then fun _ => .erased else c b

def program (c : Chip) (blk page : Nat) (data oob : Bytes) : Chip := fun b p =>
  if b = blk ∧ p = page then ⟨overlay (c b p).data data, overlay (c b p).oob oob⟩ else c b p

/-- What the chip holds after an operation that succeeded. -/
def after (c : Chip) : Op → Chip
  | .erase blk => c.erase blk
  | .program blk page data oob => c.program blk page data oob
  | _ => c

/-- What reading a page gives: its data and the four bytes of the FDM. -/
def peek (c : Chip) (pgSize blk page : Nat) : Bytes × Bytes :=
  ((List.range pgSize).map (c blk page).data, (List.range 4).map (c blk page).oob)

/-- The operation succeeds, and a page reads as it is. -/
def Answers (c : Chip) (pgSize : Nat) : Proc.Event Op Answer → Prop
  | ⟨.erase _, ret⟩ => ret = (0 : Int)
  | ⟨.program _ _ _ _, ret⟩ => ret = (0 : Int)
  | ⟨.read blk page, r⟩ => r = .ok (c.peek pgSize blk page)
  | ⟨.overrun, _⟩ => True

/-- The chip after a sequence of operations. -/
def run (c : Chip) (t : Trace) : Chip := t.foldl (fun c e => c.after e.1) c

/-- Nothing fails. -/
def Faultless (pgSize : Nat) : Chip → Trace → Prop
  | _, [] => True
  | c, e :: t => c.Answers pgSize e ∧ Faultless pgSize (c.after e.1) t

/-! ### A chip on which operations fail -/

/-- Of the bits that are to be cleared some are. -/
def Cut (old new : Nat → UInt8) (bytes : Bytes) : Prop := ∀ i, ∃ m : UInt8, new i = old i &&& (bytes.getD i 0xff ||| m)

/-- An operation with its answer, and what it leaves. Erasures succeed; what is left behind the table by an
    overrun is not said. -/
inductive Does (pgSize : Nat) (dead : Nat → Bool) (c : Chip) : Proc.Event Op Answer → Chip → Prop where
  | erase (blk : Nat) : Does pgSize dead c ⟨.erase blk, (0 : Int)⟩ (c.erase blk)
  | program (blk page : Nat) (data oob : Bytes) : Does pgSize dead c ⟨.program blk page data oob, (0 : Int)⟩ (c.program blk page data oob)
  | cut {blk page : Nat} {data oob : Bytes} {ret : Int} {c' : Chip} (hret : ret ≠ 0) (hother : ∀ b p, ¬(b = blk ∧ p = page) → c' b p = c b p)
      (hdata : Cut (c blk page).data (c' blk page).data data) (hoob : Cut (c blk page).oob (c' blk page).oob oob) :
      Does pgSize dead c ⟨.program blk page data oob, ret⟩ c'
  | read {blk page : Nat} (h : dead blk = false) : Does pgSize dead c ⟨.read blk page, .ok (c.peek pgSize blk page)⟩ c
  | unread {blk page : Nat} (h : dead blk = true) (e : Int) : Does pgSize dead c ⟨.read blk page, .error e⟩ c

/-- A sequence of operations, and what it leaves. -/
inductive Goes (pgSize : Nat) (dead : Nat → Bool) : Chip → Trace → Chip → Prop where
  | nil (c : Chip) : Goes pgSize dead c [] c
  | cons {c c' c'' : Chip} {e : Proc.Event Op Answer} {t : Trace} (h : Does pgSize dead c e c') (ht : Goes pgSize dead c' t c'') :
      Goes pgSize dead c (e :: t) c''

end Chip

end RainWrt.En75
