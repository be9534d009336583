import RainWrt.Bytes

/-! A NAND chip as a driver sees it: blocks of pages, an out-of-band bad mark per block, and a failure
    pattern that decides the outcome of every operation. The operations are numbered as they are issued;
    the pattern is arbitrary, so a statement about every chip covers every pattern of failures. -/

namespace RainWrt

/-- What a page holds. A `corrupt` page has more bitflips than ECC corrects. -/
inductive Page where
  | erased
  | data (bytes : Bytes)
  | corrupt
  deriving DecidableEq, Repr

/-- The content of a chip: block, then page. -/
abbrev Content := Nat → Nat → Page

inductive ReadError where
  | ebadmsg
  | eio
  deriving DecidableEq, Repr

/-- What goes wrong in one operation. -/
structure Fault where
  /-- The erasure fails and leaves this behind. -/
  erase : Option (Nat → Page) := none
  /-- The page is left like this, whatever the program operation reports. -/
  program : Option (Bool × Page) := none
  read : Option ReadError := none
  /-- The block asked for has been marked bad from outside. -/
  userMark : Bool := false
  /-- Writing the bad mark fails. -/
  mark : Bool := false

/-- An operation in which nothing goes wrong. -/
def Fault.none : Fault := {}

inductive OpKind where
  | erase
  | program
  deriving DecidableEq, Repr

/-- An erase or program operation that was issued, with the content it left on the chip. -/
structure FlashOp where
  kind : OpKind
  ba : Nat
  after : Content

structure Nand where
  page : Content
  /-- The bad mark in the out-of-band area of a block. -/
  bad : Nat → Bool
  /-- Whether reading an erased page passes ECC. -/
  emptyOk : Bool
  fault : Nat → Fault
  /-- The number of operations issued so far. -/
  time : Nat := 0
  /-- The erase and program operations issued so far, the last one first. -/
  log : List FlashOp := []

namespace Nand

def tick (n : Nand) : Nand := { n with time := n.time + 1 }

def setBlock (c : Content) (b : Nat) (f : Nat → Page) : Content := fun b' => if b' = b then f else c b'

def setPage (c : Content) (b p : Nat) (x : Page) : Content :=
  setBlock c b fun p' => if p' = p then x else c b p'

/-- `n` holds `c` after an operation of kind `k` on block `b`. -/
def store (n : Nand) (k : OpKind) (b : Nat) (c : Content) : Nand :=
  { n.tick with page := c, log := ⟨k, b, c⟩ :: n.log }

def erase (n : Nand) (b : Nat) : Bool × Nand :=
  match (n.fault n.time).erase with
  | .none => (true, n.store .erase b (setBlock n.page b fun _ => .erased))
  | .some left => (false, n.store .erase b (setBlock n.page b left))

def program (n : Nand) (b p : Nat) (bytes : Bytes) : Bool × Nand :=
  match (n.fault n.time).program with
  | .none => (true, n.store .program b (setPage n.page b p (.data bytes)))
  | .some (ok, left) => (ok, n.store .program b (setPage n.page b p left))

/-- A page is read in full, whatever was programmed into it. -/
def fitPage (pgSize : Nat) (bytes : Bytes) : Bytes := (bytes ++ List.replicate pgSize 0xff).take pgSize

/-- What reading page `p` of block `b` gives when the operation itself does not fail. -/
def peek (n : Nand) (pgSize b p : Nat) : Except ReadError Bytes :=
  match n.page b p with
  | .data bytes => .ok (fitPage pgSize bytes)
  | .erased => if n.emptyOk then .ok (List.replicate pgSize 0xff) else .error .ebadmsg
  | .corrupt => .error .ebadmsg

/-- A page with correctable bitflips reads as its data. -/
def read (n : Nand) (pgSize b p : Nat) : Except ReadError Bytes × Nand :=
  match (n.fault n.time).read with
  | .none => (n.peek pgSize b p, n.tick)
  | .some e => (.error e, n.tick)

def blockIsbad (n : Nand) (b : Nat) : Bool × Nand :=
  if (n.fault n.time).userMark then (true, { n.tick with bad := fun b' => b' == b || n.bad b' })
  else (n.bad b, n.tick)

def blockMarkbad (n : Nand) (b : Nat) : Nand :=
  if (n.fault n.time).mark then n.tick else { n.tick with bad := fun b' => b' == b || n.bad b' }

/-- `count` pages of block `b` from page `p` on. -/
def peekPages (n : Nand) (pgSize b : Nat) : Nat → Nat → Except ReadError Bytes
  | 0, _ => .ok []
  | count + 1, p =>
    match n.peek pgSize b p with
    | .error e => .error e
    | .ok d =>
      match peekPages n pgSize b count (p + 1) with
      | .error e => .error e
      | .ok ds => .ok (d ++ ds)

/-- No operation fails. -/
def Sound (n : Nand) : Prop := ∀ k, n.fault k = .none

end Nand

end RainWrt
