import RainWrt.Theorems.Uline.Symbols
import RainWrt.Theorems.Uline.Editor

/-! The editor as a list of symbols with a cursor: what the keys do to the line is what they do to the list. -/

namespace RainWrt.Uline

/-! ### A list with a cursor -/

/-- The symbols before the cursor, the nearest one first, and those from the cursor on. -/
structure Zipper where
  left : List Symbol := []
  right : List Symbol := []

namespace Zipper

def before (z : Zipper) : List Byte := bytesOf z.left.reverse

def after (z : Zipper) : List Byte := bytesOf z.right

theorem before_cons (s : Symbol) (left right : List Symbol) : before ⟨s :: left, right⟩ = bytesOf left.reverse ++ s.bytes := by
  simp [before]

def insert (z : Zipper) (s : Symbol) : Zipper := { z with left := s :: z.left }

def moveLeft : Zipper → Zipper
  | ⟨s :: left, right⟩ => ⟨left, s :: right⟩
  | ⟨[], right⟩ => ⟨[], right⟩

def moveRight : Zipper → Zipper
  | ⟨left, s :: right⟩ => ⟨s :: left, right⟩
  | ⟨left, []⟩ => ⟨left, []⟩

def home (z : Zipper) : Zipper := ⟨[], z.left.reverse ++ z.right⟩

def «end» (z : Zipper) : Zipper := ⟨z.right.reverse ++ z.left, []⟩

def backspace (z : Zipper) : Zipper := { z with left := z.left.tail }

def delete (z : Zipper) : Zipper := { z with right := z.right.tail }

def wordDelete (z : Zipper) : Zipper := { z with left := beforeWord z.left }

end Zipper

/-- What is typed. -/
inductive Key where
  | char (s : Symbol)
  | left
  | right
  | home
  | «end»
  | backspace
  | delete
  | wordDelete

namespace Key

/-- The bytes that a terminal may send for a key. -/
def sequences : Key → List (List Byte)
  | .char s => [s.bytes]
  | .left => [[27, 91, 68], [27, 79, 68]]
  | .right => [[27, 91, 67], [27, 79, 67]]
  | .home => [[1], [27, 91, 72], [27, 79, 72], [27, 91, 49, 126], [27, 79, 49, 126]]
  | .end => [[5], [27, 91, 70], [27, 79, 70], [27, 91, 52, 126], [27, 79, 52, 126]]
  | .backspace => [[8], [127]]
  | .delete => [[27, 91, 51, 126], [27, 79, 51, 126]]
  | .wordDelete => [[23]]

def edit : Key → Zipper → Zipper
  | .char s, z => z.insert s
  | .left, z => z.moveLeft
  | .right, z => z.moveRight
  | .home, z => z.home
  | .end, z => z.end
  | .backspace, z => z.backspace
  | .delete, z => z.delete
  | .wordDelete, z => z.wordDelete

/-- The line is as the key needs it. -/
def Fits (l : Line) (z : Zipper) : Key → Prop
  -- as many bytes as are deleted lie behind the text and its NUL
  | .backspace => ∀ s ∈ z.left.head?, l.len + s.bytes.length < l.bufsize
  | .delete => ∀ s ∈ z.right.head?, l.len + s.bytes.length < l.bufsize
  -- moreover there are not only blanks before the cursor
  | .wordDelete => z.left ≠ [] →
    (∃ s ∈ z.left, s.blank = false) ∧ l.len + (z.before.length - z.wordDelete.before.length) < l.bufsize
  | _ => True

end Key

/-- A byte that is read, with what `realloc` and the callbacks do meanwhile. -/
structure Sent where
  mem : Memory
  replies : Replies
  byte : Byte

/-- The program has no key handler of its own. -/
def Sent.event (s : Sent) : Event := .byte s.mem { s.replies with keyInput := {} } s.byte

/-- The program polls, or a key is pressed. -/
inductive Step where
  | poll
  | press (key : Key) (sent : List Sent) (typed : sent.map Sent.byte ∈ key.sequences)

namespace Step

def events : Step → List Event
  | .poll => [.poll]
  | .press _ sent _ => sent.map Sent.event

def edit : Step → Zipper → Zipper
  | .poll, z => z
  | .press key _ _, z => key.edit z

/-- No allocation fails, and the line is as the key needs it. -/
def Fits (l : Line) (z : Zipper) : Step → Prop
  | .poll => True
  | .press key sent _ => (∀ s ∈ sent, s.mem.fails = false) ∧ key.Fits l z

end Step

/-! ### The rules of total correctness -/

open Line (Reads)

namespace Ed
variable {α β : Type} {P S : Editor → Prop} {Q Q' : α → Editor → Prop} {R : β → Editor → Prop}

/-- From `P` the code comes to its end, with `Q`. -/
def Total (P : Editor → Prop) (x : Ed α) (Q : α → Editor → Prop) : Prop :=
  ∀ w, P w.ed → ∃ a w', exec x w = (some a, w') ∧ Q a w'.ed

namespace Total

theorem pure (a : α) (h : ∀ ed, P ed → Q a ed) : Total P (pure a) Q := fun w hw => ⟨a, w, rfl, h _ hw⟩

theorem bind {x : Ed α} {f : α → Ed β} (hx : Total P x Q) (hf : ∀ a, Total (Q a) (f a) R) : Total P (x >>= f) R := by
  intro w hw
  obtain ⟨a, w', hrun, hq⟩ := hx w hw
  obtain ⟨b, w'', hrun', hr⟩ := hf a w' hq
  exact ⟨b, w'', by rw [exec_bind, hrun]; exact hrun', hr⟩

theorem conseq {x : Ed α} (hx : Total P x Q) (hP : ∀ ed, S ed → P ed) (hQ : ∀ a ed, Q a ed → Q' a ed) : Total S x Q' := by
  intro w hw
  obtain ⟨a, w', hrun, hq⟩ := hx w (hP _ hw)
  exact ⟨a, w', hrun, hQ _ _ hq⟩

/-- The code may depend on the editor it finds. -/
theorem editor {f : Editor → Ed β} (hf : ∀ ed, P ed → Total (fun ed' => ed' = ed ∧ P ed') (f ed) R) : Total P (editor >>= f) R := by
  intro w hw
  rw [exec_bind, exec_editor]
  exact hf _ hw _ ⟨rfl, hw⟩

theorem update {f : Editor → Editor} (h : ∀ ed, P ed → S (f ed)) : Total P (update f) fun _ => S :=
  fun _ hw => ⟨(), _, rfl, h _ hw⟩

theorem update_bind {f : Editor → Editor} {x : Ed β} (h : ∀ ed, P ed → S (f ed)) (hx : Total S x R) :
    Total P (Ed.update f >>= fun _ => x) R := (update h).bind fun _ => hx

theorem note_bind {n : Note} {x : Ed β} (hx : Total P x R) : Total P (note n >>= fun _ => x) R :=
  Total.bind (Q := fun _ => P) (fun _ hw => ⟨(), _, rfl, hw⟩) fun _ => hx

/-- The first part has one result only. -/
theorem bind_eq {x : Ed α} {f : α → Ed β} {a : α} (hx : Total P x fun a' ed => a' = a ∧ S ed) (hf : Total S (f a) R) :
    Total P (x >>= f) R := by
  refine hx.bind fun a' w hw => ?_
  obtain ⟨rfl, hw⟩ := hw
  exact hf w hw

end Total

/-- One line is edited, within an escape sequence or a symbol of which so many bytes are missing. -/
structure Typing (esc : Option (List Byte)) (cont : Nat) (L : Line → Prop) (ed : Editor) : Prop where
  utf8 : ed.utf8 = true
  line2 : ed.line2 = none
  stop : ed.stop = false
  esc : ed.esc = esc
  cont : ed.utf8Cont = cont
  line : L ed.line

variable {esc : Option (List Byte)} {cont : Nat} {L M : Line → Prop} {a b : List Byte}

theorem Typing.mono {ed : Editor} (hL : ∀ l, L l → M l) (h : Typing esc cont L ed) : Typing esc cont M ed :=
  ⟨h.utf8, h.line2, h.stop, h.esc, h.cont, hL _ h.line⟩

theorem Total.line {f : Line → Ed β} (hf : ∀ l, L l → Total (Typing esc cont fun l' => l' = l ∧ L l') (f l) R) :
    Total (Typing esc cont L) (line .main >>= f) R := by
  intro w hw
  rw [exec_bind, exec_line]
  exact hf w.ed.line hw.line w ⟨hw.utf8, hw.line2, hw.stop, hw.esc, hw.cont, rfl, hw.line⟩

theorem Total.access {f : Line → Option (α × Line)} {M : α → Line → Prop} (h : ∀ l, L l → ∃ a l', f l = some (a, l') ∧ M a l') :
    Total (Typing esc cont L) (access .main f) fun a => Typing esc cont (M a) := by
  intro w hw
  obtain ⟨a, l', hf, hl'⟩ := h _ hw.line
  refine ⟨a, (exec (setLine .main l') w).2, ?_, ?_⟩
  · rw [exec_access]
    simp only [Editor.get?, hf]
  · rw [exec_setLine]
    exact ⟨hw.utf8, hw.line2, hw.stop, hw.esc, hw.cont, hl'⟩

/-- The result of the function is known. -/
theorem Total.access_bind {f : Line → Option (α × Line)} {g : α → Ed β} {a : α} (h : ∀ l, L l → ∃ l', f l = some (a, l') ∧ M l')
    (hg : Total (Typing esc cont M) (g a) R) : Total (Typing esc cont L) (Ed.access .main f >>= g) R := by
  refine Total.bind_eq (S := Typing esc cont M) ?_ hg
  refine (Total.access (M := fun a' l' => a' = a ∧ M l') fun l hl => ?_).conseq (fun _ h => h) fun a' ed h => ?_
  · obtain ⟨l', hf, hl'⟩ := h l hl
    exact ⟨a, l', hf, rfl, hl'⟩
  · exact ⟨h.line.1, h.mono fun _ hl => hl.2⟩

/-! ### The display -/

/-- What is known of the line does not depend on what was shown of it. -/
def Shown (L : Line → Prop) : Prop := ∀ l, L l → l.Sound ∧ L { l with updatePos := l.len }

theorem shown_reads : Shown (Reads a b) := fun _ h =>
  ⟨h.sound, ⟨h.sound.pos, Nat.le_refl _, h.sound.empty, h.sound.text⟩, h.text, h.pos⟩

theorem displayUpdate_total (hL : Shown L) : Total (Typing esc cont L) displayUpdate fun _ => Typing esc cont L := by
  refine Total.editor fun ed _ => Total.conseq ?_ (fun _ h => h.2) fun _ _ h => h
  refine Total.access_bind (a := ()) (M := L) (fun l hl => ⟨_, ?_, (hL l hl).2⟩) ?_
  · rw [lift, Line.displayUpdateLine_spec _ (hL l hl).1]
    rfl
  refine Total.bind_eq (a := .main) (S := Typing esc cont L) ?_ ?_
  · refine Total.editor fun ed' h => ?_
    rw [if_neg (by simp [h.line2])]
    exact Total.pure _ fun _ h => ⟨rfl, h.2⟩
  · refine Total.access_bind (a := ()) (M := L) (fun l hl => ⟨l, ?_, hl⟩) ?_
    · have hs := (hL l hl).1
      rw [Line.addBuf_spec hs 0 l.pos (by rw [Nat.zero_add]; exact hs.pos)]
      rfl
    · exact Total.update fun _ h => ⟨h.utf8, h.line2, h.stop, h.esc, h.cont, h.line⟩

/-! ### Keys -/

variable {s : Symbol} {ss : List Symbol} {r : Replies} {mem : Memory}

theorem linebufDelete_total {c : List Byte} (g : Unit → Ed β) {n : Nat} (hn : n = c.length)
    (hg : Total (Typing esc cont (Reads a b)) (g ()) R) :
    Total (Typing esc cont fun l => Reads a (c ++ b) l ∧ l.len + c.length < l.bufsize) (linebufDelete .main n >>= g) R := by
  subst hn
  refine Total.bind (Q := fun _ => Typing esc cont (Reads a b)) ?_ fun _ => hg
  refine Total.line fun l hl => Total.note_bind ?_
  refine (Total.access (M := fun _ => Reads a b) fun l' hl' => ?_).conseq (fun _ h => h) fun _ _ h => h
  obtain ⟨-, hreads, hroom⟩ := hl'
  obtain ⟨l₁, hdel, hl₁⟩ := hreads.delete hroom
  exact ⟨(), l₁, by rw [lift, hdel]; rfl, hl₁⟩

/-- `delete_symbol` removes the symbol at the cursor. -/
theorem deleteSymbol_total :
    Total (Typing esc cont fun l => Reads a (bytesOf (s :: ss)) l ∧ l.len + s.bytes.length < l.bufsize) (deleteSymbol .main) fun _ =>
      Typing esc cont (Reads a (bytesOf ss)) := by
  refine Total.editor fun ed hed => Total.conseq (Total.line fun l hl => ?_) (fun _ h => h.2) fun _ _ h => h
  have hlen := hl.1.len
  have hpos := hl.1.pos
  have hs := s.bytes_pos
  rw [bytesOf_cons, List.length_append] at hlen
  rw [if_neg (by omega), hed.utf8]
  refine Total.access_bind (a := s.bytes.length) (M := fun l => Reads a (s.bytes ++ bytesOf ss) l ∧ l.len + s.bytes.length < l.bufsize)
    (fun l' hl' => ⟨l', ?_, hl'.2⟩) ?_
  · rw [hl'.2.1.symbolLength]
    rfl
  · exact linebufDelete_total _ rfl (Total.pure _ fun _ h => h)

/-- At the end of the line it does nothing. -/
theorem deleteSymbol_total_end : Total (Typing esc cont (Reads a [])) (deleteSymbol .main) fun _ => Typing esc cont (Reads a []) := by
  refine Total.editor fun ed hed => Total.conseq (Total.line fun l hl => ?_) (fun _ h => h.2) fun _ _ h => h
  have hlen := hl.len
  have hpos := hl.pos
  rw [List.length_nil] at hlen
  rw [if_pos (by omega)]
  exact Total.pure _ fun _ h => h.mono fun _ h => h.2

theorem exec_linebufDelete (w : World) (n : Nat) :
    (exec (linebufDelete .main n) w).1 = (w.ed.line.delete n).map (fun _ => ()) ∧
      ∀ l, w.ed.line.delete n = some l → (exec (linebufDelete .main n) w).2.ed = { w.ed with line := l } := by
  simp only [linebufDelete, exec_bind, exec_line, exec_note, exec_access, Editor.get?, lift]
  cases w.ed.line.delete n with
  | none => exact ⟨rfl, fun _ h => by cases h⟩
  | some l => exact ⟨rfl, fun _ h => by cases h; rfl⟩

/-- `process_backword` of the editor is that of its line. -/
theorem exec_processBackword (w : World) :
    (exec (processBackword .main) w).1 = (w.ed.line.backword w.ed.utf8).map Prod.fst ∧
      ∀ r, w.ed.line.backword w.ed.utf8 = some r → (exec (processBackword .main) w).2.ed = { w.ed with line := r.2 } := by
  rw [Line.backword]
  simp only [processBackword, exec_bind, exec_editor, exec_line, Editor.get?, exec_access]
  cases w.ed.line.moveWordLeft w.ed.utf8 with
  | none => exact ⟨rfl, fun _ h => by cases h⟩
  | some r =>
    obtain ⟨_ | _, l⟩ := r
    · exact ⟨rfl, fun _ h => by cases h; rfl⟩
    · obtain ⟨hret, hed⟩ := exec_linebufDelete { w with ed := { w.ed with line := l } } (w.ed.line.pos - l.pos)
      generalize hrun : exec (linebufDelete .main (w.ed.line.pos - l.pos)) _ = done at hret hed
      simp only [exec_setLine, exec_bind, exec_line, Editor.get?, Bool.not_true, Bool.false_eq_true, if_false, hrun]
      obtain ⟨ret, w'⟩ := done
      cases hdel : l.delete (w.ed.line.pos - l.pos) with
      | none =>
        rw [hdel] at hret
        cases hret
        exact ⟨by simp [hdel], by simp [hdel]⟩
      | some l' =>
        rw [hdel] at hret
        cases hret
        exact ⟨by simp [hdel], by simpa [hdel] using hed l' hdel⟩

/-- `process_backword` removes the word before the cursor. -/
theorem processBackword_total {left : List Symbol} (hword : ∃ t ∈ s :: left, t.blank = false) :
    Total (Typing esc cont fun l => Reads (bytesOf (s :: left).reverse) b l ∧
        l.len + ((bytesOf (s :: left).reverse).length - (bytesOf (beforeWord (s :: left)).reverse).length) < l.bufsize)
      (processBackword .main) fun _ => Typing esc cont (Reads (bytesOf (beforeWord (s :: left)).reverse) b) := by
  obtain ⟨gone, hgone⟩ := beforeWord_suffix (s :: left)
  have hsplit : bytesOf (s :: left).reverse = bytesOf (beforeWord (s :: left)).reverse ++ bytesOf gone.reverse := by
    rw [← bytesOf_append, ← List.reverse_append, hgone]
  refine Total.editor fun ed hed => Total.conseq (Total.line fun l hl => ?_) (fun _ h => h.2) fun _ _ h => h
  have hmove := hl.1.moveWordLeft hword
  have hpos := hl.1.pos
  generalize bytesOf (beforeWord (s :: left)).reverse = kept at *
  rw [hsplit] at hl hpos ⊢
  rw [hed.utf8]
  refine Total.access_bind (a := true) (M := fun l' => Reads kept (bytesOf gone.reverse ++ b) l' ∧ l'.pos = kept.length ∧
    l'.len + (bytesOf gone.reverse).length < l'.bufsize) ?_ ?_
  · rintro l' ⟨rfl, -, hroom⟩
    rw [List.length_append, Nat.add_sub_cancel_left] at hroom
    exact ⟨_, hmove, hl.1.move _ _ (List.append_assoc _ _ _), rfl, hroom⟩
  · refine Total.line fun l' hl' => ?_
    refine Total.conseq (linebufDelete_total (c := bytesOf gone.reverse) (a := kept) (b := b) _ ?_ (Total.pure _ fun _ h => h))
      (fun _ h => h.mono fun _ h => ⟨h.2.1, h.2.2.2⟩) fun _ _ h => h
    rw [hpos, hl'.2.1, List.length_append, Nat.add_sub_cancel_left]

/-- A cursor key is for the only line there is. -/
theorem processEsc_total {e : Escape} {x : Bool → Which → Ed Bool}
    (heq : processEsc r e = editor >>= fun ed => escLine r e >>= fun which => x ed.utf8 which) {Q : Bool → Editor → Prop}
    (hx : Total (Typing esc cont L) (x true .main) Q) : Total (Typing esc cont L) (processEsc r e) Q := by
  rw [heq]
  refine Total.editor fun ed hed => Total.conseq ?_ (fun _ h => h.2) fun _ _ h => h
  rw [hed.utf8]
  refine Total.bind_eq (a := .main) (S := Typing esc cont L) ?_ hx
  refine Total.editor fun ed' h => ?_
  rw [if_pos (by simp [h.line2])]
  exact Total.pure _ fun _ h => ⟨rfl, h.2⟩

variable {z : Zipper}

theorem left_total : Total (Typing esc cont (Reads z.before z.after)) (processEsc r .cursorLeft) fun _ =>
    Typing esc cont (Reads z.moveLeft.before z.moveLeft.after) := by
  refine processEsc_total (x := fun utf8 which => access which (·.moveLeft utf8)) rfl (Total.access fun l hl => ?_)
  obtain ⟨_ | ⟨s, left⟩, right⟩ := z
  · exact ⟨false, l, by rw [Line.moveLeft, if_pos (by simp [hl.pos, Zipper.before])], hl⟩
  · rw [Zipper.before_cons] at hl
    exact ⟨true, _, hl.moveLeft, hl.move _ _ (by simp [Zipper.moveLeft, Zipper.before, Zipper.after])⟩

theorem right_total : Total (Typing esc cont (Reads z.before z.after)) (processEsc r .cursorRight) fun _ =>
    Typing esc cont (Reads z.moveRight.before z.moveRight.after) := by
  refine processEsc_total (x := fun utf8 which => access which (·.moveRight utf8)) rfl (Total.access fun l hl => ?_)
  obtain ⟨left, _ | ⟨s, right⟩⟩ := z
  · have hlen := hl.len
    have hpos := hl.pos
    rw [show Zipper.after ⟨left, []⟩ = [] from rfl, List.length_nil] at hlen
    exact ⟨false, l, by rw [Line.moveRight, if_pos (by omega)], hl⟩
  · have hmove := hl.move (bytesOf left.reverse ++ s.bytes) (bytesOf right) (by simp [Zipper.before, Zipper.after])
    refine ⟨true, _, Reads.moveRight hl, ?_⟩
    rw [Zipper.moveRight, Zipper.before_cons]
    exact hmove

theorem home_total : Total (Typing esc cont (Reads z.before z.after)) (processEsc r .home) fun _ =>
    Typing esc cont (Reads z.home.before z.home.after) := by
  refine processEsc_total (x := fun _ which => access which fun l => some (true, { l with pos := 0 })) rfl (Total.access fun l hl => ?_)
  exact ⟨true, _, rfl, hl.move [] _ (by simp [Zipper.home, Zipper.before, Zipper.after])⟩

theorem end_total : Total (Typing esc cont (Reads z.before z.after)) (processEsc r .end) fun _ =>
    Typing esc cont (Reads z.end.before z.end.after) := by
  refine processEsc_total (x := fun _ which => access which fun l => some (true, { l with pos := l.len })) rfl (Total.access fun l hl => ?_)
  have hmove := hl.move z.end.before z.end.after (by simp [Zipper.end, Zipper.before, Zipper.after])
  have hlen : l.len = z.end.before.length := by
    rw [hl.len, ← List.length_append]
    simp [Zipper.end, Zipper.before, Zipper.after]
  rw [← hlen] at hmove
  exact ⟨true, _, rfl, hmove⟩

theorem delete_total : Total (Typing esc cont fun l => Reads z.before z.after l ∧ Key.delete.Fits l z) (processEsc r .delete) fun _ =>
    Typing esc cont (Reads z.delete.before z.delete.after) := by
  refine processEsc_total (x := fun _ which => deleteSymbol which) rfl ?_
  obtain ⟨left, _ | ⟨s, right⟩⟩ := z
  · exact deleteSymbol_total_end.conseq (fun _ h => h.mono fun _ hl => hl.1) fun _ _ h => h
  · exact deleteSymbol_total.conseq (fun _ h => h.mono fun _ hl => ⟨hl.1, hl.2 s rfl⟩) fun _ _ h => h

/-- A control character is for the only line there is. -/
theorem processCtrl_total {c : Byte} {x : Which → Ed Bool} (heq : processCtrl mem r c = current >>= x) {Q : Bool → Editor → Prop}
    (hx : Total (Typing esc cont L) (x .main) Q) : Total (Typing esc cont L) (processCtrl mem r c) Q := by
  rw [heq]
  refine Total.bind_eq (a := .main) (S := Typing esc cont L) ?_ hx
  refine Total.editor fun ed h => Total.pure _ fun _ h => ?_
  obtain ⟨rfl, h⟩ := h
  refine ⟨?_, h⟩
  rw [if_neg (by simp [h.line2])]

/-- What backspace does. -/
def backspace (r : Replies) (which : Which) : Ed Bool := do
  let utf8 := (← editor).utf8
  if !(← access which (·.moveLeft utf8)) then return false
  let _ ← deleteSymbol which
  if (← editor).line2.isSome then
    let _ ← callback r.line2Update
  return true

theorem backspace_total : Total (Typing esc cont fun l => Reads z.before z.after l ∧ Key.backspace.Fits l z) (backspace r .main) fun _ =>
    Typing esc cont (Reads z.backspace.before z.backspace.after) := by
  refine Total.editor fun ed hed => Total.conseq ?_ (fun _ h => h.2) fun _ _ h => h
  rw [hed.utf8]
  obtain ⟨_ | ⟨s, left⟩, right⟩ := z
  · refine Total.access_bind (a := false) (M := Reads [] (bytesOf right)) (fun l hl => ⟨l, ?_, hl.1⟩) (Total.pure _ fun _ h => h)
    rw [Line.moveLeft, if_pos (by simp [hl.1.pos, Zipper.before])]
  · rw [Zipper.before_cons]
    refine Total.access_bind (a := true) (M := fun l => Reads (bytesOf left.reverse) (bytesOf (s :: right)) l ∧ l.len + s.bytes.length < l.bufsize)
      (fun l hl => ⟨_, hl.1.moveLeft, hl.1.move _ _ (by simp [Zipper.after]), hl.2 s rfl⟩) ?_
    refine Total.bind deleteSymbol_total fun _ => Total.editor fun ed' h => ?_
    rw [if_neg (by simp [h.line2])]
    exact Total.pure _ fun _ h => h.2

theorem wordDelete_total : Total (Typing esc cont fun l => Reads z.before z.after l ∧ Key.wordDelete.Fits l z) (processBackword .main)
    fun _ => Typing esc cont (Reads z.wordDelete.before z.wordDelete.after) := by
  obtain ⟨_ | ⟨s, left⟩, right⟩ := z
  · refine Total.editor fun ed hed => Total.conseq (Total.line fun l hl => ?_) (fun _ h => h.2) fun _ _ h => h
    refine Total.access_bind (a := false) (M := Reads [] (bytesOf right)) (fun l hl => ⟨l, ?_, hl.2.1⟩) (Total.pure _ fun _ h => h)
    rw [Line.moveWordLeft, Line.moveLeft, if_pos (by simp [hl.2.1.pos, Zipper.before])]
    rfl
  · intro w hw
    obtain ⟨hword, -⟩ := hw.line.2 (List.cons_ne_nil _ _)
    exact (processBackword_total hword).conseq (fun _ h => h.mono fun _ hl => ⟨hl.1, (hl.2 (List.cons_ne_nil _ _)).2⟩) (fun _ _ h => h) w hw

/-! ### Bytes -/

variable {c : Byte} {cont' : Nat} {esc' : Option (List Byte)}

/-- One byte of the input. The display is updated behind it, or not. -/
theorem event_total (hL : Shown M) (hx : Total (Typing esc cont L) (handleChar mem r c) fun _ => Typing esc' cont' M) :
    Total (Typing esc cont L) (event (.byte mem r c)) fun _ => Typing esc' cont' M := by
  refine Total.editor fun ed hed => Total.conseq ?_ (fun _ h => h.2) fun _ _ h => h
  simp only [hed.stop, Bool.not_false, if_true]
  refine Total.bind hx fun shown => ?_
  split_ifs
  · refine Total.editor fun ed' h => Total.conseq ?_ (fun _ h => h.2) fun _ _ h => h
    simp only [h.stop, Bool.not_false, if_true]
    exact displayUpdate_total hL
  · exact Total.pure _ fun _ h => h

theorem handleChar_total {Q : Bool → Editor → Prop}
    (hx : ∀ ed, Typing esc cont L ed → Total (Typing esc cont L) (match ed.esc with
      | some seq => do
        let seq := seq ++ [c]
        let e := vt100EscDecode seq
        if e = .incomplete ∧ seq.length < 31 then
          update fun ed => { ed with esc := some seq }
          return false
        update fun ed => { ed with esc := none }
        processEsc r e
      | none => do
        if !checkUtf8 ed c then
          if ← callback r.keyInput then return true
        handleKey mem r c) Q) : Total (Typing esc cont L) (handleChar mem r c) Q := by
  refine Total.update_bind (S := Typing esc cont L) (fun _ h => ⟨h.utf8, h.line2, h.stop, h.esc, h.cont, h.line⟩) ?_
  exact Total.editor fun ed h => Total.conseq (hx ed h) (fun _ h => h.2) fun _ _ h => h

/-- A byte within an escape sequence. -/
theorem handleChar_more {seq : List Byte} (hmore : vt100EscDecode (seq ++ [c]) = .incomplete) (hlen : seq.length + 1 < 31) :
    Total (Typing (some seq) cont L) (handleChar mem r c) fun _ => Typing (some (seq ++ [c])) cont L := by
  refine handleChar_total fun ed h => ?_
  rw [h.esc]
  dsimp only
  rw [if_pos ⟨hmore, by simpa using hlen⟩]
  refine Total.update_bind (S := Typing (some (seq ++ [c])) cont L) (fun _ h => ?_) (Total.pure _ fun _ h => h)
  exact ⟨h.utf8, h.line2, h.stop, rfl, h.cont, h.line⟩

/-- The last byte of an escape sequence. -/
theorem handleChar_last {seq : List Byte} {e : Escape} (hlast : vt100EscDecode (seq ++ [c]) = e) (hne : e ≠ .incomplete)
    {Q : Bool → Editor → Prop} (hx : Total (Typing none cont L) (processEsc r e) Q) :
    Total (Typing (some seq) cont L) (handleChar mem r c) Q := by
  refine handleChar_total fun ed h => ?_
  rw [h.esc]
  dsimp only
  rw [hlast, if_neg fun h => hne h.1]
  refine Total.update_bind (S := Typing none cont L) (fun _ h => ?_) hx
  exact ⟨h.utf8, h.line2, h.stop, rfl, h.cont, h.line⟩

/-- Any other byte, of which the program wants to know nothing. -/
theorem handleChar_key {Q : Bool → Editor → Prop} (hx : Total (Typing none cont L) (handleKey mem { r with keyInput := {} } c) Q) :
    Total (Typing none cont L) (handleChar mem { r with keyInput := {} } c) Q := by
  refine handleChar_total fun ed h => ?_
  rw [h.esc]
  dsimp only
  split_ifs
  · exact hx
  · exact hx

theorem handleKey_ctrl (hc : c < 32 ∨ c = 127) {Q : Bool → Editor → Prop} (hx : Total (Typing none cont L) (processCtrl mem r c) Q) :
    Total (Typing none cont L) (handleKey mem r c) Q := by
  rw [handleKey, if_pos hc]
  exact hx

/-- A byte of a symbol. -/
theorem handleKey_symbol (hmem : mem.fails = false) (hc : 32 ≤ c ∧ c ≠ 127)
    (hutf8 : Total (Typing none cont (Reads (a ++ [c]) b)) (handleUtf8 c) fun _ => Typing none cont' (Reads (a ++ [c]) b)) :
    Total (Typing none cont (Reads a b)) (handleKey mem r c) fun _ => Typing none cont' (Reads (a ++ [c]) b) := by
  have hctrl : ¬(c < 32 ∨ c = 127) := by
    rintro (hlt | h)
    · exact absurd hlt (UInt8.not_lt.mpr hc.1)
    · exact hc.2 h
  have hesc : KEY_ESC ∉ [c] := fun h => absurd (List.mem_singleton.mp h ▸ hc.1) (by decide)
  rw [handleKey, if_neg hctrl]
  refine Total.bind_eq (a := .main) (S := Typing none cont (Reads a b)) ?_ ?_
  · refine Total.editor fun ed h => Total.pure _ fun _ h => ?_
    obtain ⟨rfl, h⟩ := h
    exact ⟨if_neg (by simp [h.line2]), h⟩
  · refine Total.access_bind (a := true) (fun l hl => hl.insert hmem hesc) ?_
    refine Total.bind hutf8 fun more => ?_
    split_ifs
    · exact Total.pure _ fun _ h => h
    · refine Total.editor fun ed h => ?_
      rw [if_neg (by simp [h.line2])]
      exact Total.pure _ fun _ h => h.2

theorem handleUtf8_lead :
    Total (Typing none 0 L) (handleUtf8 c) fun _ => Typing none (if c &&& 0xc0 = 0xc0 then contBytes c else 0) L := by
  refine Total.editor fun ed hed => Total.conseq ?_ (fun _ h => h.2) fun _ _ h => h
  rw [if_neg (by simp [hed.utf8]), if_pos hed.cont]
  by_cases hlead : c &&& 0xc0 = 0xc0
  · rw [if_neg (not_not.mpr hlead), if_pos hlead]
    refine Total.update_bind (S := Typing none (contBytes c) L) (fun _ h => ?_) (Total.pure _ fun _ h => h)
    exact ⟨h.utf8, h.line2, h.stop, h.esc, rfl, h.line⟩
  · rw [if_pos hlead, if_neg hlead]
    exact Total.pure _ fun _ h => h

theorem handleUtf8_cont (hc : isUtf8Cont c = true) : Total (Typing none (cont + 1) L) (handleUtf8 c) fun _ => Typing none cont L := by
  have hbits : c &&& 0xc0 = 0x80 := by simpa [isUtf8Cont] using hc
  refine Total.editor fun ed hed => Total.conseq ?_ (fun _ h => h.2) fun _ _ h => h
  rw [if_neg (by simp [hed.utf8]), if_neg (by simp [hed.cont]), if_neg (by simp [hbits])]
  refine Total.update_bind (S := Typing none cont L) (fun ed' h => ?_) (Total.pure _ fun _ h => h)
  exact ⟨h.utf8, h.line2, h.stop, h.esc, by simp [h.cont], h.line⟩

/-! ### Keys and runs -/

theorem runEvents_cons {e : Event} {es : List Event} {Q : Unit → Editor → Prop} (he : Total P (event e) fun _ => S)
    (hes : Total S (runEvents es) Q) : Total P (runEvents (e :: es)) Q := he.bind fun _ => hes

variable {sent : List Sent}

theorem sent_cons {c : Byte} {bytes : List Byte} (h : sent.map Sent.byte = c :: bytes) :
    ∃ mem r rest, sent = ⟨mem, r, c⟩ :: rest ∧ rest.map Sent.byte = bytes := by
  obtain ⟨⟨mem, r, _⟩, rest, rfl, rfl, hrest⟩ := List.map_eq_cons_iff.mp h
  exact ⟨mem, r, rest, rfl, hrest⟩

/-- The bytes of a symbol behind its first one. -/
theorem cont_total {cs : List Byte} (hcs : ∀ c ∈ cs, (32 ≤ c ∧ c ≠ 127) ∧ isUtf8Cont c = true) (hmem : ∀ s ∈ sent, s.mem.fails = false)
    (htyped : sent.map Sent.byte = cs) :
    Total (Typing none cs.length (Reads a b)) (runEvents (sent.map Sent.event)) fun _ => Typing none 0 (Reads (a ++ cs) b) := by
  induction cs generalizing sent a with
  | nil =>
    rw [List.map_eq_nil_iff.mp htyped, List.append_nil]
    exact Total.pure _ fun _ h => h
  | cons c cs ih =>
    obtain ⟨mem, r, rest, rfl, hrest⟩ := sent_cons htyped
    obtain ⟨hplain, hcont⟩ := hcs c List.mem_cons_self
    have hfirst : Total (Typing none (cs.length + 1) (Reads a b)) (event (Sent.event ⟨mem, r, c⟩)) fun _ =>
        Typing none cs.length (Reads (a ++ [c]) b) :=
      event_total shown_reads (handleChar_key (handleKey_symbol (hmem _ List.mem_cons_self) hplain (handleUtf8_cont hcont)))
    have hnext := ih (a := a ++ [c]) (fun d hd => hcs d (List.mem_cons_of_mem _ hd)) (fun s hs => hmem s (List.mem_cons_of_mem _ hs)) hrest
    rw [List.append_assoc, List.singleton_append] at hnext
    exact runEvents_cons hfirst hnext

/-- A symbol is typed. -/
theorem char_total (hmem : ∀ s ∈ sent, s.mem.fails = false) (htyped : sent.map Sent.byte = s.bytes) :
    Total (Typing none 0 (Reads a b)) (runEvents (sent.map Sent.event)) fun _ => Typing none 0 (Reads (a ++ s.bytes) b) := by
  obtain ⟨mem, r, rest, rfl, hrest⟩ := sent_cons htyped
  have hfirst : Total (Typing none 0 (Reads a b)) (event (Sent.event ⟨mem, r, s.lead⟩)) fun _ =>
      Typing none s.rest.length (Reads (a ++ [s.lead]) b) := by
    rw [s.count]
    exact event_total shown_reads (handleChar_key (handleKey_symbol (hmem _ List.mem_cons_self) s.plain handleUtf8_lead))
  have hnext := cont_total (a := a ++ [s.lead]) (b := b)
    (fun c hc => ⟨s.printable c (List.mem_cons_of_mem _ hc), s.cont c hc⟩) (fun s hs => hmem s (List.mem_cons_of_mem _ hs)) hrest
  rw [List.append_assoc, List.singleton_append] at hnext
  exact runEvents_cons hfirst hnext

/-- A control character is typed. -/
theorem ctrl_total {c : Byte} (hc : c < 32 ∨ c = 127) (hL : Shown M) (htyped : sent.map Sent.byte = [c])
    (hx : ∀ mem r, Total (Typing none 0 L) (processCtrl mem r c) fun _ => Typing none 0 M) :
    Total (Typing none 0 L) (runEvents (sent.map Sent.event)) fun _ => Typing none 0 M := by
  obtain ⟨mem, r, rest, rfl, hrest⟩ := sent_cons htyped
  rw [List.map_eq_nil_iff.mp hrest]
  exact runEvents_cons (event_total hL (handleChar_key (handleKey_ctrl hc (hx _ _)))) (Total.pure _ fun _ h => h)

/-- The bytes decode to the escape sequence, and not before the last one. -/
def decodes (e : Escape) (seq : List Byte) : List Byte → Bool
  | [] => false
  | [c] => vt100EscDecode (seq ++ [c]) = e ∧ e ≠ .incomplete
  | c :: d :: rest => vt100EscDecode (seq ++ [c]) = .incomplete ∧ seq.length + 1 < 31 ∧ decodes e (seq ++ [c]) (d :: rest)

theorem decodes_total {e : Escape} (hL : Shown L) (hL' : Shown M)
    (hx : ∀ r, Total (Typing none 0 L) (processEsc r e) fun _ => Typing none 0 M) {bytes seq : List Byte} (hdec : decodes e seq bytes = true)
    (htyped : sent.map Sent.byte = bytes) :
    Total (Typing (some seq) 0 L) (runEvents (sent.map Sent.event)) fun _ => Typing none 0 M := by
  induction bytes generalizing seq sent with
  | nil => cases hdec
  | cons c rest ih =>
    obtain ⟨mem, r, sent, rfl, hsent⟩ := sent_cons htyped
    cases rest with
    | nil =>
      simp only [decodes, decide_eq_true_eq] at hdec
      rw [List.map_eq_nil_iff.mp hsent]
      exact runEvents_cons (event_total hL' (handleChar_last hdec.1 hdec.2 (hx _))) (Total.pure _ fun _ h => h)
    | cons d rest =>
      simp only [decodes, decide_eq_true_eq] at hdec
      exact runEvents_cons (event_total hL (handleChar_more hdec.1 hdec.2.1)) (ih hdec.2.2 hsent)

/-- An escape sequence is typed. -/
theorem escape_total {e : Escape} (hL : Shown L) (hL' : Shown M)
    (hx : ∀ r, Total (Typing none 0 L) (processEsc r e) fun _ => Typing none 0 M) {bytes : List Byte} (hdec : decodes e [] bytes = true)
    (htyped : sent.map Sent.byte = KEY_ESC :: bytes) :
    Total (Typing none 0 L) (runEvents (sent.map Sent.event)) fun _ => Typing none 0 M := by
  obtain ⟨mem, r, rest, rfl, hrest⟩ := sent_cons htyped
  refine runEvents_cons (event_total hL (handleChar_key (handleKey_ctrl (c := KEY_ESC) (Or.inl (by decide)) ?_))) (decodes_total hL hL' hx hdec hrest)
  refine processCtrl_total (x := fun _ => do
    update fun ed => { ed with esc := some [] }
    return false) rfl ?_
  refine Total.update_bind (S := Typing (some []) 0 L) (fun _ h => ?_) (Total.pure _ fun _ h => h)
  exact ⟨h.utf8, h.line2, h.stop, rfl, h.cont, h.line⟩

/-- What a key does to the line is what it does to the list of symbols. -/
theorem press_total {key : Key} (htyped : sent.map Sent.byte ∈ key.sequences) (hmem : ∀ s ∈ sent, s.mem.fails = false) :
    Total (Typing none 0 fun l => Reads z.before z.after l ∧ key.Fits l z) (runEvents (sent.map Sent.event)) fun _ =>
      Typing none 0 (Reads (key.edit z).before (key.edit z).after) := by
  have hreads : ∀ {P : Line → Prop}, ∀ ed, Typing none 0 (fun l => Reads z.before z.after l ∧ P l) ed → Typing none 0 (Reads z.before z.after) ed :=
    fun _ h => h.mono fun _ hl => hl.1
  cases key with
  | char s =>
    have hchar := char_total (a := z.before) (b := z.after) hmem (List.mem_singleton.mp htyped)
    have hinsert : (z.insert s).before = z.before ++ s.bytes := by simp [Zipper.insert, Zipper.before]
    rw [← hinsert] at hchar
    exact hchar.conseq hreads fun _ _ h => h
  | left =>
    simp only [Key.sequences, List.mem_cons, List.not_mem_nil, or_false] at htyped
    obtain h | h := htyped
    · exact (escape_total shown_reads shown_reads (fun _ => left_total) (by decide) h).conseq hreads fun _ _ h => h
    · exact (escape_total shown_reads shown_reads (fun _ => left_total) (by decide) h).conseq hreads fun _ _ h => h
  | right =>
    simp only [Key.sequences, List.mem_cons, List.not_mem_nil, or_false] at htyped
    obtain h | h := htyped
    · exact (escape_total shown_reads shown_reads (fun _ => right_total) (by decide) h).conseq hreads fun _ _ h => h
    · exact (escape_total shown_reads shown_reads (fun _ => right_total) (by decide) h).conseq hreads fun _ _ h => h
  | home =>
    simp only [Key.sequences, List.mem_cons, List.not_mem_nil, or_false] at htyped
    obtain h | h | h | h | h := htyped
    · exact (ctrl_total (by decide) shown_reads h fun _ r =>
        processCtrl_total (x := fun _ => processEsc r .home) rfl home_total).conseq hreads fun _ _ h => h
    · exact (escape_total shown_reads shown_reads (fun _ => home_total) (by decide) h).conseq hreads fun _ _ h => h
    · exact (escape_total shown_reads shown_reads (fun _ => home_total) (by decide) h).conseq hreads fun _ _ h => h
    · exact (escape_total shown_reads shown_reads (fun _ => home_total) (by decide) h).conseq hreads fun _ _ h => h
    · exact (escape_total shown_reads shown_reads (fun _ => home_total) (by decide) h).conseq hreads fun _ _ h => h
  | «end» =>
    simp only [Key.sequences, List.mem_cons, List.not_mem_nil, or_false] at htyped
    obtain h | h | h | h | h := htyped
    · exact (ctrl_total (by decide) shown_reads h fun _ r =>
        processCtrl_total (x := fun _ => processEsc r .end) rfl end_total).conseq hreads fun _ _ h => h
    · exact (escape_total shown_reads shown_reads (fun _ => end_total) (by decide) h).conseq hreads fun _ _ h => h
    · exact (escape_total shown_reads shown_reads (fun _ => end_total) (by decide) h).conseq hreads fun _ _ h => h
    · exact (escape_total shown_reads shown_reads (fun _ => end_total) (by decide) h).conseq hreads fun _ _ h => h
    · exact (escape_total shown_reads shown_reads (fun _ => end_total) (by decide) h).conseq hreads fun _ _ h => h
  | backspace =>
    simp only [Key.sequences, List.mem_cons, List.not_mem_nil, or_false] at htyped
    obtain h | h := htyped
    · exact ctrl_total (by decide) shown_reads h fun _ r => processCtrl_total (x := backspace r) rfl backspace_total
    · exact ctrl_total (by decide) shown_reads h fun _ r => processCtrl_total (x := backspace r) rfl backspace_total
  | delete =>
    have hshown : Shown fun l => Reads z.before z.after l ∧ Key.delete.Fits l z := fun l hl => ⟨hl.1.sound, (shown_reads l hl.1).2, hl.2⟩
    simp only [Key.sequences, List.mem_cons, List.not_mem_nil, or_false] at htyped
    obtain h | h := htyped
    · exact escape_total hshown shown_reads (fun _ => delete_total) (by decide) h
    · exact escape_total hshown shown_reads (fun _ => delete_total) (by decide) h
  | wordDelete =>
    exact ctrl_total (by decide) shown_reads (List.mem_singleton.mp htyped) fun _ _ =>
      processCtrl_total (x := processBackword) rfl wordDelete_total

theorem step_total (step : Step) :
    Total (Typing none 0 fun l => Reads z.before z.after l ∧ step.Fits l z) (runEvents step.events) fun _ =>
      Typing none 0 (Reads (step.edit z).before (step.edit z).after) := by
  cases step with
  | poll =>
    refine runEvents_cons (S := Typing none 0 (Reads z.before z.after)) ?_ (Total.pure _ fun _ h => h)
    refine Total.bind ((displayUpdate_total shown_reads).conseq (fun _ h => h.mono fun _ hl => hl.1) fun _ _ h => h) fun _ => ?_
    exact Total.update fun _ h => ⟨h.utf8, h.line2, rfl, h.esc, h.cont, h.line⟩
  | press key sent typed =>
    intro w hw
    obtain ⟨hmem, -⟩ := hw.line.2
    exact press_total typed hmem w (hw.mono fun _ hl => ⟨hl.1, hl.2.2⟩)

end Ed

/-! ### Whole runs -/

/-- The list of symbols behind some steps. -/
def editAll (steps : List Step) : Zipper := steps.foldl (fun z step => step.edit z) {}

/-- The editor behind the same steps. -/
def runSteps (cols rows : Nat) (steps : List Step) : Option Unit × World :=
  Ed.exec (Ed.runEvents (steps.flatMap Step.events)) { ed := Editor.init true cols rows }

/-- No access was outside of the buffer, the line is the text of the symbols, and the cursor is between the same two. -/
def Refines (r : Option Unit × World) (z : Zipper) : Prop :=
  r.1 = some () ∧ r.2.ed.line.text = bytesOf (z.left.reverse ++ z.right) ∧ r.2.ed.line.pos = (bytesOf z.left.reverse).length

/-- Every step of a run finds the line as it needs it. -/
def AllFit (cols rows : Nat) (steps : List Step) : Prop :=
  ∀ before step after, steps = before ++ step :: after → step.Fits (runSteps cols rows before).2.ed.line (editAll before)

theorem runSteps_spec {cols rows : Nat} {steps : List Step} (hfit : AllFit cols rows steps) :
    ∃ w, runSteps cols rows steps = (some (), w) ∧ Ed.Typing none 0 (Reads (editAll steps).before (editAll steps).after) w.ed := by
  induction steps using List.reverseRecOn with
  | nil => exact ⟨_, rfl, rfl, rfl, rfl, rfl, rfl, Line.sound_init, rfl, rfl⟩
  | append_singleton steps step ih =>
    obtain ⟨w, hrun, hw⟩ := ih fun before step' after heq => hfit before step' (after ++ [step]) (by rw [heq]; simp)
    have hstep := hfit steps step [] rfl
    rw [hrun] at hstep
    obtain ⟨⟨⟩, w', hrun', hw'⟩ := Ed.step_total step w ⟨hw.utf8, hw.line2, hw.stop, hw.esc, hw.cont, hw.line, hstep⟩
    refine ⟨w', ?_, by rw [editAll, List.foldl_append]; exact hw'⟩
    have hsplit : Ed.runEvents ((steps ++ [step]).flatMap Step.events) =
        Ed.runEvents (steps.flatMap Step.events) >>= fun _ => Ed.runEvents step.events := by
      rw [List.flatMap_append, List.flatMap_singleton]
      exact List.forM_append
    rw [runSteps, hsplit, Ed.exec_bind, show Ed.exec (Ed.runEvents (steps.flatMap Step.events)) _ = _ from hrun]
    exact hrun'

/-- In a run whose steps all find the line as they need it, the line is always the list of symbols that the same
    keys make. -/
theorem zipper_refines (cols rows : Nat) (steps : List Step) (hfit : AllFit cols rows steps) :
    ∀ before, before <+: steps → Refines (runSteps cols rows before) (editAll before) := by
  rintro before ⟨after, rfl⟩
  have hbefore : AllFit cols rows before := fun before' step after' heq => hfit before' step (after' ++ after) (by rw [heq]; simp)
  obtain ⟨w, hrun, hw⟩ := runSteps_spec hbefore
  rw [hrun]
  refine ⟨rfl, ?_, hw.line.pos⟩
  rw [bytesOf_append]
  exact hw.line.text

/-- A key that is sent as these bytes. -/
def Step.key (key : Key) (bytes : List Byte) (h : bytes ∈ key.sequences) : Step :=
  .press key (bytes.map fun c => ⟨{}, {}, c⟩) (by rwa [List.map_map, show Sent.byte ∘ (fun c => ⟨{}, {}, c⟩) = id from rfl, List.map_id])

def eAcute : Symbol := ⟨0xc3, [0xa9], by decide, by decide, List.forall_mem_singleton.mpr (by decide), by decide⟩

/-- A symbol of two bytes is typed and removed. -/
theorem zipper_refines_backspace :
    Refines (runSteps 80 25 [.key (.char eAcute) [0xc3, 0xa9] (by decide), .key .backspace [127] (by decide)])
      (editAll [.key (.char eAcute) [0xc3, 0xa9] (by decide), .key .backspace [127] (by decide)]) := by
  refine zipper_refines 80 25 _ (fun before step after heq => ?_) _ List.prefix_rfl
  obtain _ | ⟨_, _ | ⟨_, before⟩⟩ := before
  · cases heq
    exact ⟨by simp, trivial⟩
  · cases heq
    refine ⟨by simp, fun s hs => ?_⟩
    cases hs
    decide +kernel
  · simp at heq

def space : Symbol := ⟨32, [], by decide, by decide, List.forall_mem_nil _, by decide⟩

/-- A blank at the start of the line stays. -/
theorem word_delete_keeps_blank : ¬∀ (cols rows : Nat) (steps before : List Step), before <+: steps →
    Refines (runSteps cols rows before) (editAll before) := by
  intro h
  obtain ⟨-, htext, -⟩ := h 80 25 _ [.key (.char space) [32] (by decide), .key .wordDelete [23] (by decide)] List.prefix_rfl
  have hstays : (runSteps 80 25 [.key (.char space) [32] (by decide), .key .wordDelete [23] (by decide)]).2.ed.line.text = [32] := by
    decide +kernel
  rw [hstays] at htext
  cases htext

end RainWrt.Uline
