import RainWrt.Theorems.Uline.Line
import RainWrt.Uline.Editor

/-! The editor stays within the buffers of its lines in every run whose deletions, resets and new lines find
    the line as they need it. -/

namespace RainWrt.Uline

/-- What an operation needs of the line it finds. -/
def Note.Fine : Note → Prop
  -- as many bytes as are deleted lie behind the text and its NUL
  | .delete l len => l.len + min len (l.len - l.pos) < l.bufsize
  | .reset l => l.buf ≠ none
  -- the buffer is long enough already, and has a NUL where the new text ends
  | .setLine l str => (l.buf.getD [])[str.length]? = some 0 ∧ KEY_ESC ∉ str
  | .calloc fails => fails = false
  | .line2Cursor line2 => line2.isSome

namespace Editor

def get? (ed : Editor) : Which → Option Line
  | .main => some ed.line
  | .second => ed.line2

/-- Both lines are as they should be. -/
def Sound (ed : Editor) : Prop := ∀ which l, ed.get? which = some l → l.Sound

/-- Moreover there is this line, and it has a property. -/
def At (which : Which) (P : Line → Prop) (ed : Editor) : Prop := ed.Sound ∧ ∃ l, ed.get? which = some l ∧ P l

theorem sound_iff {ed : Editor} : ed.Sound ↔ ed.line.Sound ∧ ∀ l, ed.line2 = some l → l.Sound := by
  constructor
  · exact fun h => ⟨h .main _ rfl, fun l hl => h .second l hl⟩
  · rintro ⟨h1, h2⟩ (_ | _) l hl
    · obtain rfl := Option.some.inj hl
      exact h1
    · exact h2 l hl

theorem at_main {ed : Editor} (h : ed.Sound) : ed.At .main fun _ => True := ⟨h, _, rfl, trivial⟩

theorem At.mono {which : Which} {P Q : Line → Prop} (hPQ : ∀ l, P l → Q l) {ed : Editor} (h : ed.At which P) : ed.At which Q :=
  ⟨h.1, h.2.imp fun l hl => ⟨hl.1, hPQ l hl.2⟩⟩

/-- Only the lines matter. -/
theorem Sound.congr {ed ed' : Editor} (h : ed.Sound) (h1 : ed'.line = ed.line) (h2 : ed'.line2 = ed.line2) : ed'.Sound := by
  rw [sound_iff] at h ⊢
  rw [h1, h2]
  exact h

end Editor

namespace Ed
variable {α β : Type}

/-- The code from a state on. -/
def exec (x : Ed α) (w : World) : Option α × World := x.run.run w

@[simp] theorem exec_pure (a : α) (w : World) : exec (pure a) w = (some a, w) := rfl

theorem exec_bind (x : Ed α) (f : α → Ed β) (w : World) :
    exec (x >>= f) w = match exec x w with
      | (some a, w') => exec (f a) w'
      | (none, w') => (none, w') := by
  simp only [exec, OptionT.run_bind, Option.elimM, StateT.run_bind]
  cases h : x.run.run w with
  | mk a w' => cases a <;> rfl

@[simp] theorem exec_note (n : Note) (w : World) : exec (note n) w = (some (), { w with notes := w.notes ++ [n] }) := rfl
@[simp] theorem exec_editor (w : World) : exec editor w = (some w.ed, w) := rfl
@[simp] theorem exec_update (f : Editor → Editor) (w : World) : exec (update f) w = (some (), { w with ed := f w.ed }) := rfl

/-- The code makes `Q` of `P` and accesses the buffers only where they are, if all operations find the lines as
    they need them. -/
structure Triple (P : Editor → Prop) (x : Ed α) (Q : α → Editor → Prop) : Prop where
  grows : ∀ w, w.notes <+: (exec x w).2.notes
  holds : ∀ w, P w.ed → (∀ n ∈ (exec x w).2.notes, n.Fine) → ∃ a, (exec x w).1 = some a ∧ Q a (exec x w).2.ed

variable {P P' : Editor → Prop} {Q Q' : α → Editor → Prop} {R : β → Editor → Prop}

namespace Triple

theorem pure (a : α) (h : ∀ ed, P ed → Q a ed) : Triple P (pure a) Q :=
  ⟨fun _ => List.prefix_rfl, fun _ hw _ => ⟨a, rfl, h _ hw⟩⟩

theorem bind {x : Ed α} {f : α → Ed β} (hx : Triple P x Q) (hf : ∀ a, Triple (Q a) (f a) R) : Triple P (x >>= f) R := by
  constructor
  · intro w
    have hgrows := hx.grows w
    rw [exec_bind]
    generalize exec x w = r at hgrows ⊢
    obtain ⟨_ | a, w'⟩ := r
    · exact hgrows
    · exact hgrows.trans ((hf a).grows w')
  · intro w hw hfine
    have hgood := hx.holds w hw
    rw [exec_bind] at hfine ⊢
    generalize exec x w = r at hgood hfine ⊢
    obtain ⟨_ | a, w'⟩ := r
    · obtain ⟨a, ha, -⟩ := hgood hfine
      cases ha
    · obtain ⟨a', ha, hq⟩ := hgood fun n hn => hfine n (((hf a).grows w').subset hn)
      cases ha
      exact (hf a).holds w' hq hfine

theorem conseq {x : Ed α} (hx : Triple P x Q) (hP : ∀ ed, P' ed → P ed) (hQ : ∀ a ed, Q a ed → Q' a ed) : Triple P' x Q' :=
  ⟨hx.grows, fun w hw hfine => (hx.holds w (hP _ hw) hfine).imp fun a ha => ⟨ha.1, hQ a _ ha.2⟩⟩

/-- An operation that is noted is fine. -/
theorem note (n : Note) : Triple P (note n) fun _ ed => P ed ∧ n.Fine :=
  ⟨fun _ => List.prefix_append _ _, fun _ hw hfine => ⟨(), rfl, hw, hfine n (List.mem_append_right _ (List.mem_singleton_self n))⟩⟩

theorem editor : Triple P editor fun ed' ed => ed' = ed ∧ P ed :=
  ⟨fun _ => List.prefix_rfl, fun w hw _ => ⟨w.ed, rfl, rfl, hw⟩⟩

theorem update {f : Editor → Editor} {P' : Unit → Editor → Prop} (h : ∀ ed, P ed → P' () (f ed)) : Triple P (update f) P' :=
  ⟨fun _ => List.prefix_rfl, fun _ hw _ => ⟨(), rfl, h _ hw⟩⟩

end Triple

open Editor (At)

theorem exec_line (which : Which) (w : World) : exec (line which) w = (w.ed.get? which, w) := by
  cases which with
  | main => rfl
  | second =>
    rw [line, exec_bind, exec_editor]
    cases h : w.ed.line2 with
    | none => simp only [h, Editor.get?]; rfl
    | some l => simp only [h, Editor.get?]; rfl

theorem exec_setLine (which : Which) (l : Line) (w : World) :
    exec (setLine which l) w = (some (), { w with ed := match which with
      | .main => { w.ed with line := l }
      | .second => { w.ed with line2 := some l } }) := by
  cases which <;> rfl

theorem exec_access {which : Which} {f : Line → Option (α × Line)} (w : World) :
    exec (access which f) w = match w.ed.get? which with
      | some l => match f l with
        | some (a, l') => (some a, (exec (setLine which l') w).2)
        | none => (none, w)
      | none => (none, w) := by
  rw [access, exec_bind, exec_line]
  cases h : w.ed.get? which with
  | none => rfl
  | some l =>
    dsimp only
    cases hf : f l with
    | none => rfl
    | some r =>
      obtain ⟨a, l'⟩ := r
      dsimp only
      rw [exec_bind, exec_setLine]
      rfl

theorem Triple.line {which : Which} {P : Line → Prop} : Triple (At which P) (line which) fun l => At which fun l' => l' = l ∧ P l := by
  constructor
  · intro w
    simp only [exec_line, List.prefix_rfl]
  · intro w hw _
    obtain ⟨hs, l, hl, hP⟩ := hw
    rw [exec_line]
    exact ⟨l, hl, hs, l, hl, rfl, hP⟩

/-- A function of the line buffer that keeps the line as it should be. -/
theorem Triple.access {which : Which} {P : Line → Prop} {Q : α → Line → Prop} {f : Line → Option (α × Line)}
    (h : ∀ l : Line, l.Sound → P l → ∃ a l', f l = some (a, l') ∧ l'.Sound ∧ Q a l') :
    Triple (At which P) (access which f) fun a => At which (Q a) := by
  constructor
  · intro w
    rw [exec_access]
    split
    · split
      · simp only [exec_setLine, List.prefix_rfl]
      · exact List.prefix_rfl
    · exact List.prefix_rfl
  · intro w hw _
    obtain ⟨hs, l, hl, hP⟩ := hw
    obtain ⟨a, l', hf, hl', hQ⟩ := h l (hs which l hl) hP
    have hset : (exec (setLine which l') w).2.ed.Sound ∧ (exec (setLine which l') w).2.ed.get? which = some l' := by
      rw [exec_setLine, Editor.sound_iff] at *
      cases which with
      | main => exact ⟨⟨hl', hs.2⟩, rfl⟩
      | second => exact ⟨⟨hs.1, fun l hl => Option.some.inj hl ▸ hl'⟩, rfl⟩
    rw [exec_access]
    simp only [hl, hf]
    exact ⟨a, rfl, hset.1, l', hset.2, hQ⟩

/-- Every line of the editor is as it should be before and after. -/
def Keeps (x : Ed α) : Prop := Triple Editor.Sound x fun _ => Editor.Sound

/-- The same for a line that there has to be. -/
def KeepsAt (which : Which) (x : Ed α) : Prop := Triple (At which fun _ => True) x fun _ => Editor.Sound

theorem Keeps.pure (a : α) : Keeps (pure a) := Triple.pure a fun _ h => h

theorem Keeps.bind {x : Ed α} {f : α → Ed β} (hx : Keeps x) (hf : ∀ a, Keeps (f a)) : Keeps (x >>= f) := Triple.bind hx hf

theorem Keeps.editor {f : Editor → Ed β} (hf : ∀ ed, Keeps (f ed)) : Keeps (editor >>= f) :=
  Triple.bind Triple.editor fun ed => (hf ed).conseq (fun _ h => h.2) fun _ _ h => h

theorem Keeps.update {f : Editor → Editor} (h1 : ∀ ed, (f ed).line = ed.line) (h2 : ∀ ed, (f ed).line2 = ed.line2) : Keeps (update f) :=
  Triple.update fun ed h => h.congr (h1 ed) (h2 ed)

theorem Keeps.update_bind {f : Editor → Editor} {x : Ed β} (h1 : ∀ ed, (f ed).line = ed.line) (h2 : ∀ ed, (f ed).line2 = ed.line2)
    (hx : Keeps x) : Keeps (Ed.update f >>= fun _ => x) := (Keeps.update h1 h2).bind fun _ => hx

theorem KeepsAt.main {x : Ed α} (h : KeepsAt .main x) : Keeps x := h.conseq (fun _ => Editor.at_main) fun _ _ h => h

/-- A function of the line buffer that only needs the line to be as it should be. -/
theorem keepsAt_access {which : Which} {f : Line → Option (α × Line)} (h : ∀ l : Line, l.Sound → ∃ a l', f l = some (a, l') ∧ l'.Sound) :
    Triple (At which fun _ => True) (access which f) fun _ => At which fun _ => True := by
  refine Triple.access fun l hl _ => ?_
  obtain ⟨a, l', hf, hl'⟩ := h l hl
  exact ⟨a, l', hf, hl', trivial⟩

/-- One that is noted may need more. -/
theorem keepsAt_noted {which : Which} {n : Line → Note} {f : Line → Option Line}
    (h : ∀ l : Line, l.Sound → (n l).Fine → ∃ l', f l = some l' ∧ l'.Sound) :
    KeepsAt which (line which >>= fun l => note (n l) >>= fun _ => access which (lift f)) := by
  refine Triple.bind Triple.line fun l => Triple.bind (Triple.note _) fun _ => ?_
  have hacc : Triple (At which fun l' => l' = l ∧ (n l).Fine) (access which (lift f)) fun _ => At which fun _ => True := by
    refine Triple.access fun l' hl' hpre => ?_
    obtain ⟨rfl, hfine⟩ := hpre
    obtain ⟨l₁, hf, hl₁⟩ := h l' hl' hfine
    exact ⟨(), l₁, by simp [lift, hf], hl₁, trivial⟩
  refine hacc.conseq (fun ed h => ?_) fun _ _ h => h.1
  exact h.1.mono fun l' hl' => ⟨hl'.1, h.2⟩

theorem linebufDelete_keeps (which : Which) (len : Nat) : KeepsAt which (linebufDelete which len) := by
  refine keepsAt_noted fun l hl hfine => ?_
  cases hb : l.buf with
  | none => simp [Note.Fine, Line.bufsize, hb] at hfine
  | some b => exact Line.delete_spec hl hb (by simpa [Note.Fine, Line.bufsize, hb] using hfine)

theorem linebufReset_keeps (which : Which) : KeepsAt which (linebufReset which) :=
  keepsAt_noted fun _ hl hfine => Line.reset_spec hl hfine

theorem ulineSetLine_keeps (which : Which) (mem : Memory) (str : List Byte) : KeepsAt which (ulineSetLine which mem str) := by
  refine Triple.bind (Triple.editor (P := At which fun _ => True)) fun ed => ?_
  refine Triple.conseq (keepsAt_noted (n := (Note.setLine · str)) fun l hl hfine => ?_) (fun _ h => h.2) fun _ _ h => h
  obtain ⟨hnul, hesc⟩ := hfine
  cases hb : l.buf with
  | none => simp [hb] at hnul
  | some b => exact Line.setLine_spec ed.utf8 mem hl hb (by simpa [hb] using hnul) hesc

/-! ### The display and the calls of the program -/

theorem display_access (which : Which) (fullUpdate : Bool) :
    Triple (At which fun _ => True) (access which (lift (·.displayUpdateLine fullUpdate))) fun _ => At which fun _ => True := by
  refine keepsAt_access fun l hl => ⟨(), _, by rw [lift, Line.displayUpdateLine_spec fullUpdate hl]; rfl, ?_⟩
  exact ⟨hl.pos, Nat.le_refl _, hl.empty, hl.text⟩

theorem cursor_access (which : Which) :
    KeepsAt which (access which fun l => (l.addBuf 0 l.pos).map fun _ => ((), l)) := by
  refine Triple.conseq (keepsAt_access fun l hl => ⟨(), l, ?_, hl⟩) (fun _ h => h) fun _ _ h => h.1
  rw [Line.addBuf_spec hl 0 l.pos (by rw [Nat.zero_add]; exact hl.pos)]
  rfl

/-- What is done if there is a second line. -/
theorem Triple.second {x y : Ed α} (hx : Triple (At .second fun _ => True) x Q) (hy : Triple Editor.Sound y Q) :
    Triple Editor.Sound (Ed.editor >>= fun ed => if ed.line2.isSome then x else y) Q := by
  refine Triple.bind Triple.editor fun ed => ?_
  split_ifs with h2
  · refine hx.conseq (fun ed' h => ?_) fun _ _ h => h
    obtain ⟨rfl, hs⟩ := h
    obtain ⟨l, hl⟩ := Option.isSome_iff_exists.mp h2
    exact ⟨hs, l, hl, trivial⟩
  · exact hy.conseq (fun _ h => h.2) fun _ _ h => h

theorem displayLine2_spec (fullUpdate : Bool) :
    Triple Editor.Sound (displayLine2 fullUpdate) fun which => At which fun _ => True := by
  refine Triple.second ?_ (Triple.pure _ fun _ => Editor.at_main)
  exact Triple.bind (display_access .second fullUpdate) fun _ => Triple.pure _ fun _ h => h

theorem displayUpdate_keeps : Keeps displayUpdate := by
  refine Keeps.editor fun ed => ?_
  refine Triple.bind ((display_access .main ed.fullUpdate).conseq (fun _ => Editor.at_main) fun _ _ h => h.1) fun _ => ?_
  refine Triple.bind (displayLine2_spec _) fun which => Triple.bind (cursor_access which) fun _ => ?_
  exact Keeps.update (fun _ => rfl) fun _ => rfl

theorem setCursor_keeps (which : Which) (pos : Nat) : KeepsAt which (access which (lift fun l => some (l.setCursor pos))) :=
  (keepsAt_access fun _ hl => ⟨(), _, rfl, hl.move (Nat.min_le_right _ _)⟩).conseq (fun _ h => h) fun _ _ h => h.1

theorem callocLine2_spec (fails : Bool) : Triple Editor.Sound (callocLine2 fails) fun _ => At .second fun _ => True := by
  refine Triple.bind Triple.editor fun ed => ?_
  by_cases hnone : ed.line2.isNone = true
  · rw [if_pos hnone]
    refine Triple.bind (Triple.note _) fun _ => Triple.update fun ed' h => ?_
    obtain ⟨⟨-, hs⟩, hfine⟩ := h
    have hfails : fails = false := hfine
    rw [Editor.sound_iff] at hs
    refine ⟨Editor.sound_iff.mpr ⟨hs.1, ?_⟩, {}, by simp [hfails, Editor.get?], trivial⟩
    simp only [hfails]
    rintro l ⟨⟩
    exact Line.sound_init
  · rw [if_neg hnone]
    refine Triple.pure _ fun ed' h => ?_
    obtain ⟨rfl, hs⟩ := h
    obtain ⟨l, hl⟩ := Option.ne_none_iff_exists'.mp (by simpa using hnone)
    exact ⟨hs, l, hl, trivial⟩

theorem setLine2Prompt_keeps (fails : Bool) (str : Option (List Byte)) : Keeps (setLine2Prompt fails str) := by
  unfold setLine2Prompt
  cases str with
  | none =>
    refine Triple.update fun ed h => ?_
    rw [Editor.sound_iff] at h ⊢
    exact ⟨h.1, nofun⟩
  | some str =>
    refine Triple.bind (callocLine2_spec fails) fun _ => Triple.bind Triple.line fun l => ?_
    split_ifs
    · rw [show ∀ l, setLine .second l = Ed.update fun ed => { ed with line2 := some l } from fun _ => rfl]
      refine Triple.bind (Q := fun _ => Editor.Sound) (Triple.update fun ed h => ?_) fun _ => Keeps.update (fun _ => rfl) fun _ => rfl
      obtain ⟨hs, l', hl', rfl, -⟩ := h
      have hl := hs .second l' hl'
      rw [Editor.sound_iff] at hs ⊢
      refine ⟨hs.1, ?_⟩
      rintro _ ⟨⟩
      exact ⟨hl.pos, hl.update, hl.empty, hl.text⟩
    · exact Triple.pure _ fun _ h => h.1

theorem api_keeps (call : Api) : Keeps (api call) := by
  unfold api
  cases call with
  | setPrompt str =>
    refine Keeps.editor fun ed => ?_
    split_ifs
    · refine Triple.update fun ed h => ?_
      rw [Editor.sound_iff] at h ⊢
      exact ⟨⟨h.1.pos, h.1.update, h.1.empty, h.1.text⟩, h.2⟩
    · exact Keeps.pure _
  | setLine mem str => exact (ulineSetLine_keeps .main mem str).main
  | setCursor pos => exact (setCursor_keeps .main pos).main
  | setLine2Prompt fails str => exact setLine2Prompt_keeps fails str
  | setLine2 mem str => exact Triple.second (ulineSetLine_keeps .second mem str) (Keeps.pure _)
  | setLine2Cursor pos => exact Triple.second (setCursor_keeps .second pos) (Keeps.pure _)
  | hidePrompt => exact Keeps.update (fun _ => rfl) fun _ => rfl
  | refreshPrompt => exact displayUpdate_keeps
  | resetKeyInput => exact Keeps.update (fun _ => rfl) fun _ => rfl
  | pollStop => exact Keeps.update (fun _ => rfl) fun _ => rfl

theorem forM_keeps {ι : Type} {f : ι → Ed Unit} (hf : ∀ i, Keeps (f i)) (is : List ι) : Keeps (is.forM f) := by
  induction is with
  | nil => exact Keeps.pure _
  | cons i is ih => exact (hf i).bind fun _ => ih

theorem callback_keeps (r : Reply) : Keeps (callback r) := (forM_keeps api_keeps r.calls).bind fun _ => Keeps.pure _

/-! ### Keys -/

theorem moveLeft_keeps (utf8 : Bool) (which : Which) :
    Triple (At which fun _ => True) (access which (·.moveLeft utf8)) fun _ => At which fun _ => True := by
  refine keepsAt_access fun l hl => ?_
  obtain hstay | ⟨pos, hlt, hmove⟩ := Line.moveLeft_spec utf8 hl
  · exact ⟨false, l, hstay, hl⟩
  · exact ⟨true, _, hmove, hl.move (Nat.le_of_lt hlt)⟩

theorem deleteSymbol_keeps (which : Which) : KeepsAt which (deleteSymbol which) := by
  refine Triple.bind Triple.editor fun ed => ?_
  refine Triple.bind (Triple.line.conseq (fun _ h => h.2) fun _ _ h => h) fun l => ?_
  split_ifs with hend
  · exact Triple.pure _ fun _ h => h.1
  · have hacc : Triple (At which fun l' => l' = l ∧ True) (access which fun l => (l.symbolLength ed.utf8).map (·, l)) fun _ =>
        At which fun _ => True := by
      refine Triple.access fun l' hl' hpre => ?_
      obtain ⟨rfl, -⟩ := hpre
      obtain ⟨n, hn⟩ := Line.symbolLength_spec ed.utf8 hl' hend
      exact ⟨n, l', by rw [hn]; rfl, hl', trivial⟩
    exact Triple.bind hacc fun n => Triple.bind (linebufDelete_keeps which n) fun _ => Keeps.pure _

theorem processBackword_keeps (which : Which) : KeepsAt which (processBackword which) := by
  refine Triple.bind Triple.editor fun ed => ?_
  refine Triple.bind (Triple.line.conseq (fun _ h => h.2) fun _ _ h => h) fun l => ?_
  have hmove : Triple (At which fun _ => True) (access which (·.moveWordLeft ed.utf8)) fun _ => At which fun _ => True :=
    keepsAt_access fun l hl => Line.moveWordLeft_spec ed.utf8 hl
  refine Triple.bind (hmove.conseq (fun _ h => h.mono fun _ _ => trivial) fun _ _ h => h) fun moved => ?_
  split_ifs
  · exact Triple.pure _ fun _ h => h.1
  · refine Triple.bind Triple.line fun l' => Triple.bind ?_ fun _ => Keeps.pure _
    exact (linebufDelete_keeps which _).conseq (fun _ h => h.mono fun _ _ => trivial) fun _ _ h => h

/-- The line that a cursor key is for exists. -/
theorem escLine_spec (r : Replies) (esc : Escape) : Triple Editor.Sound (escLine r esc) fun which => At which fun _ => True := by
  unfold escLine
  refine Triple.bind Triple.editor fun ed => ?_
  by_cases hnone : ed.line2.isNone = true
  · rw [if_pos hnone]
    exact Triple.pure _ fun _ h => Editor.at_main h.2
  rw [if_neg hnone]
  by_cases hdel : esc = .delete
  · rw [if_pos hdel]
    refine Triple.pure _ fun ed' h => ?_
    obtain ⟨rfl, hs⟩ := h
    obtain ⟨l, hl⟩ := Option.ne_none_iff_exists'.mp (by simpa using hnone)
    exact ⟨hs, l, hl, trivial⟩
  · rw [if_neg hdel]
    refine Triple.bind ((callback_keeps r.line2Cursor).conseq (fun _ h => h.2) fun _ _ h => h) fun there => ?_
    split_ifs
    · refine Triple.bind Triple.editor fun ed' => Triple.bind (Triple.note _) fun _ => Triple.pure _ fun ed'' h => ?_
      obtain ⟨⟨rfl, hs⟩, hfine⟩ := h
      obtain ⟨l, hl⟩ := Option.isSome_iff_exists.mp hfine
      exact ⟨hs, l, hl, trivial⟩
    · exact Triple.pure _ fun _ => Editor.at_main

theorem KeepsAt.of_access {which : Which} {f : Line → Option (α × Line)} (h : ∀ l : Line, l.Sound → ∃ a l', f l = some (a, l') ∧ l'.Sound) :
    KeepsAt which (access which f) := (keepsAt_access h).conseq (fun _ h => h) fun _ _ h => h.1

theorem processEsc_keeps (r : Replies) (esc : Escape) : Keeps (processEsc r esc) := by
  refine Keeps.editor fun ed => Triple.bind (escLine_spec r esc) fun which => ?_
  have hevent : ∀ ret : Bool, Keeps (callback r.event >>= fun _ => Pure.pure ret) := fun ret =>
    (callback_keeps r.event).bind fun _ => Keeps.pure ret
  have hignored : KeepsAt which (Pure.pure false : Ed Bool) := Triple.pure _ fun _ h => h.1
  cases esc with
  | cursorLeft => exact (moveLeft_keeps ed.utf8 which).conseq (fun _ h => h) fun _ _ h => h.1
  | cursorWordLeft => exact KeepsAt.of_access fun l hl => Line.moveWordLeft_spec ed.utf8 hl
  | cursorRight => exact KeepsAt.of_access fun l hl => Line.moveRight_spec ed.utf8 hl
  | cursorWordRight => exact KeepsAt.of_access fun l hl => Line.moveWordRight_spec hl
  | cursorPos data =>
    refine Triple.conseq (Keeps.editor fun ed' => ?_) (fun _ h => h.1) fun _ _ h => h
    split_ifs
    · exact Keeps.pure _
    · exact Keeps.update_bind (fun _ => rfl) (fun _ => rfl) (hevent true)
  | home => exact KeepsAt.of_access fun l hl => ⟨true, _, rfl, hl.move (Nat.zero_le _)⟩
  | «end» => exact KeepsAt.of_access fun l hl => ⟨true, _, rfl, hl.move (Nat.le_refl _)⟩
  | cursorUp | cursorDown => exact (hevent true).conseq (fun _ h => h.1) fun _ _ h => h
  | delete => exact deleteSymbol_keeps which
  | incomplete | unknown | ignore => exact hignored

theorem newlineReset_keeps : Keeps newlineReset := by
  refine Keeps.update_bind (fun _ => rfl) (fun _ => rfl) (Keeps.editor fun ed => ?_)
  split_ifs
  · exact (linebufReset_keeps .main).main.bind fun _ => Keeps.pure _
  · exact Keeps.pure _

theorem insert_keeps (which : Which) (mem : Memory) {c : Byte} (hc : c ≠ KEY_ESC) : KeepsAt which (access which (·.insert mem [c])) :=
  KeepsAt.of_access fun _ hl => Line.insert_spec mem hl fun h => hc (List.mem_singleton.mp h).symm

theorem processNewline_keeps (mem : Memory) (r : Replies) : Keeps (processNewline mem r) := by
  have hend : Keeps (do
      update fun ed => { ed with line2 := none }
      let ret ← callback r.line
      update fun ed => { ed with stop := ret }
      if !ret then
        let _ ← access .main (·.insert mem [10])
        return true
      newlineReset) := by
    refine Triple.bind (Q := fun _ => Editor.Sound) (Triple.update fun ed h => ?_) fun _ => (callback_keeps r.line).bind fun ret =>
      Keeps.update_bind (fun _ => rfl) (fun _ => rfl) ?_
    · rw [Editor.sound_iff] at h ⊢
      exact ⟨h.1, nofun⟩
    · split_ifs
      · exact (insert_keeps .main mem (by decide)).main.bind fun _ => Keeps.pure _
      · exact newlineReset_keeps
  refine Keeps.editor fun ed => ?_
  split_ifs
  · refine (callback_keeps r.line2Newline).bind fun ignore => ?_
    split_ifs
    · exact Keeps.pure _
    · exact hend
  · exact hend

theorem current_spec : Triple Editor.Sound current fun which => At which fun _ => True := by
  refine Triple.bind Triple.editor fun ed => Triple.pure _ fun ed' h => ?_
  obtain ⟨rfl, hs⟩ := h
  split_ifs with h2
  · obtain ⟨l, hl⟩ := Option.isSome_iff_exists.mp h2
    exact ⟨hs, l, hl, trivial⟩
  · exact Editor.at_main hs

theorem processCtrl_keeps (mem : Memory) (r : Replies) (c : Byte) : Keeps (processCtrl mem r c) := by
  refine Triple.bind current_spec fun which => ?_
  have hmain : ∀ {x : Ed Bool}, Keeps x → KeepsAt which x := fun hx => hx.conseq (fun _ h => h.1) fun _ _ h => h
  have hstop : Keeps (update (fun ed => { ed with stop := true }) >>= fun _ => (Pure.pure true : Ed Bool)) :=
    Keeps.update_bind (fun _ => rfl) (fun _ => rfl) (Keeps.pure _)
  have hdelete : KeepsAt which (do
      let utf8 := (← editor).utf8
      if !(← access which (·.moveLeft utf8)) then return false
      let _ ← deleteSymbol which
      if (← editor).line2.isSome then
        let _ ← callback r.line2Update
      return true) := by
    refine Triple.bind Triple.editor fun ed => ?_
    refine Triple.bind ((moveLeft_keeps ed.utf8 which).conseq (fun _ h => h.2) fun _ _ h => h) fun moved => ?_
    split_ifs
    · exact Triple.pure _ fun _ h => h.1
    · refine Triple.bind (deleteSymbol_keeps which) fun _ => Keeps.editor fun ed' => ?_
      split_ifs
      · exact (callback_keeps r.line2Update).bind fun _ => Keeps.pure _
      · exact Keeps.pure _
  split
  · exact hmain (processNewline_keeps mem r)
  · exact hmain (processNewline_keeps mem r)
  · exact hmain ((callback_keeps r.event).bind fun _ => newlineReset_keeps.bind fun _ => hstop)
  · refine hmain (Keeps.editor fun ed => ?_)
    split_ifs
    · exact Keeps.pure _
    · exact (callback_keeps r.event).bind fun _ => hstop
  · exact hdelete
  · exact hdelete
  · exact hmain (Keeps.update_bind (fun _ => rfl) (fun _ => rfl) (Keeps.pure _))
  · exact Triple.bind (linebufReset_keeps which) fun _ => Keeps.pure _
  · exact hmain (processEsc_keeps r .home)
  · exact hmain (processEsc_keeps r .end)
  · exact processBackword_keeps which
  · exact hmain (Keeps.update_bind (fun _ => rfl) (fun _ => rfl) (Keeps.pure _))
  · exact hmain (Keeps.pure _)

theorem handleUtf8_keeps (c : Byte) : Keeps (handleUtf8 c) := by
  refine Keeps.editor fun ed => ?_
  split_ifs
  · exact Keeps.pure _
  · exact Keeps.pure _
  · exact Keeps.update_bind (fun _ => rfl) (fun _ => rfl) (Keeps.pure _)
  · exact Keeps.update_bind (fun _ => rfl) (fun _ => rfl) (Keeps.pure _)
  · exact Keeps.update_bind (fun _ => rfl) (fun _ => rfl) (Keeps.pure _)

theorem handleKey_keeps (mem : Memory) (r : Replies) (c : Byte) : Keeps (handleKey mem r c) := by
  unfold handleKey
  split_ifs with hctrl
  · exact processCtrl_keeps mem r c
  · have hesc : c ≠ KEY_ESC := by
      rintro rfl
      exact hctrl (Or.inl (by decide))
    refine Triple.bind current_spec fun which => Triple.bind (insert_keeps which mem hesc) fun inserted => ?_
    split_ifs
    · exact Keeps.pure _
    · refine (handleUtf8_keeps c).bind fun more => ?_
      split_ifs
      · exact Keeps.pure _
      · refine Keeps.editor fun ed' => ?_
        split_ifs
        · exact (callback_keeps r.line2Update).bind fun _ => Keeps.pure _
        · exact Keeps.pure _

theorem handleChar_keeps (mem : Memory) (r : Replies) (c : Byte) : Keeps (handleChar mem r c) := by
  refine Keeps.update_bind (fun _ => rfl) (fun _ => rfl) (Keeps.editor fun ed => ?_)
  cases ed.esc with
  | some seq =>
    dsimp only
    split_ifs
    · exact Keeps.update_bind (fun _ => rfl) (fun _ => rfl) (Keeps.pure _)
    · exact Keeps.update_bind (fun _ => rfl) (fun _ => rfl) (processEsc_keeps r _)
  | none =>
    dsimp only
    split_ifs
    · refine (callback_keeps r.keyInput).bind fun handled => ?_
      split_ifs
      · exact Keeps.pure _
      · exact handleKey_keeps mem r c
    · exact handleKey_keeps mem r c

theorem processChar_keeps (mem : Memory) (r : Replies) (c : Byte) : Keeps (processChar mem r c) := by
  refine (handleChar_keeps mem r c).bind fun shown => ?_
  split_ifs
  · refine Keeps.editor fun ed => ?_
    split_ifs
    · exact displayUpdate_keeps
    · exact Keeps.pure _
  · exact Keeps.pure _

/-- What one event keeps. -/
theorem event_keeps (e : Event) : Keeps (event e) := by
  cases e with
  | poll => exact displayUpdate_keeps.bind fun _ => Keeps.update (fun _ => rfl) fun _ => rfl
  | byte mem r c =>
    refine Keeps.editor fun ed => ?_
    split_ifs
    · exact processChar_keeps mem r c
    · exact Keeps.pure _
  | window r cols rows =>
    refine Keeps.editor fun ed => ?_
    split_ifs
    · exact Keeps.update_bind (fun _ => rfl) (fun _ => rfl) ((callback_keeps r.event).bind fun _ => Keeps.pure _)
    · exact Keeps.pure _
  | eof r => exact (callback_keeps r.event).bind fun _ => Keeps.pure _
  | api call => exact api_keeps call

/-- What every run keeps. -/
theorem runEvents_keeps (events : List Event) : Keeps (runEvents events) := forM_keeps event_keeps events

end Ed

/-- The editor behind `uline_init`. -/
def Editor.init (utf8 : Bool) (cols rows : Nat) : Editor := { utf8, cols, rows }

/-- The cursor is within the text and the text ends with a NUL within the buffer. A line that never had any text
    has no buffer. -/
def Line.Terminated (l : Line) : Prop :=
  l.pos ≤ l.len ∧ match l.buf with
    | none => l.len = 0
    | some b => l.len < b.length ∧ b[l.len]? = some 0

/-- No access was outside of a buffer, and all lines are terminated. -/
def Safe (r : Option Unit × World) : Prop := r.1 = some () ∧ ∀ which l, r.2.ed.get? which = some l → l.Terminated

/-- A run is safe if every deletion, reset and new line in it finds the line as it needs it. -/
theorem run_safe (utf8 : Bool) (cols rows : Nat) (events : List Event)
    (hfine : ∀ n ∈ (Ed.exec (Ed.runEvents events) { ed := Editor.init utf8 cols rows }).2.notes, n.Fine) :
    Safe (Ed.exec (Ed.runEvents events) { ed := Editor.init utf8 cols rows }) := by
  have hinit : (Editor.init utf8 cols rows).Sound := Editor.sound_iff.mpr ⟨Line.sound_init, nofun⟩
  obtain ⟨⟨⟩, hrun, hsound⟩ := (Ed.runEvents_keeps events).holds _ hinit hfine
  refine ⟨hrun, fun which l hl => ?_⟩
  have h := hsound which l hl
  refine ⟨h.pos, ?_⟩
  cases hb : l.buf with
  | none => exact h.empty hb
  | some b => exact ⟨(h.text b hb).lt, (h.text b hb).nul⟩

/-- Behind the first byte of a symbol stands a NUL, so that a text of one byte can be set there. -/
theorem run_safe_set_line : Safe (Ed.exec (Ed.runEvents [.byte {} {} 0xc3, .api (.setLine {} [120])]) { ed := Editor.init true 80 25 }) := by
  have hnotes : (Ed.exec (Ed.runEvents [.byte {} {} 0xc3, .api (.setLine {} [120])]) { ed := Editor.init true 80 25 }).2.notes =
      [.setLine { buf := some ([0xc3, 0] ++ List.replicate 62 0xff), len := 1, pos := 1 } [120]] := by rfl
  refine run_safe true 80 25 _ fun n hn => ?_
  rw [hnotes, List.mem_singleton] at hn
  subst hn
  exact ⟨rfl, by decide⟩

/-- A line that is reset before it has a buffer. -/
theorem reset_without_buffer : ¬∀ (utf8 : Bool) (cols rows : Nat) (events : List Event),
    Safe (Ed.exec (Ed.runEvents events) { ed := Editor.init utf8 cols rows }) := by
  intro h
  have hnone : (Ed.exec (Ed.runEvents [.byte {} {} 21]) { ed := Editor.init true 80 25 }).1 = none := by rfl
  have hsome := (h true 80 25 [.byte {} {} 21]).1
  rw [hnone] at hsome
  cases hsome

end RainWrt.Uline
