import RainWrt.Theorems.Uline.Line

/-! The text of a line: what the operations of the line buffer make of it, and that going by words gets on. -/

namespace RainWrt.Uline.Line

/-- The bytes before the NUL. -/
def text (l : Line) : List Byte := (l.buf.getD []).take l.len

/-- The text and a NUL have room in the buffer. -/
structure Held (l : Line) : Prop where
  pos : l.pos ≤ l.len
  empty : l.buf = none → l.len = 0
  room : ∀ b, l.buf = some b → l.len < b.length

variable {l : Line}

theorem Sound.held (h : l.Sound) : l.Held := ⟨h.pos, h.empty, fun b hb => (h.text b hb).lt⟩

theorem Held.move (h : l.Held) (pos : Nat) (hpos : pos ≤ l.len) : ({ l with pos } : Line).Held := ⟨hpos, h.empty, h.room⟩

theorem Held.exists_buf (h : l.Held) (hlen : 0 < l.len) : ∃ b, l.buf = some b ∧ l.len < b.length := by
  cases hb : l.buf with
  | none =>
    have := h.empty hb
    omega
  | some b => exact ⟨b, rfl, h.room b hb⟩

theorem Held.length_text (h : l.Held) : l.text.length = l.len := by
  unfold text
  cases hb : l.buf with
  | none => simp [h.empty hb]
  | some b =>
    have := h.room b hb
    simp only [Option.getD_some, List.length_take]
    omega

theorem getElem?_text {b : List Byte} (hb : l.buf = some b) {i : Nat} (hi : i < l.len) : l.text[i]? = b[i]? := by
  rw [text, hb, Option.getD_some, List.getElem?_take_of_lt hi]

/-- A byte of the text is read. -/
theorem read_text {i : Nat} (hi : i < l.len) (hbuf : l.buf ≠ none) : l.read i = l.text[i]? := by
  obtain ⟨b, hb⟩ := Option.ne_none_iff_exists'.mp hbuf
  rw [getElem?_text hb hi, Line.read, hb, Option.bind_some]

/-- The NUL may be read too. -/
theorem Held.read (h : l.Held) (hlen : 0 < l.len) {i : Nat} (hi : i ≤ l.len) : ∃ c, l.read i = some c := by
  obtain ⟨b, hb, hlt⟩ := h.exists_buf hlen
  exact ⟨b[i], by simp [Line.read, hb, List.getElem?_eq_getElem (show i < b.length by omega)]⟩

/-! ### Deleting -/

/-- A deletion takes the bytes behind the cursor out of the text. It reads as many bytes behind the NUL. -/
theorem delete_eq (h : l.Held) {n : Nat} (hn : l.pos + n ≤ l.len) (hroom : l.len + n < l.bufsize) :
    ∃ b, l.delete n = some { l with buf := some b, len := l.len - n, updatePos := min l.updatePos l.pos } ∧ b.length = l.bufsize ∧
      b.take (l.len - n) = l.text.take l.pos ++ l.text.drop (l.pos + n) := by
  obtain ⟨b, hb⟩ : ∃ b, l.buf = some b := by
    refine Option.ne_none_iff_exists'.mp fun hnone => ?_
    simp only [Line.bufsize, hnone, Option.getD_none, List.length_nil] at hroom
    omega
  have hsize : l.bufsize = b.length := by rw [Line.bufsize, hb, Option.getD_some]
  rw [hsize] at hroom ⊢
  obtain ⟨b', hmove, hlen', hget⟩ := memmove_getElem? b l.pos (l.pos + n) (l.len - l.pos + 1) (by omega) (by omega)
  have hmin : min n (l.len - l.pos) = n := Nat.min_eq_left (by omega)
  refine ⟨b', by simp [delete, hb, hmin, hmove], hlen', ?_⟩
  have htake : l.text = b.take l.len := by rw [text, hb, Option.getD_some]
  refine List.ext_getElem? fun j => ?_
  rw [htake, List.take_take, Nat.min_eq_left h.pos]
  by_cases hj : j < l.len - n
  · rw [List.getElem?_take_of_lt hj, hget]
    by_cases hlt : j < l.pos
    · rw [if_neg (by omega), List.getElem?_append_left (by rw [List.length_take]; omega), List.getElem?_take_of_lt hlt]
    · have hlen : (b.take l.pos).length = l.pos := by
        have := h.pos
        rw [List.length_take]
        omega
      rw [if_pos (by omega), List.getElem?_append_right (by omega), hlen, List.getElem?_drop, List.getElem?_take_of_lt (by omega)]
  · rw [List.getElem?_eq_none (by rw [List.length_take]; omega), List.getElem?_eq_none]
    have := h.pos
    simp only [List.length_append, List.length_take, List.length_drop]
    omega

/-- Without that many bytes there it reads outside of the buffer. -/
theorem delete_eq_none (h : l.Held) {n : Nat} (hn : l.pos + n ≤ l.len) (hroom : ¬l.len + n < l.bufsize) : l.delete n = none := by
  have hpos := h.pos
  have hmin : min n (l.len - l.pos) = n := Nat.min_eq_left (by omega)
  cases hb : l.buf with
  | none => simp [delete, hb]
  | some b =>
    have hsize : l.bufsize = b.length := by rw [Line.bufsize, hb, Option.getD_some]
    rw [hsize] at hroom
    have hload : load b (l.pos + n) (l.len - l.pos + 1) = none := by
      unfold load
      rw [if_neg (by omega), if_neg (by omega)]
    simp [delete, hb, hmin, memmove, hload]

/-! ### Words -/

section
variable (h : l.Held) (hlen : 0 < l.len)
include h hlen

theorem skipLeft_stops (spaces : Bool) (pos : Nat) (hpos : pos ≤ l.len) :
    ∃ q ≤ pos, l.skipLeft spaces pos = some q ∧ (q = 0 ∨ ∃ c, l.read q = some c ∧ isspaceByte c ≠ spaces) := by
  induction pos with
  | zero => exact ⟨0, Nat.le_refl _, rfl, Or.inl rfl⟩
  | succ p ih =>
    obtain ⟨c, hc⟩ := h.read hlen hpos
    by_cases hs : isspaceByte c = spaces
    · obtain ⟨q, hle, hq, hstop⟩ := ih (by omega)
      exact ⟨q, by omega, by simp [skipLeft, hc, hs, hq], hstop⟩
    · exact ⟨p + 1, Nat.le_refl _, by simp [skipLeft, hc, hs], Or.inr ⟨c, hc, hs⟩⟩

theorem skipRight_goes (spaces : Bool) (left pos : Nat) (hpos : pos + left = l.len) :
    ∃ q, l.skipRight spaces left pos = some q ∧ pos ≤ q ∧ q ≤ l.len ∧
      (0 < left → (∃ c, l.read pos = some c ∧ isspaceByte c = spaces) → pos < q) := by
  induction left generalizing pos with
  | zero =>
    obtain ⟨c, hc⟩ := h.read hlen (i := pos) (by omega)
    exact ⟨pos, by simp [skipRight, hc], Nat.le_refl _, by omega, fun h0 => absurd h0 (Nat.lt_irrefl _)⟩
  | succ n ih =>
    obtain ⟨c, hc⟩ := h.read hlen (i := pos) (by omega)
    obtain ⟨q, hq, hge, hle, -⟩ := ih (pos + 1) (by omega)
    by_cases hs : isspaceByte c = spaces
    · exact ⟨q, by simp [skipRight, hc, hs, hq], by omega, hle, fun _ _ => by omega⟩
    · refine ⟨pos, by simp [skipRight, hc, hs], Nat.le_refl _, by omega, fun _ hsp => ?_⟩
      obtain ⟨c', hc', hs'⟩ := hsp
      rw [hc] at hc'
      cases hc'
      exact absurd hs' hs

end

/-- The first byte of the text is a blank. -/
def BlankFirst (l : Line) : Prop := ∃ c, l.read 0 = some c ∧ isspaceByte c = true

instance (l : Line) : Decidable l.BlankFirst :=
  decidable_of_iff ((l.read 0).any isspaceByte = true) (by rw [BlankFirst, Option.any_eq_true])

theorem utf8MoveLeft_lt (h : l.Held) {pos : Nat} (hpos : pos ≤ l.len) (h0 : 0 < pos) : ∃ q, l.utf8MoveLeft pos = some q ∧ q < pos := by
  induction pos with
  | zero => exact absurd h0 (Nat.lt_irrefl _)
  | succ p ih =>
    unfold utf8MoveLeft
    split_ifs with hp
    · exact ⟨0, rfl, by omega⟩
    · obtain ⟨c, hc⟩ := h.read (by omega) (i := p) (by omega)
      by_cases hcont : isUtf8Cont c
      · obtain ⟨q, hq, hlt⟩ := ih (by omega) (by omega)
        exact ⟨q, by simp [hc, hcont, hq], by omega⟩
      · exact ⟨p, by simp [hc, hcont], Nat.lt_succ_self p⟩

theorem moveLeft_lt (utf8 : Bool) (h : l.Held) (h0 : 0 < l.pos) : ∃ q < l.pos, l.moveLeft utf8 = some (true, { l with pos := q }) := by
  unfold moveLeft
  rw [if_neg (by omega)]
  cases utf8 with
  | true =>
    obtain ⟨q, hq, hlt⟩ := utf8MoveLeft_lt h h.pos h0
    exact ⟨q, hlt, by simp [hq]⟩
  | false => exact ⟨l.pos - 1, by omega, rfl⟩

/-- Where going left by a word ends. It does not get on from behind a blank that is the first byte, and never before it. -/
theorem moveWordLeft_goes (utf8 : Bool) (h : l.Held) (h0 : 0 < l.pos) :
    ∃ q ≤ l.pos, l.moveWordLeft utf8 = some (true, { l with pos := q }) ∧ (q = l.pos ↔ l.pos = 1 ∧ l.BlankFirst) ∧ (l.BlankFirst → 0 < q) := by
  have hlen : 0 < l.len := Nat.lt_of_lt_of_le h0 h.pos
  obtain ⟨p₁, hlt, hmove⟩ := moveLeft_lt utf8 h h0
  have hpos := h.pos
  have h' : ({ l with pos := p₁ } : Line).Held := h.move _ (by omega)
  obtain ⟨p₂, hle₂, hskip₂, hstop₂⟩ := skipLeft_stops h' hlen true p₁ (by dsimp only; omega)
  obtain ⟨p₃, hle₃, hskip₃, hstop₃⟩ := skipLeft_stops h' hlen false p₂ (by dsimp only; omega)
  obtain ⟨c, hc⟩ := h.read hlen (i := p₃) (by omega)
  have hc' : ({ l with pos := p₁ } : Line).read p₃ = some c := hc
  refine ⟨if isspaceByte c then p₃ + 1 else p₃, by split_ifs <;> omega, ?_, ?_, ?_⟩
  · simp [moveWordLeft, hmove, hskip₂, hskip₃, hc']
  · by_cases hs : isspaceByte c = true
    · rw [if_pos hs]
      constructor
      · intro heq
        -- all three positions are the one before the cursor, and it is a blank: only the start of the line stops there
        obtain rfl : p₂ = p₃ := by omega
        have h0' : p₂ = 0 := by
          obtain h0' | ⟨d, hd, hne⟩ := hstop₂
          · exact h0'
          · rw [hc'] at hd
            cases hd
            exact absurd hs hne
        subst h0'
        exact ⟨by omega, c, hc, hs⟩
      · rintro ⟨h1, -⟩
        omega
    · rw [if_neg hs]
      constructor
      · intro heq
        omega
      · rintro ⟨h1, d, hd, hsd⟩
        obtain rfl : p₃ = 0 := by omega
        rw [hc] at hd
        cases hd
        exact absurd hsd hs
  · rintro ⟨d, hd, hsd⟩
    by_cases h3 : p₃ = 0
    · subst h3
      rw [hc] at hd
      cases hd
      rw [if_pos hsd]
      exact Nat.zero_lt_one
    · split_ifs <;> omega

theorem moveWordRight_goes (h : l.Held) (hlt : l.pos < l.len) : ∃ q > l.pos, l.moveWordRight = some (true, { l with pos := q }) := by
  have hlen : 0 < l.len := by omega
  obtain ⟨c, hc⟩ := h.read hlen (i := l.pos) (by omega)
  obtain ⟨p, hp, hge, hle, hgoes⟩ := skipRight_goes h hlen false (l.len - l.pos) l.pos (by omega)
  obtain ⟨q, hq, hge', hle', hgoes'⟩ := skipRight_goes h hlen true (l.len - p) p (by omega)
  refine ⟨q, ?_, ?_⟩
  · by_cases hs : isspaceByte c = true
    · by_cases hp : p = l.pos
      · subst hp
        exact hgoes' (by omega) ⟨c, hc, hs⟩
      · omega
    · have := hgoes (by omega) ⟨c, hc, by simpa using hs⟩
      omega
  · unfold moveWordRight
    rw [if_neg (by omega)]
    simp [hp, hq]

/-! ### Deleting words -/

/-- `process_backword` of this line, and whether it deletes. -/
def backword (utf8 : Bool) (l : Line) : Option (Bool × Line) := do
  let (moved, l') ← l.moveWordLeft utf8
  if !moved then return (false, l')
  return (true, ← l'.delete (l.pos - l'.pos))

/-- So many times in a row. -/
def backwords (utf8 : Bool) : Nat → Line → Option Line
  | 0, l => some l
  | n + 1, l => (l.backword utf8).bind fun r => backwords utf8 n r.2

/-- The deletion of a word that moves the cursor to `q` finds the bytes that it moves. -/
def RoomTo (l : Line) (q : Nat) : Prop := l.len + (l.pos - q) < l.bufsize

/-- This holds of each deletion of a word until nothing is left before the cursor. -/
def Roomy (utf8 : Bool) (l : Line) : Prop :=
  ∀ n l₁ l₂, backwords utf8 n l = some l₁ → l₁.moveWordLeft utf8 = some (true, l₂) → l₁.RoomTo l₂.pos

theorem moveWordLeft_start (utf8 : Bool) (h0 : l.pos = 0) : l.moveWordLeft utf8 = some (false, l) := by
  simp [moveWordLeft, moveLeft, h0]

theorem backword_start (utf8 : Bool) (h0 : l.pos = 0) : l.backword utf8 = some (false, l) := by
  simp [backword, moveWordLeft_start utf8 h0]

theorem backwords_start (utf8 : Bool) (h0 : l.pos = 0) (n : Nat) : backwords utf8 n l = some l := by
  induction n with
  | zero => rfl
  | succ n ih => rw [backwords, backword_start utf8 h0, Option.bind_some, ih]

/-- A word before the cursor is taken out of the text. -/
structure Cut (l : Line) (q : Nat) (l' : Line) : Prop where
  held : l'.Held
  pos : l'.pos = q
  bufsize : l'.bufsize = l.bufsize
  len : l'.len = l.len - (l.pos - q)
  text : l'.text = l.text.take q ++ l.text.drop l.pos

theorem cut_delete (h : l.Held) {q : Nat} (hq : q ≤ l.pos) (hroom : l.RoomTo q) :
    ∃ l', ({ l with pos := q } : Line).delete (l.pos - q) = some l' ∧ Cut l q l' := by
  have hpos := h.pos
  have hmoved : ({ l with pos := q } : Line).Held := h.move _ (by omega)
  obtain ⟨b, hdel, hsize, htake⟩ := delete_eq hmoved (n := l.pos - q) (by dsimp only; omega) hroom
  have hend : q + (l.pos - q) = l.pos := by omega
  have hlt : l.len + (l.pos - q) < b.length := by
    rw [hsize]
    exact hroom
  refine ⟨_, hdel, ⟨⟨by dsimp only; omega, nofun, ?_⟩, rfl, hsize, rfl, ?_⟩⟩
  · rintro _ ⟨⟩
    dsimp only
    omega
  · rw [text, Option.getD_some]
    rw [hend] at htake
    exact htake

/-- One deletion of a word from a cursor that is not at the start. -/
theorem backword_cases (utf8 : Bool) (h : l.Held) (h0 : 0 < l.pos) :
    ∃ q ≤ l.pos, l.moveWordLeft utf8 = some (true, { l with pos := q }) ∧ (q = l.pos ↔ l.pos = 1 ∧ l.BlankFirst) ∧
      (l.BlankFirst → 0 < q) ∧ (l.RoomTo q → ∃ l', l.backword utf8 = some (true, l') ∧ Cut l q l') ∧
      (¬l.RoomTo q → l.backword utf8 = none) := by
  obtain ⟨q, hq, hmove, hstay, hblank⟩ := moveWordLeft_goes utf8 h h0
  refine ⟨q, hq, hmove, hstay, hblank, fun hroom => ?_, fun hroom => ?_⟩
  · obtain ⟨l', hdel, hcut⟩ := cut_delete h hq hroom
    exact ⟨l', by simp [backword, hmove, hdel], hcut⟩
  · have hpos := h.pos
    have hnone := delete_eq_none (h.move q (by omega)) (n := l.pos - q) (by dsimp only; omega) hroom
    simp [backword, hmove, hnone]

/-- The first byte stays as long as something is left before the cursor. -/
theorem Cut.blankFirst {q : Nat} {l' : Line} (hcut : Cut l q l') (h : l.Held) (hq : q ≤ l.pos) (h0 : 0 < q) : l'.BlankFirst ↔ l.BlankFirst := by
  have hpos := h.pos
  have hlen := hcut.len
  have hread : l'.read 0 = l.read 0 := by
    obtain ⟨b, hb, -⟩ := h.exists_buf (by omega)
    obtain ⟨b', hb', -⟩ := hcut.held.exists_buf (by omega)
    have htake : (l.text.take q).length = q := by
      rw [List.length_take, h.length_text]
      omega
    rw [read_text (by omega) (by rw [hb']; nofun), read_text (by omega) (by rw [hb]; nofun), hcut.text,
      List.getElem?_append_left (by omega), List.getElem?_take_of_lt h0]
  rw [BlankFirst, BlankFirst, hread]

theorem Cut.rest {q : Nat} {l' : Line} (hcut : Cut l q l') (h : l.Held) (hq : q ≤ l.pos) : l'.text.drop l'.pos = l.text.drop l.pos := by
  have hpos := h.pos
  have htake : (l.text.take q).length = q := by
    rw [List.length_take, h.length_text]
    omega
  rw [hcut.text, hcut.pos, List.drop_left' htake]

/-- A blank at the start of the line stays there. -/
theorem backwords_blank (utf8 : Bool) (h : l.Held) (h0 : 0 < l.pos) (hblank : l.BlankFirst) (n : Nat) {l' : Line}
    (hrun : backwords utf8 n l = some l') : 0 < l'.pos := by
  induction n generalizing l with
  | zero =>
    cases hrun
    exact h0
  | succ n ih =>
    obtain ⟨q, hq, -, -, hstart, hroom, hfail⟩ := backword_cases utf8 h h0
    by_cases hr : l.RoomTo q
    · obtain ⟨l₁, hback, hcut⟩ := hroom hr
      rw [backwords, hback, Option.bind_some] at hrun
      have hq0 := hstart hblank
      exact ih hcut.held (by rw [hcut.pos]; exact hq0) ((hcut.blankFirst h hq hq0).mpr hblank) hrun
    · rw [backwords, hfail hr] at hrun
      cases hrun

/-- Otherwise everything before the cursor goes. -/
theorem backwords_empty (utf8 : Bool) (h : l.Held) (hblank : l.pos = 0 ∨ ¬l.BlankFirst) (hroomy : l.Roomy utf8) :
    ∃ n l', backwords utf8 n l = some l' ∧ l'.pos = 0 ∧ l'.text = l.text.drop l.pos := by
  generalize hp : l.pos = p at hblank
  induction p using Nat.strongRecOn generalizing l with
  | _ p ih =>
    by_cases h0 : p = 0
    · exact ⟨0, l, rfl, hp.trans h0, by rw [h0, List.drop_zero]⟩
    have hb : ¬l.BlankFirst := hblank.resolve_left h0
    obtain ⟨q, hq, hmove, hstay, -, hroom, -⟩ := backword_cases utf8 h (by omega)
    obtain ⟨l₁, hback, hcut⟩ := hroom (hroomy 0 l _ rfl hmove)
    have hlt : q < l.pos := Nat.lt_of_le_of_ne hq fun heq => hb (hstay.mp heq).2
    have hnext : q = 0 ∨ ¬l₁.BlankFirst := by
      by_cases hq0 : q = 0
      · exact Or.inl hq0
      · exact Or.inr fun hb₁ => hb ((hcut.blankFirst h hq (Nat.pos_of_ne_zero hq0)).mp hb₁)
    have hroomy₁ : l₁.Roomy utf8 := fun n l₂ l₃ hrun => hroomy (n + 1) l₂ l₃ (by rw [backwords, hback, Option.bind_some]; exact hrun)
    obtain ⟨n, l', hrun, hend, htext⟩ := ih q (by omega) hcut.held hroomy₁ hcut.pos hnext
    refine ⟨n + 1, l', by rw [backwords, hback, Option.bind_some]; exact hrun, hend, ?_⟩
    rw [htext, ← hcut.pos, hcut.rest h hq, hp]

/-- If everything goes, each deletion found what it moved. -/
theorem roomy_of_empty (utf8 : Bool) (h : l.Held) {m : Nat} {l' : Line} (hrun : backwords utf8 m l = some l') (hend : l'.pos = 0) :
    l.Roomy utf8 := by
  induction m generalizing l with
  | zero =>
    cases hrun
    intro n l₁ l₂ hrun₁ hmove
    rw [backwords_start utf8 hend] at hrun₁
    cases hrun₁
    rw [moveWordLeft_start utf8 hend] at hmove
    cases hmove
  | succ m ih =>
    by_cases h0 : l.pos = 0
    · refine ih h ?_
      rw [backwords_start utf8 h0] at hrun ⊢
      exact hrun
    obtain ⟨q, hq, hmove, -, -, hroom, hfail⟩ := backword_cases utf8 h (Nat.pos_of_ne_zero h0)
    have hr : l.RoomTo q := by
      by_contra hr
      rw [backwords, hfail hr] at hrun
      cases hrun
    obtain ⟨l₁, hback, hcut⟩ := hroom hr
    rw [backwords, hback, Option.bind_some] at hrun
    intro n l₂ l₃ hrun₂ hmove₂
    cases n with
    | zero =>
      cases hrun₂
      rw [hmove] at hmove₂
      cases hmove₂
      exact hr
    | succ n =>
      rw [backwords, hback, Option.bind_some] at hrun₂
      exact ih hcut.held hrun n l₂ l₃ hrun₂ hmove₂

/-- What going by words has to do. -/
structure GetsOn (utf8 : Bool) (l : Line) : Prop where
  left : 0 < l.pos → ∃ l', l.moveWordLeft utf8 = some (true, l') ∧ l'.pos < l.pos
  right : l.pos < l.len → ∃ l', l.moveWordRight = some (true, l') ∧ l.pos < l'.pos
  empties : 0 < l.pos → ∃ n l', backwords utf8 n l = some l' ∧ l'.pos = 0 ∧ l'.text = l.text.drop l.pos

end RainWrt.Uline.Line

namespace RainWrt.Uline
open Line

/-- Going by words gets on exactly if the cursor is at the start of the line or the line does not start with a blank, and each
    deleted word is followed by as many bytes behind the text as are deleted. -/
theorem words_get_on_iff (utf8 : Bool) (l : Line) (h : l.Held) :
    l.GetsOn utf8 ↔ l.pos = 0 ∨ ¬l.BlankFirst ∧ l.Roomy utf8 := by
  constructor
  · intro hon
    by_cases h0 : l.pos = 0
    · exact Or.inl h0
    obtain ⟨n, l', hrun, hend, -⟩ := hon.empties (Nat.pos_of_ne_zero h0)
    refine Or.inr ⟨fun hblank => ?_, roomy_of_empty utf8 h hrun hend⟩
    have := backwords_blank utf8 h (Nat.pos_of_ne_zero h0) hblank n hrun
    omega
  · intro hcond
    refine ⟨fun h0 => ?_, fun hlt => ?_, fun h0 => ?_⟩
    · obtain ⟨q, hq, hmove, hstay, -⟩ := moveWordLeft_goes utf8 h h0
      refine ⟨_, hmove, Nat.lt_of_le_of_ne hq fun heq => ?_⟩
      obtain h0' | ⟨hblank, -⟩ := hcond
      · omega
      · exact hblank (hstay.mp heq).2
    · obtain ⟨q, hgt, hmove⟩ := moveWordRight_goes h hlt
      exact ⟨_, hmove, hgt⟩
    · obtain h0' | ⟨hblank, hroomy⟩ := hcond
      · omega
      · exact backwords_empty utf8 h (Or.inr hblank) hroomy

/-- A line with the text `a b` and the cursor at its end. -/
def shortLine : Line := { buf := some ([97, 32, 98] ++ List.replicate 61 0), len := 3, pos := 3 }

/-- A line with one blank and the cursor behind it. -/
def blankLine : Line := { buf := some (32 :: List.replicate 63 0), len := 1, pos := 1 }

theorem held_shortLine : shortLine.Held := ⟨Nat.le_refl _, nofun, by rintro _ ⟨⟩; decide⟩

theorem held_blankLine : blankLine.Held := ⟨Nat.le_refl _, nofun, by rintro _ ⟨⟩; decide⟩

theorem words_get_on_iff_short : shortLine.GetsOn true ↔ shortLine.pos = 0 ∨ ¬shortLine.BlankFirst ∧ shortLine.Roomy true :=
  words_get_on_iff true shortLine held_shortLine

/-- Going left from behind the blank goes nowhere. -/
theorem blank_keeps_cursor : ¬∀ (utf8 : Bool) (l : Line), l.Held → l.GetsOn utf8 := by
  intro hall
  obtain ⟨l', hmove, hlt⟩ := (hall true blankLine held_blankLine).left (by decide)
  obtain ⟨q, -, hgoes, hstay, -⟩ := moveWordLeft_goes true held_blankLine (by decide)
  have hq : q = 1 := hstay.mpr ⟨rfl, 32, rfl, by decide⟩
  rw [hgoes] at hmove
  cases hmove
  subst hq
  exact absurd hlt (by decide)

end RainWrt.Uline
