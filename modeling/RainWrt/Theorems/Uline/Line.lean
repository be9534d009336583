import RainWrt.Uline.Line

/-! What each operation of the line buffer needs, and what it keeps. -/

namespace RainWrt.Uline

/-! ### Blocks of bytes -/

theorem load_getElem? {b : List Byte} {i n : Nat} (h : i + n ≤ b.length) :
    ∃ bytes, load b i n = some bytes ∧ bytes.length = n ∧ ∀ j < n, bytes[j]? = b[i + j]? := by
  unfold load
  split_ifs with hn
  · exact ⟨[], rfl, by simp [hn], fun j hj => absurd hj (by omega)⟩
  · refine ⟨_, rfl, by simp; omega, fun j hj => ?_⟩
    rw [List.getElem?_take_of_lt hj, List.getElem?_drop]

theorem store_getElem? (b : List Byte) (i : Nat) (bytes : List Byte) (h : i + bytes.length ≤ b.length) :
    ∃ b', store b i bytes = some b' ∧ b'.length = b.length ∧
      ∀ j, b'[j]? = if i ≤ j ∧ j < i + bytes.length then bytes[j - i]? else b[j]? := by
  unfold store
  split_ifs with hn
  · refine ⟨b, rfl, rfl, fun j => ?_⟩
    rw [if_neg]
    simp only [hn, List.length_nil]
    omega
  · refine ⟨_, rfl, by simp; omega, fun j => ?_⟩
    have hi : (b.take i).length = i := by simp; omega
    split_ifs with hj
    · rw [List.getElem?_append_left (by simp; omega), List.getElem?_append_right (by omega), hi]
    · by_cases hlt : j < i
      · rw [List.getElem?_append_left (by simp; omega), List.getElem?_append_left (by omega), List.getElem?_take_of_lt hlt]
      · rw [List.getElem?_append_right (by simp; omega), List.getElem?_drop]
        congr 1
        simp
        omega

theorem memmove_getElem? (b : List Byte) (dest src n : Nat) (hsrc : src + n ≤ b.length) (hdest : dest + n ≤ b.length) :
    ∃ b', memmove b dest src n = some b' ∧ b'.length = b.length ∧
      ∀ j, b'[j]? = if dest ≤ j ∧ j < dest + n then b[src + (j - dest)]? else b[j]? := by
  obtain ⟨bytes, hload, hlen, hbytes⟩ := load_getElem? hsrc
  obtain ⟨b', hstore, hlen', hget⟩ := store_getElem? b dest bytes (by omega)
  refine ⟨b', by rw [memmove, hload, Option.bind_some, hstore], hlen', fun j => ?_⟩
  rw [hget, hlen]
  split_ifs with hj
  · exact hbytes _ (by omega)
  · rfl

namespace Line

/-- The text ends with a NUL within the buffer, and has no escape. -/
structure TextIn (len : Nat) (b : List Byte) : Prop where
  lt : len < b.length
  nul : b[len]? = some 0
  esc : ∀ j < len, b[j]? ≠ some KEY_ESC

/-- What holds of a line between two operations. -/
structure Sound (l : Line) : Prop where
  pos : l.pos ≤ l.len
  update : l.updatePos ≤ l.len
  empty : l.buf = none → l.len = 0
  text : ∀ b, l.buf = some b → TextIn l.len b

theorem sound_init : ({} : Line).Sound := ⟨Nat.le_refl _, Nat.le_refl _, fun _ => rfl, nofun⟩

variable {l : Line}

theorem Sound.bufsize (h : l.Sound) : l.len ≤ l.bufsize := by
  cases hb : l.buf with
  | none => simp [h.empty hb]
  | some b => simpa [Line.bufsize, hb] using Nat.le_of_lt (h.text b hb).lt

theorem Sound.buf_of_pos (h : l.Sound) (hlen : 0 < l.len) : ∃ b, l.buf = some b ∧ TextIn l.len b := by
  cases hb : l.buf with
  | none =>
    have := h.empty hb
    omega
  | some b => exact ⟨b, rfl, h.text b hb⟩

/-- There is room for what was asked, or the line is as it was. -/
theorem extend_spec (mem : Memory) (hle : l.len ≤ l.bufsize) (size : Nat) :
    l.extend mem size = (false, l) ∨
      ∃ b, l.extend mem size = (true, { l with buf := some b }) ∧ l.len + size ≤ b.length ∧ ∀ j < l.bufsize, b[j]? = (l.buf.getD [])[j]? := by
  by_cases hroom : l.buf.isSome ∧ l.bufsize - l.len > size
  · obtain ⟨b, hb⟩ := Option.isSome_iff_exists.mp hroom.1
    refine Or.inr ⟨b, by rw [extend, if_pos hroom, ← hb], ?_, fun j _ => by rw [hb]; rfl⟩
    have hlt := hroom.2
    simp only [Line.bufsize, hb, Option.getD_some] at hlt
    omega
  · cases hfails : mem.fails with
    | true => exact Or.inl (by rw [extend, if_neg hroom, if_pos hfails])
    | false =>
      refine Or.inr ⟨_, by rw [extend, if_neg hroom, if_neg (by simp [hfails])], ?_, fun j hj => List.getElem?_append_left hj⟩
      rw [List.length_append, List.length_map, List.length_range]
      change _ ≤ l.bufsize + _
      simp only [LINEBUF_CHUNK]
      omega

theorem moveTail_spec {b : List Byte} {n : Nat} (hpos : l.pos ≤ l.len) (hroom : l.len + (n + 1) ≤ b.length) :
    ∃ b', l.moveTail b n = some b' ∧ b'.length = b.length ∧
      ∀ j < l.len + n, b'[j]? = if l.pos + n ≤ j then b[j - n]? else b[j]? := by
  unfold moveTail
  split_ifs with htail
  · obtain ⟨b', h', hl', hg'⟩ := memmove_getElem? b (l.pos + n) l.pos (l.len - l.pos) (by omega) (by omega)
    refine ⟨b', h', hl', fun j hj => ?_⟩
    rw [hg']
    split_ifs with hin hout
    · congr 1
      omega
    · omega
    · omega
    · rfl
  · obtain ⟨b', h', hl', hg'⟩ := store_getElem? b (l.pos + n) [0] (by simp; omega)
    refine ⟨b', h', hl', fun j hj => ?_⟩
    rw [hg', if_neg (by simp; omega), if_neg (by omega)]

/-- The bytes of the buffer once there is room for what is inserted. -/
theorem insert_getElem? {mem : Memory} {b c : List Byte} (hpos : l.pos ≤ l.len)
    (hext : l.extend mem (c.length + 1) = (true, { l with buf := some b })) (hroom : l.len + (c.length + 1) ≤ b.length) :
    ∃ b', l.insert mem c = some (true, { l with
        buf := some b', len := l.len + c.length, pos := l.pos + c.length, updatePos := min l.updatePos l.pos }) ∧
      b'.length = b.length ∧ b'[l.len + c.length]? = some 0 ∧
      ∀ j < l.len + c.length, b'[j]? =
        if l.pos ≤ j ∧ j < l.pos + c.length then (c)[j - l.pos]? else if l.pos + c.length ≤ j then b[j - c.length]? else b[j]? := by
  obtain ⟨b₁, h₁, hl₁, hg₁⟩ := moveTail_spec hpos hroom
  obtain ⟨b₂, h₂, hl₂, hg₂⟩ := store_getElem? b₁ l.pos c (by omega)
  obtain ⟨b₃, h₃, hl₃, hg₃⟩ := store_getElem? b₂ (l.len + c.length) [0] (by simp; omega)
  have h₁' : ({ l with buf := some b } : Line).moveTail b c.length = some b₁ := h₁
  refine ⟨b₃, by simp [insert, hext, h₁', h₂, h₃], by omega, ?_, fun j hj => ?_⟩
  · rw [hg₃, if_pos (by simp)]
    simp
  · rw [hg₃, if_neg (by simp; omega), hg₂, hg₁ j hj]

theorem insert_spec (mem : Memory) (h : l.Sound) {c : List Byte} (hc : KEY_ESC ∉ c) :
    ∃ r l', l.insert mem c = some (r, l') ∧ l'.Sound := by
  obtain hext | ⟨b, hext, hroom, hsame⟩ := l.extend_spec mem h.bufsize (c.length + 1)
  · exact ⟨false, l, by simp [insert, hext], h⟩
  have hpos := h.pos
  have hupdate := h.update
  have hold : ∀ j < l.len, b[j]? ≠ some KEY_ESC := by
    intro j hj
    obtain ⟨b₀, hb₀, ht⟩ := h.buf_of_pos (by omega)
    rw [hsame j (Nat.lt_of_lt_of_le hj h.bufsize), hb₀]
    exact ht.esc j hj
  obtain ⟨b', hrun, hlen', hnul, hget⟩ := insert_getElem? hpos hext hroom
  refine ⟨true, _, hrun, ⟨by simp; omega, by simp; omega, nofun, ?_⟩⟩
  rintro _ ⟨⟩
  refine ⟨by simp; omega, hnul, fun j hj => ?_⟩
  rw [hget j hj]
  split_ifs with hin hmoved
  · intro heq
    exact hc (List.mem_of_getElem? heq)
  · exact hold _ (by have : j < l.len + c.length := hj; omega)
  · exact hold _ (by have : j < l.len + c.length := hj; omega)

/-- Behind the text there must be as many bytes as are deleted. -/
theorem delete_spec (h : l.Sound) {b : List Byte} (hb : l.buf = some b) {n : Nat} (hroom : l.len + min n (l.len - l.pos) < b.length) :
    ∃ l', l.delete n = some l' ∧ l'.Sound := by
  have hpos := h.pos
  have hupdate := h.update
  have ht := h.text b hb
  have hmin : min n (l.len - l.pos) ≤ l.len - l.pos := Nat.min_le_right _ _
  generalize hk : min n (l.len - l.pos) = k at hroom hmin
  obtain ⟨b', h', hl', hg'⟩ := memmove_getElem? b l.pos (l.pos + k) (l.len - l.pos + 1) (by omega) (by omega)
  have hrun : l.delete n = some { l with buf := some b', len := l.len - k, updatePos := min l.updatePos l.pos } := by
    simp [delete, hb, hk, h']
  refine ⟨_, hrun, ⟨by simp; omega, by simp; omega, nofun, ?_⟩⟩
  rintro _ ⟨⟩
  have hshift : ∀ j ≤ l.len - k, b'[j]? = if l.pos ≤ j then b[j + k]? else b[j]? := by
    intro j hj
    rw [hg']
    split_ifs with hin hout
    · congr 1
      omega
    · omega
    · omega
    · rfl
  refine ⟨by simp; omega, ?_, fun j hj => ?_⟩
  · have hend : l.len - k + k = l.len := by omega
    rw [hshift _ (Nat.le_refl _), if_pos (by omega), hend]
    exact ht.nul
  · have hj' : j < l.len - k := hj
    rw [hshift j (by omega)]
    split_ifs
    · exact ht.esc _ (by omega)
    · exact ht.esc _ (by omega)

theorem reset_spec (h : l.Sound) (hb : l.buf ≠ none) : ∃ l', l.reset = some l' ∧ l'.Sound := by
  obtain ⟨b, hb⟩ := Option.ne_none_iff_exists'.mp hb
  have hlt := (h.text b hb).lt
  obtain ⟨b', h', hl', hg'⟩ := store_getElem? b 0 [0] (by simp; omega)
  have hrun : l.reset = some { l with buf := some b', pos := 0, len := 0, updatePos := 0 } := by simp [reset, hb, h']
  refine ⟨_, hrun, ⟨Nat.le_refl _, Nat.le_refl _, nofun, ?_⟩⟩
  rintro _ ⟨⟩
  exact ⟨by simp; omega, by rw [hg']; simp, fun j hj => absurd hj (Nat.not_lt_zero _)⟩

/-! ### Moving the cursor -/

/-- Only the cursor moves, within the text. -/
theorem Sound.move (h : l.Sound) {pos : Nat} (hpos : pos ≤ l.len) : ({ l with pos } : Line).Sound :=
  ⟨hpos, h.update, h.empty, h.text⟩

/-- Up to the NUL everything can be read. -/
theorem Sound.read (h : l.Sound) {b : List Byte} (hb : l.buf = some b) {i : Nat} (hi : i ≤ l.len) : ∃ c, l.read i = some c := by
  have hlt := (h.text b hb).lt
  exact ⟨b[i], by simp [Line.read, hb, List.getElem?_eq_getElem (show i < b.length by omega)]⟩

section
variable (h : l.Sound) {b : List Byte} (hb : l.buf = some b)
include h hb

theorem utf8MoveLeft_spec {pos : Nat} (hpos : pos ≤ l.len) : ∃ q, l.utf8MoveLeft pos = some q ∧ q ≤ pos - 1 := by
  induction pos with
  | zero => exact ⟨0, rfl, Nat.le_refl _⟩
  | succ p ih =>
    unfold utf8MoveLeft
    split_ifs with hp
    · exact ⟨0, rfl, Nat.zero_le _⟩
    · obtain ⟨c, hc⟩ := h.read hb (i := p) (by omega)
      obtain ⟨q, hq, hle⟩ := ih (by omega)
      by_cases hcont : isUtf8Cont c
      · exact ⟨q, by simp [hc, hcont, hq], by omega⟩
      · exact ⟨p, by simp [hc, hcont], by omega⟩

theorem utf8MoveRight_spec (left pos : Nat) (hpos : pos + left = l.len) : ∃ q, l.utf8MoveRight left pos = some q ∧ q ≤ l.len := by
  induction left generalizing pos with
  | zero => exact ⟨pos, rfl, by omega⟩
  | succ n ih =>
    unfold utf8MoveRight
    split_ifs with hn
    · exact ⟨pos + 1, rfl, by omega⟩
    · obtain ⟨c, hc⟩ := h.read hb (i := pos + 1) (by omega)
      obtain ⟨q, hq, hle⟩ := ih (pos + 1) (by omega)
      by_cases hcont : isUtf8Cont c
      · exact ⟨q, by simp [hc, hcont, hq], hle⟩
      · exact ⟨pos + 1, by simp [hc, hcont], by omega⟩

theorem skipLeft_spec (spaces : Bool) (pos : Nat) (hpos : pos ≤ l.len) : ∃ q, l.skipLeft spaces pos = some q ∧ q ≤ pos := by
  induction pos with
  | zero => exact ⟨0, rfl, Nat.le_refl _⟩
  | succ p ih =>
    obtain ⟨c, hc⟩ := h.read hb hpos
    obtain ⟨q, hq, hle⟩ := ih (by omega)
    by_cases hs : isspaceByte c = spaces
    · exact ⟨q, by simp [skipLeft, hc, hs, hq], by omega⟩
    · exact ⟨p + 1, by simp [skipLeft, hc, hs], Nat.le_refl _⟩

theorem skipRight_spec (spaces : Bool) (left pos : Nat) (hpos : pos + left = l.len) :
    ∃ q, l.skipRight spaces left pos = some q ∧ pos ≤ q ∧ q ≤ l.len := by
  induction left generalizing pos with
  | zero =>
    obtain ⟨c, hc⟩ := h.read hb (i := pos) (by omega)
    exact ⟨pos, by simp [skipRight, hc], Nat.le_refl _, by omega⟩
  | succ n ih =>
    obtain ⟨c, hc⟩ := h.read hb (i := pos) (by omega)
    obtain ⟨q, hq, hge, hle⟩ := ih (pos + 1) (by omega)
    by_cases hs : isspaceByte c = spaces
    · exact ⟨q, by simp [skipRight, hc, hs, hq], by omega, hle⟩
    · exact ⟨pos, by simp [skipRight, hc, hs], Nat.le_refl _, by omega⟩

end

theorem moveLeft_spec (utf8 : Bool) (h : l.Sound) :
    l.moveLeft utf8 = some (false, l) ∨ ∃ pos < l.len, l.moveLeft utf8 = some (true, { l with pos }) := by
  have hpos := h.pos
  unfold moveLeft
  split_ifs with h0 hutf
  · exact Or.inl rfl
  · obtain ⟨b, hb, -⟩ := h.buf_of_pos (by omega)
    obtain ⟨q, hq, hle⟩ := utf8MoveLeft_spec h hb hpos
    exact Or.inr ⟨q, by omega, by simp [hq]⟩
  · exact Or.inr ⟨l.pos - 1, by omega, rfl⟩

theorem moveWordLeft_spec (utf8 : Bool) (h : l.Sound) : ∃ r l', l.moveWordLeft utf8 = some (r, l') ∧ l'.Sound := by
  obtain hstay | ⟨pos, hlt, hmove⟩ := moveLeft_spec utf8 h
  · exact ⟨false, l, by simp [moveWordLeft, hstay], h⟩
  obtain ⟨b, hb, -⟩ := h.buf_of_pos (by omega)
  have h' : ({ l with pos } : Line).Sound := h.move (Nat.le_of_lt hlt)
  obtain ⟨p, hp, hple⟩ := skipLeft_spec h' hb true pos (Nat.le_of_lt hlt)
  obtain ⟨q, hq, hqle⟩ := skipLeft_spec h' hb false p (by simp; omega)
  obtain ⟨c, hc⟩ := h'.read hb (i := q) (by simp; omega)
  have hrun : l.moveWordLeft utf8 = some (true, { l with pos := if isspaceByte c then q + 1 else q }) := by
    simp [moveWordLeft, hmove, hp, hq, hc]
  refine ⟨true, _, hrun, h.move ?_⟩
  split_ifs <;> omega

theorem moveRight_spec (utf8 : Bool) (h : l.Sound) : ∃ r l', l.moveRight utf8 = some (r, l') ∧ l'.Sound := by
  have hpos := h.pos
  unfold moveRight
  split_ifs with h0 hutf
  · exact ⟨false, l, rfl, h⟩
  · obtain ⟨b, hb, -⟩ := h.buf_of_pos (by omega)
    obtain ⟨q, hq, hle⟩ := utf8MoveRight_spec h hb (l.len - l.pos) l.pos (by omega)
    exact ⟨true, { l with pos := q }, by simp [hq], h.move hle⟩
  · exact ⟨true, _, rfl, h.move (by omega)⟩

theorem moveWordRight_spec (h : l.Sound) : ∃ r l', l.moveWordRight = some (r, l') ∧ l'.Sound := by
  have hpos := h.pos
  unfold moveWordRight
  split_ifs with h0
  · exact ⟨false, l, rfl, h⟩
  · obtain ⟨b, hb, -⟩ := h.buf_of_pos (by omega)
    obtain ⟨p, hp, -, hple⟩ := skipRight_spec h hb false (l.len - l.pos) l.pos (by omega)
    obtain ⟨q, hq, -, hqle⟩ := skipRight_spec h hb true (l.len - p) p (by omega)
    exact ⟨true, { l with pos := q }, by simp [hp, hq], h.move hqle⟩

theorem symbolLength_spec (utf8 : Bool) (h : l.Sound) (hne : l.pos ≠ l.len) : ∃ n, l.symbolLength utf8 = some n := by
  have hpos := h.pos
  unfold symbolLength
  split_ifs with hutf
  · obtain ⟨b, hb, -⟩ := h.buf_of_pos (by omega)
    obtain ⟨q, hq, -⟩ := utf8MoveRight_spec h hb (l.len - l.pos) l.pos (by omega)
    exact ⟨q - l.pos, by simp [hq]⟩
  · exact ⟨1, rfl⟩

/-! ### Setting the line -/

theorem commonPrefix_spec {b : List Byte} (hb : l.buf = some b) {prevLen : Nat} (hle : prevLen ≤ b.length) (i : Nat) (str : List Byte) :
    ∃ q, l.commonPrefix prevLen i str = some q ∧ q ≤ i + str.length := by
  induction str generalizing i with
  | nil => exact ⟨i, rfl, Nat.le_refl _⟩
  | cons c str ih =>
    unfold commonPrefix
    split_ifs with hi
    · exact ⟨i, rfl, Nat.le_add_right _ _⟩
    · have hread : l.read i = some b[i] := by simp [Line.read, hb, List.getElem?_eq_getElem (show i < b.length by omega)]
      obtain ⟨q, hq, hqle⟩ := ih (i + 1)
      by_cases heq : b[i] = c
      · exact ⟨q, by simp [hread, heq, hq], by rw [List.length_cons]; omega⟩
      · exact ⟨i, by simp [hread, heq], Nat.le_add_right _ _⟩

theorem symbolStart_le (str : List Byte) (i : Nat) : symbolStart str i ≤ i := by
  induction i with
  | zero => exact Nat.le_refl _
  | succ i ih =>
    unfold symbolStart
    split_ifs <;> omega

/-- The text that is set has no NUL of its own: the buffer must have one behind it already. -/
theorem setLine_spec (utf8 : Bool) (mem : Memory) (h : l.Sound) {b str : List Byte} (hb : l.buf = some b)
    (hnul : b[str.length]? = some 0) (hesc : KEY_ESC ∉ str) : ∃ l', l.setLine utf8 mem str = some l' ∧ l'.Sound := by
  have hlt : str.length < b.length := (List.getElem?_eq_some_iff.mp hnul).1
  have hext : ({ l with len := 0 } : Line).extend mem str.length = (true, { l with len := 0 }) := by
    rw [extend, if_pos]
    simp only [hb, Line.bufsize]
    exact ⟨rfl, hlt⟩
  obtain ⟨q, hq, hqle⟩ := commonPrefix_spec (l := { l with len := 0 }) hb (Nat.le_of_lt (h.text b hb).lt) 0 str
  obtain ⟨b', h', hl', hg'⟩ := store_getElem? b 0 str (by omega)
  have hbuf : ({ l with len := 0 } : Line).copyText str = some (some b') := by
    unfold copyText
    split_ifs with hnil
    · rw [hnil] at h'
      dsimp only
      rw [hb]
      exact congrArg some h'
    · dsimp only
      rw [hb, Option.bind_some, h', Option.map_some]
  generalize hi : (if q > l.len then q - 1 else q) = i at *
  have hile : i ≤ str.length := by
    rw [← hi]
    split_ifs <;> omega
  have hrun : l.setLine utf8 mem str = some { l with
      buf := some b', updatePos := if utf8 then symbolStart str i else i, len := str.length, pos := min l.pos str.length } := by
    simp [setLine, hext, hq, hbuf, hi]
  refine ⟨_, hrun, ⟨Nat.min_le_right _ _, ?_, nofun, ?_⟩⟩
  · have := symbolStart_le str i
    dsimp only
    split_ifs <;> omega
  · rintro _ ⟨⟩
    refine ⟨by simp; omega, ?_, fun j hj => ?_⟩
    · rw [hg', if_neg (by simp)]
      exact hnul
    · have hj' : j < str.length := hj
      rw [hg', if_pos (by omega)]
      exact fun heq => hesc (List.mem_of_getElem? heq)

/-! ### Showing the line -/

theorem addStringLine_spec {b : List Byte} (start n : Nat) (hle : start + n ≤ b.length)
    (hesc : ∀ j < start + n, b[j]? ≠ some KEY_ESC) (fuel : Nat) : addStringLine b (fuel + 1) start n = some () := by
  have hnone : ¬((b.drop start).take n).findIdx (· = KEY_ESC) < ((b.drop start).take n).length := by
    rw [List.findIdx_lt_length]
    rintro ⟨c, hc, heq⟩
    obtain ⟨j, hj, hget⟩ := List.getElem_of_mem hc
    have hjn : j < n := by
      rw [List.length_take] at hj
      omega
    refine hesc (start + j) (by omega) ?_
    rw [← List.getElem?_drop, ← List.getElem?_take_of_lt hjn, List.getElem?_eq_getElem hj, hget]
    simpa using heq
  rw [addStringLine, if_neg hnone, if_pos hle]

theorem addString_spec {b : List Byte} {len : Nat} (hlen : len ≤ b.length) (hesc : ∀ j < len, b[j]? ≠ some KEY_ESC)
    (start n : Nat) (hle : start + n ≤ len) : addString b start n = some () := by
  induction n using Nat.strongRecOn generalizing start with
  | _ n ih =>
    have htake : ((b.drop start).take n).length ≤ n := List.length_take_le _ _
    rw [addString]
    generalize ((b.drop start).take n).findIdx (fun x => decide (x = 10)) = i
    split_ifs with hi hi0 hout hn0
    · have hpiece := addStringLine_spec start i (by omega) (fun j hj => hesc j (by omega)) b.length
      simp [hpiece, ih (n - (i + 1)) (by omega) (start + i + 1) (by omega)]
    · simp [ih (n - (i + 1)) (by omega) (start + i + 1) (by omega)]
    · omega
    · rfl
    · exact addStringLine_spec start n (by omega) (fun j hj => hesc j (by omega)) _

/-- A part of the text is shown. -/
theorem addBuf_spec (h : l.Sound) (start n : Nat) (hle : start + n ≤ l.len) : l.addBuf start n = some () := by
  unfold addBuf
  split_ifs with hn
  · rfl
  · obtain ⟨b, hb, ht⟩ := h.buf_of_pos (by omega)
    rw [hb, Option.bind_some, addString_spec (Nat.le_of_lt ht.lt) ht.esc start n hle]

theorem displayUpdateLine_spec (fullUpdate : Bool) (h : l.Sound) :
    l.displayUpdateLine fullUpdate = some { l with updatePos := l.len } := by
  have hupdate := h.update
  generalize hu : (if fullUpdate then 0 else l.updatePos) = u
  have hule : u ≤ l.len := by
    rw [← hu]
    split_ifs <;> omega
  have hprefix := addBuf_spec h 0 u (by omega)
  have hrest := addBuf_spec h u (l.len - u) (by omega)
  by_cases hlt : u < l.len
  · obtain ⟨b, hb, ht⟩ := h.buf_of_pos (by omega)
    have hblt := ht.lt
    obtain ⟨bytes, hload, -, -⟩ := load_getElem? (b := b) (i := u) (n := l.len - u) (by omega)
    simp [displayUpdateLine, hu, hprefix, hlt, hb, hload, hrest]
  · simp [displayUpdateLine, hu, hprefix, hlt]

end Line
end RainWrt.Uline
