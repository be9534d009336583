import RainWrt.Theorems.Uline.Words
import RainWrt.Uline.Editor

/-! The line buffer by symbols instead of bytes: where the cursor goes, and what is inserted and deleted there. -/

namespace RainWrt.Uline

/-! ### Symbols -/

/-- The bytes of a character that is typed: a first one and as many as it announces. -/
structure Symbol where
  lead : Byte
  rest : List Byte
  plain : 32 ≤ lead ∧ lead ≠ 127
  start : isUtf8Cont lead = false
  cont : ∀ c ∈ rest, isUtf8Cont c = true
  count : rest.length = if lead &&& 0xc0 = 0xc0 then Ed.contBytes lead else 0

namespace Symbol

def bytes (s : Symbol) : List Byte := s.lead :: s.rest

/-- The symbol is a blank. -/
def blank (s : Symbol) : Bool := isspaceByte s.lead

theorem bytes_pos (s : Symbol) : 0 < s.bytes.length := Nat.succ_pos _

theorem cont_bounds : ∀ n < 256, isUtf8Cont (.ofNat n) = true → 128 ≤ n := by
  decide +kernel

theorem cont_ge {c : Byte} (h : isUtf8Cont c = true) : 128 ≤ c.toNat :=
  cont_bounds c.toNat c.toNat_lt (by rwa [UInt8.ofNat_toNat])

/-- No byte of a symbol is a control character. -/
theorem printable (s : Symbol) : ∀ c ∈ s.bytes, 32 ≤ c ∧ c ≠ 127 := by
  intro c hc
  obtain rfl | hc := List.mem_cons.mp hc
  · exact s.plain
  · have hge := cont_ge (s.cont c hc)
    refine ⟨UInt8.le_iff_toNat_le.mpr (Nat.le_trans (by decide) hge), fun h => ?_⟩
    subst h
    exact absurd hge (by decide)

theorem not_space_of_ge {c : Byte} (hge : 128 ≤ c.toNat) : isspaceByte c = false := by
  have h32 : c ≠ 32 := by
    rintro rfl
    exact absurd hge (by decide)
  have h13 : ¬c ≤ 13 := fun hle => absurd (Nat.le_trans hge (UInt8.le_iff_toNat_le.mp hle)) (by decide)
  simp [isspaceByte, h32, h13]

/-- All bytes of a symbol are blanks or none is. -/
theorem space_eq (s : Symbol) : ∀ c ∈ s.bytes, isspaceByte c = s.blank := by
  intro c hc
  obtain rfl | hc := List.mem_cons.mp hc
  · rfl
  · rw [not_space_of_ge (cont_ge (s.cont c hc))]
    have hne : s.rest.length ≠ 0 := Nat.ne_of_gt (List.length_pos_of_mem hc)
    have hlead : s.lead &&& 0xc0 = 0xc0 := by
      rw [s.count] at hne
      by_contra h
      exact hne (if_neg h)
    have hhigh : ∀ n < 256, UInt8.ofNat n &&& 0xc0 = 0xc0 → 128 ≤ n := by decide +kernel
    exact (not_space_of_ge (hhigh _ s.lead.toNat_lt (by rwa [UInt8.ofNat_toNat]))).symm

end Symbol

/-- The bytes of several symbols. -/
def bytesOf (ss : List Symbol) : List Byte := ss.flatMap Symbol.bytes

@[simp] theorem bytesOf_nil : bytesOf [] = [] := rfl

@[simp] theorem bytesOf_cons (s : Symbol) (ss : List Symbol) : bytesOf (s :: ss) = s.bytes ++ bytesOf ss := rfl

@[simp] theorem bytesOf_append (ss ts : List Symbol) : bytesOf (ss ++ ts) = bytesOf ss ++ bytesOf ts := List.flatMap_append

/-- A symbol starts with no byte that goes on with one. -/
theorem start_bytesOf {ss : List Symbol} {c : Byte} {rest : List Byte} (h : bytesOf ss = c :: rest) : isUtf8Cont c = false := by
  cases ss with
  | nil => cases h
  | cons s ss =>
    rw [bytesOf_cons, Symbol.bytes, List.cons_append] at h
    cases h
    exact s.start

namespace Line
variable {l : Line} {a b : List Byte}

/-- The text is `a` before the cursor and `b` from there on. -/
structure Reads (a b : List Byte) (l : Line) : Prop where
  sound : l.Sound
  text : l.text = a ++ b
  pos : l.pos = a.length

namespace Reads

theorem len (h : Reads a b l) : l.len = a.length + b.length := by
  rw [← h.sound.held.length_text, h.text, List.length_append]

theorem buf (h : Reads a b l) (hne : a ++ b ≠ []) : l.buf ≠ none := by
  intro hnone
  have h0 := h.sound.empty hnone
  rw [h.len] at h0
  exact hne (List.eq_nil_of_length_eq_zero (by rw [List.length_append]; exact h0))

theorem read (h : Reads a b l) {i : Nat} {c : Byte} (hc : (a ++ b)[i]? = some c) : l.read i = some c := by
  obtain ⟨hlt, -⟩ := List.getElem?_eq_some_iff.mp hc
  have hne : a ++ b ≠ [] := by
    intro hnil
    rw [hnil] at hlt
    exact absurd hlt (Nat.not_lt_zero _)
  rw [read_text (by rw [h.len, ← List.length_append]; exact hlt) (h.buf hne), h.text, hc]

/-- Only the cursor moves. -/
theorem move (h : Reads a b l) (a' b' : List Byte) (heq : a ++ b = a' ++ b') : Reads a' b' { l with pos := a'.length } := by
  have hlen := congrArg List.length heq
  rw [List.length_append, List.length_append, ← h.len] at hlen
  exact ⟨h.sound.move (by omega), h.text.trans heq, rfl⟩

/-! ### Inserting and deleting -/

/-- What is typed goes in front of the cursor. -/
theorem insert (h : Reads a b l) {mem : Memory} (hmem : mem.fails = false) {c : List Byte} (hc : KEY_ESC ∉ c) :
    ∃ l', l.insert mem c = some (true, l') ∧ Reads (a ++ c) b l' := by
  have hlen := h.len
  have hpos := h.pos
  obtain hext | ⟨buf, hext, hroom, hsame⟩ := l.extend_spec mem h.sound.bufsize (c.length + 1)
  · have hroom : (l.extend mem (c.length + 1)).1 = true := by
      simp only [Line.extend, hmem, Bool.false_eq_true, if_false]
      split_ifs
      · rfl
      · rfl
    rw [hext] at hroom
    cases hroom
  obtain ⟨buf', hrun, hsize, -, hget⟩ := insert_getElem? h.sound.pos hext hroom
  obtain ⟨r, l', hrun', hsound⟩ := insert_spec mem h.sound hc
  rw [hrun] at hrun'
  cases hrun'
  refine ⟨_, hrun, hsound, ?_, by simp [hpos]⟩
  have hold : ∀ j < l.len, buf[j]? = (a ++ b)[j]? := by
    intro j hj
    rw [hsame j (Nat.lt_of_lt_of_le hj h.sound.bufsize), ← h.text, Line.text, List.getElem?_take_of_lt hj]
  refine List.ext_getElem? fun j => ?_
  rw [Line.text, Option.getD_some]
  dsimp only
  by_cases hj : j < l.len + c.length
  · rw [List.getElem?_take_of_lt hj, hget j hj, List.append_assoc]
    split_ifs with hin hmoved
    · rw [List.getElem?_append_right (by omega), List.getElem?_append_left (by omega), hpos]
    · rw [hold _ (by omega), List.getElem?_append_right (by omega), List.getElem?_append_right (by omega), List.getElem?_append_right (by omega)]
      congr 1
      omega
    · rw [hold _ (by omega), List.getElem?_append_left (by omega), List.getElem?_append_left (by omega)]
  · rw [List.getElem?_eq_none (by rw [List.length_take]; omega), List.getElem?_eq_none]
    simp only [List.length_append]
    omega

theorem delete (h : Reads a (c ++ b) l) (hroom : l.len + c.length < l.bufsize) :
    ∃ l', l.delete c.length = some l' ∧ Reads a b l' := by
  have hlen := h.len
  rw [List.length_append] at hlen
  have hpos := h.pos
  obtain ⟨b', hdel, hsize, htake⟩ := delete_eq h.sound.held (n := c.length) (by omega) hroom
  obtain ⟨b₀, hb₀⟩ : ∃ b₀, l.buf = some b₀ := by
    refine Option.ne_none_iff_exists'.mp fun hnone => ?_
    simp only [Line.bufsize, hnone, Option.getD_none, List.length_nil] at hroom
    omega
  have hbufsize : l.bufsize = b₀.length := by rw [Line.bufsize, hb₀, Option.getD_some]
  have hmin : min c.length (l.len - l.pos) = c.length := Nat.min_eq_left (by omega)
  obtain ⟨l', hdel', hsound⟩ := delete_spec h.sound hb₀ (n := c.length) (by rw [hmin, ← hbufsize]; exact hroom)
  rw [hdel'] at hdel
  cases hdel
  refine ⟨_, hdel', hsound, ?_, hpos⟩
  rw [Line.text, Option.getD_some]
  rw [htake, h.text, hpos, List.take_left, ← List.append_assoc, ← List.length_append, List.drop_left]

/-! ### Moving by a symbol -/

/-- The byte behind what is read. -/
theorem read_at (h : Reads a b l) {p : List Byte} {c : Byte} {q : List Byte} (heq : a ++ b = p ++ c :: q) : l.read p.length = some c :=
  h.read (by rw [heq, List.getElem?_append_right (Nat.le_refl _), Nat.sub_self]; rfl)

theorem utf8MoveLeft_over (h : Reads a b l) {p : List Byte} {lead : Byte} (hlead : isUtf8Cont lead = false) (rest q : List Byte)
    (hrest : ∀ c ∈ rest, isUtf8Cont c = true) (heq : a ++ b = p ++ lead :: (rest ++ q)) :
    l.utf8MoveLeft (p.length + 1 + rest.length) = some p.length := by
  induction rest using List.reverseRecOn generalizing q with
  | nil =>
    rw [List.length_nil, Nat.add_zero, utf8MoveLeft]
    split_ifs with h0
    · rw [h0]
    · simp [h.read_at heq, hlead]
  | append_singleton rest c ih =>
    have hread : l.read (p.length + 1 + rest.length) = some c := by
      have hat := h.read_at (p := p ++ lead :: rest) (c := c) (q := q) (by rw [heq]; simp)
      rw [List.length_append, List.length_cons] at hat
      rwa [Nat.add_right_comm, Nat.add_assoc]
    rw [List.length_append, List.length_singleton, ← Nat.add_assoc, utf8MoveLeft, if_neg (by omega), hread]
    simp only [Option.bind_eq_bind, Option.bind_some, hrest c (by simp), if_true]
    exact ih (c :: q) (fun d hd => hrest d (List.mem_append_left _ hd)) (by rw [heq]; simp)

theorem utf8MoveRight_over (h : Reads a b l) {q : List Byte} (hq : ∀ c, q.head? = some c → isUtf8Cont c = false) (rest : List Byte)
    (hrest : ∀ c ∈ rest, isUtf8Cont c = true) (p : List Byte) (lead : Byte) (heq : a ++ b = p ++ lead :: (rest ++ q)) :
    l.utf8MoveRight (1 + rest.length + q.length) p.length = some (p.length + 1 + rest.length) := by
  induction rest generalizing p lead with
  | nil =>
    rw [List.length_nil, Nat.add_zero, Nat.add_comm 1, utf8MoveRight]
    split_ifs with h0
    · rfl
    · obtain ⟨c, q', rfl⟩ := List.exists_cons_of_ne_nil (l := q) (fun hnil => h0 (by rw [hnil]; rfl))
      have hread := h.read_at (p := p ++ [lead]) (c := c) (q := q') (by rw [heq]; simp)
      rw [List.length_append, List.length_singleton] at hread
      simp [hread, hq c rfl]
  | cons c rest ih =>
    have hread := h.read_at (p := p ++ [lead]) (c := c) (q := rest ++ q) (by rw [heq]; simp)
    rw [List.length_append, List.length_singleton] at hread
    have hnext := ih (fun d hd => hrest d (List.mem_cons_of_mem _ hd)) (p ++ [lead]) c (by rw [heq]; simp)
    rw [List.length_append, List.length_singleton] at hnext
    have hleft : 1 + (c :: rest).length + q.length = (1 + rest.length + q.length) + 1 := by
      rw [List.length_cons]
      omega
    rw [hleft, utf8MoveRight, if_neg (by omega), hread]
    simp only [Option.bind_eq_bind, Option.bind_some, hrest c (by simp), if_true]
    rw [hnext, List.length_cons, Nat.add_assoc (p.length + 1), Nat.add_comm 1]

variable {s : Symbol} {ss : List Symbol}

/-- `move_left` goes to the start of the symbol before the cursor. -/
theorem moveLeft (h : Reads (a ++ s.bytes) b l) : l.moveLeft true = some (true, { l with pos := a.length }) := by
  have hpos := h.pos
  rw [List.length_append, Symbol.bytes, List.length_cons] at hpos
  have hleft := h.utf8MoveLeft_over (p := a) s.start s.rest b s.cont (by simp [Symbol.bytes])
  rw [Line.moveLeft, if_neg (by omega), if_pos rfl, show l.pos = a.length + 1 + s.rest.length by omega, hleft]
  rfl

theorem utf8MoveRight (h : Reads a (bytesOf (s :: ss)) l) : l.utf8MoveRight (l.len - l.pos) l.pos = some (a.length + s.bytes.length) := by
  have hlen := h.len
  have hpos := h.pos
  rw [bytesOf_cons, Symbol.bytes, List.length_append, List.length_cons] at hlen
  have hstart : ∀ c, (bytesOf ss).head? = some c → isUtf8Cont c = false := by
    intro c hc
    obtain ⟨rest, hrest⟩ := List.head?_eq_some_iff.mp hc
    exact start_bytesOf hrest
  have hright := h.utf8MoveRight_over hstart s.rest s.cont a s.lead (by simp [Symbol.bytes])
  have hleft : l.len - l.pos = 1 + s.rest.length + (bytesOf ss).length := by omega
  rw [hleft, hpos, hright, Symbol.bytes, List.length_cons, Nat.add_assoc, Nat.add_comm 1]

/-- `move_right` goes behind the symbol at the cursor. -/
theorem moveRight (h : Reads a (bytesOf (s :: ss)) l) : l.moveRight true = some (true, { l with pos := (a ++ s.bytes).length }) := by
  have hlen := h.len
  have hpos := h.pos
  have hright := h.utf8MoveRight
  rw [bytesOf_cons, List.length_append] at hlen
  have hs := s.bytes_pos
  rw [Line.moveRight, if_neg (by omega), if_pos rfl, hright, List.length_append]
  rfl

theorem symbolLength (h : Reads a (bytesOf (s :: ss)) l) : l.symbolLength true = some s.bytes.length := by
  have hpos := h.pos
  rw [Line.symbolLength, if_pos rfl, h.utf8MoveRight, hpos]
  simp

/-! ### Moving by a word -/

/-- Going left byte by byte drops bytes from the end of what is before the cursor, but never the first one. -/
theorem skipLeft (h : Reads a b l) (spaces : Bool) {r q : List Byte} (hne : r ≠ []) (heq : a ++ b = r.reverse ++ q) :
    l.skipLeft spaces (r.length - 1) = some ((r.dropWhile fun d => isspaceByte d = spaces).length - 1) := by
  induction r generalizing q with
  | nil => exact absurd rfl hne
  | cons c r ih =>
    cases r with
    | nil =>
      rw [List.dropWhile_cons]
      split_ifs
      · rfl
      · rfl
    | cons d r =>
      have hread := h.read_at (p := (d :: r).reverse) (c := c) (q := q) (by rw [heq]; simp)
      rw [List.length_reverse] at hread
      rw [List.length_cons, Nat.add_sub_cancel, List.length_cons, Line.skipLeft, ← List.length_cons (a := d), hread]
      simp only [Option.bind_eq_bind, Option.bind_some]
      by_cases hc : isspaceByte c = spaces
      · rw [if_pos hc, List.dropWhile_cons_of_pos (by simpa using hc), ← ih (q := c :: q) (by simp) (by rw [heq]; simp), List.length_cons,
          Nat.add_sub_cancel]
      · rw [if_neg hc, List.dropWhile_cons_of_neg (by simpa using hc)]
        rfl

/-- Behind a word the cursor is on the blank before it, or on its first byte at the start of the line. -/
theorem word_start (h : Reads a b l) {r q : List Byte} (hne : r ≠ []) (heq : a ++ b = r.reverse ++ q) :
    ∃ c, l.read ((r.dropWhile fun d => isspaceByte d = false).length - 1) = some c ∧
      (if isspaceByte c then (r.dropWhile fun d => isspaceByte d = false).length - 1 + 1
        else (r.dropWhile fun d => isspaceByte d = false).length - 1) = (r.dropWhile fun d => isspaceByte d = false).length := by
  have hsuffix := List.dropWhile_suffix (l := r) fun d => isspaceByte d = false
  have hhead := List.head?_dropWhile_not (fun d => isspaceByte d = false) r
  generalize hw : (r.dropWhile fun d => isspaceByte d = false) = w at hsuffix hhead ⊢
  cases w with
  | nil =>
    obtain ⟨c, r', hr⟩ := List.exists_cons_of_ne_nil (l := r.reverse) (by simpa using hne)
    have hmem : c ∈ r := List.mem_reverse.mp (by rw [hr]; exact List.mem_cons_self)
    have hc := List.dropWhile_eq_nil_iff.mp hw c hmem
    refine ⟨c, h.read_at (p := []) (q := r' ++ q) (by rw [heq, hr]; rfl), ?_⟩
    rw [if_neg (by simpa using hc)]
    rfl
  | cons d w =>
    obtain ⟨r', hr⟩ := hsuffix
    have hread := h.read_at (p := w.reverse) (c := d) (q := r'.reverse ++ q) (by rw [heq, ← hr]; simp)
    rw [List.length_reverse] at hread
    refine ⟨d, hread, ?_⟩
    rw [if_pos (by simpa using hhead)]
    rfl

end Reads
end Line

/-- Symbols are dropped as a whole, the one nearest to the cursor first. -/
theorem dropWhile_reverse_bytesOf (spaces : Bool) (ss : List Symbol) :
    (bytesOf ss.reverse).reverse.dropWhile (fun d => isspaceByte d = spaces) = (bytesOf (ss.dropWhile fun s => s.blank = spaces).reverse).reverse := by
  induction ss with
  | nil => rfl
  | cons s ss ih =>
    have hsplit : (bytesOf (s :: ss).reverse).reverse = s.bytes.reverse ++ (bytesOf ss.reverse).reverse := by
      rw [List.reverse_cons, bytesOf_append, bytesOf_cons, bytesOf_nil, List.append_nil, List.reverse_append]
    have hspace : ∀ c ∈ s.bytes.reverse, isspaceByte c = s.blank := fun c hc => s.space_eq c (List.mem_reverse.mp hc)
    by_cases hs : s.blank = spaces
    · rw [hsplit, List.dropWhile_append_of_pos (by simpa [← hs] using hspace), ih, List.dropWhile_cons_of_pos (by simpa using hs)]
    · obtain ⟨c, cs, hcs⟩ := List.exists_cons_of_ne_nil (l := s.bytes.reverse) (by simp [Symbol.bytes])
      have hc : isspaceByte c ≠ spaces := by
        rw [hspace c (by rw [hcs]; exact List.mem_cons_self)]
        exact hs
      rw [List.dropWhile_cons_of_neg (by simpa using hs), hsplit, hcs, List.cons_append, List.dropWhile_cons_of_neg (by simpa using hc)]

/-- What a word delete leaves before the cursor: blanks go first, then the word. -/
def beforeWord (left : List Symbol) : List Symbol := (left.dropWhile fun s => s.blank = true).dropWhile fun s => s.blank = false

theorem beforeWord_suffix (left : List Symbol) : beforeWord left <:+ left :=
  (List.dropWhile_suffix _).trans (List.dropWhile_suffix _)

/-- The same byte by byte, from the first byte of the last symbol on. -/
theorem exists_beforeWord {s : Symbol} {left : List Symbol} (hword : ∃ t ∈ s :: left, t.blank = false) :
    ∃ r, (s.lead :: (bytesOf left.reverse).reverse).dropWhile (fun d => isspaceByte d = true) = r ∧ r ≠ [] ∧
      r.dropWhile (fun d => isspaceByte d = false) = (bytesOf (beforeWord (s :: left)).reverse).reverse := by
  refine ⟨_, rfl, ?_⟩
  by_cases hs : isspaceByte s.lead = true
  · have hblank : s.blank = true := hs
    rw [List.dropWhile_cons_of_pos (by simpa using hs), dropWhile_reverse_bytesOf, dropWhile_reverse_bytesOf, beforeWord,
      List.dropWhile_cons_of_pos (by simpa using hblank)]
    refine ⟨fun hnil => ?_, rfl⟩
    obtain ⟨t, ht, hword⟩ := hword
    have hall : left.dropWhile (fun t => t.blank = true) = [] := by
      cases h : left.dropWhile fun t => t.blank = true with
      | nil => rfl
      | cons t ts =>
        rw [h] at hnil
        simp [Symbol.bytes] at hnil
    obtain rfl | ht := List.mem_cons.mp ht
    · rw [hblank] at hword
      cases hword
    · have := List.dropWhile_eq_nil_iff.mp hall t ht
      simp [hword] at this
  · have hblank : s.blank = false := Bool.eq_false_iff.mpr hs
    rw [List.dropWhile_cons_of_neg (by simpa using hs), List.dropWhile_cons_of_pos (by simpa using hs), dropWhile_reverse_bytesOf, beforeWord,
      List.dropWhile_cons_of_neg (by simp [hblank]), List.dropWhile_cons_of_pos (by simpa using hblank)]
    exact ⟨List.cons_ne_nil _ _, rfl⟩

/-- `move_word_left` goes to the start of the word, if there is one before the cursor. -/
theorem Line.Reads.moveWordLeft {l : Line} {b : List Byte} {s : Symbol} {left : List Symbol} (h : Reads (bytesOf (s :: left).reverse) b l)
    (hword : ∃ t ∈ s :: left, t.blank = false) :
    l.moveWordLeft true = some (true, { l with pos := (bytesOf (beforeWord (s :: left)).reverse).length }) := by
  have hcons : bytesOf (s :: left).reverse = bytesOf left.reverse ++ s.bytes := by simp
  have hmove := Reads.moveLeft (hcons ▸ h)
  have h₁ := h.move (bytesOf left.reverse) (s.bytes ++ b) (by rw [hcons, List.append_assoc])
  obtain ⟨r, hr, hne, hw⟩ := exists_beforeWord hword
  have heq : bytesOf left.reverse ++ (s.bytes ++ b) = (s.lead :: (bytesOf left.reverse).reverse).reverse ++ (s.rest ++ b) := by
    simp [Symbol.bytes]
  obtain ⟨d, hd⟩ := List.dropWhile_suffix (l := s.lead :: (bytesOf left.reverse).reverse) fun d => isspaceByte d = true
  rw [hr] at hd
  have heq' : bytesOf left.reverse ++ (s.bytes ++ b) = r.reverse ++ (d.reverse ++ (s.rest ++ b)) := by
    rw [heq, ← hd]
    simp
  have hskip := h₁.skipLeft true (List.cons_ne_nil _ _) heq
  have hskip' := h₁.skipLeft false hne heq'
  obtain ⟨c, hread, hstart⟩ := h₁.word_start hne heq'
  rw [hr, List.length_cons, List.length_reverse, Nat.add_sub_cancel] at hskip
  rw [hw, List.length_reverse] at hskip' hread hstart
  simp [Line.moveWordLeft, hmove, hskip, hskip', hread, hstart]

end RainWrt.Uline
