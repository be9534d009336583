import Mathlib

/-! Byte strings: little-endian words, the reflected CRC-32, overwriting at an offset and cutting into
    pieces of one size. Nothing here knows a driver; the table formats are built from these. -/

namespace RainWrt

abbrev Bytes := List UInt8

/-! ### Words -/

/-- The four bytes of a word, lowest first. -/
def le32 (w : UInt32) : Bytes :=
  [.ofNat (w.toNat % 256), .ofNat (w.toNat / 256 % 256), .ofNat (w.toNat / 65536 % 256), .ofNat (w.toNat / 16777216)]

def ofLe32 (a b c d : UInt8) : UInt32 :=
  .ofNat (a.toNat + 256 * b.toNat + 65536 * c.toNat + 16777216 * d.toNat)

/-- A byte string read as words; a rest of fewer than four bytes is dropped. -/
def words : Bytes → List UInt32
  | a :: b :: c :: d :: rest => ofLe32 a b c d :: words rest
  | _ => []

def unwords (ws : List UInt32) : Bytes := ws.flatMap le32

/-- The word at byte offset `off`. -/
def word (b : Bytes) (off : Nat) : UInt32 := ((words ((b.drop off).take 4)).head?).getD 0

@[simp] theorem length_le32 (w : UInt32) : (le32 w).length = 4 := rfl

@[simp] theorem length_unwords (ws : List UInt32) : (unwords ws).length = 4 * ws.length := by
  induction ws with
  | nil => rfl
  | cons w ws ih => simp only [unwords, List.flatMap_cons, List.length_append, length_le32, List.length_cons] at *; omega

theorem words_le32_append (w : UInt32) (rest : Bytes) : words (le32 w ++ rest) = w :: words rest := by
  have h := w.toNat_lt
  have hw : ofLe32 (.ofNat (w.toNat % 256)) (.ofNat (w.toNat / 256 % 256)) (.ofNat (w.toNat / 65536 % 256))
      (.ofNat (w.toNat / 16777216)) = w := by
    apply UInt32.toNat_inj.mp
    simp only [ofLe32, UInt8.toNat_ofNat', UInt32.toNat_ofNat']
    omega
  simp only [le32, List.cons_append, List.nil_append, words, hw]

@[simp] theorem words_unwords (ws : List UInt32) : words (unwords ws) = ws := by
  induction ws with
  | nil => rfl
  | cons w ws ih => simpa [unwords, List.flatMap_cons, words_le32_append] using ih

theorem unwords_cons (w : UInt32) (ws : List UInt32) : unwords (w :: ws) = le32 w ++ unwords ws := by
  simp [unwords]

/-- Reading back a word of a string of words. -/
theorem word_unwords (ws : List UInt32) (rest : Bytes) (i : Nat) (h : i < ws.length) :
    word (unwords ws ++ rest) (4 * i) = ws[i] := by
  induction ws generalizing i with
  | nil => simp at h
  | cons w ws ih =>
    cases i with
    | zero =>
      have htake : ((unwords (w :: ws) ++ rest).drop (4 * 0)).take 4 = le32 w ++ [] := by
        rw [unwords_cons, List.append_assoc, Nat.mul_zero, List.drop_zero, List.append_nil, List.take_left' (length_le32 w)]
      rw [word, htake, words_le32_append]
      rfl
    | succ i =>
      have hdrop : (unwords (w :: ws) ++ rest).drop (4 * (i + 1)) = (unwords ws ++ rest).drop (4 * i) := by
        rw [unwords_cons, List.append_assoc, Nat.mul_add, Nat.add_comm, ← List.drop_drop, List.drop_left' (length_le32 w)]
      have hi := ih i (by simpa using h)
      rw [word, hdrop]
      exact hi

/-! ### CRC -/

/-- One bit of the reflected CRC-32 with polynomial 0xedb88320. -/
def crcBit (c : UInt32) : UInt32 := if c.toNat % 2 = 1 then (c >>> 1) ^^^ 0xedb88320 else c >>> 1

def crcByte (c : UInt32) (b : UInt8) : UInt32 :=
  crcBit (crcBit (crcBit (crcBit (crcBit (crcBit (crcBit (crcBit (c ^^^ b.toUInt32))))))))

/-- The kernel's `crc32_le`: no initial and no final inversion. -/
def crc32Le (crc : UInt32) (buf : Bytes) : UInt32 := buf.foldl crcByte crc

theorem crc32Le_append (crc : UInt32) (a b : Bytes) : crc32Le crc (a ++ b) = crc32Le (crc32Le crc a) b :=
  List.foldl_append

/-! ### Overwriting -/

/-- `memcpy(buf + off, d, len)`. -/
def writeAt (buf : Bytes) (off : Nat) (d : Bytes) : Bytes := buf.take off ++ d ++ buf.drop (off + d.length)

/-- The `size` bytes at `off`. -/
def slice (buf : Bytes) (off size : Nat) : Bytes := (buf.drop off).take size

section
variable {buf d : Bytes} {off o size : Nat}

theorem length_writeAt (h : off + d.length ≤ buf.length) : (writeAt buf off d).length = buf.length := by
  simp only [writeAt, List.length_append, List.length_take, List.length_drop]
  omega

theorem slice_writeAt_self (h : off + d.length ≤ buf.length) : slice (writeAt buf off d) off d.length = d := by
  have htake : (buf.take off).length = off := by rw [List.length_take]; omega
  rw [slice, writeAt, List.append_assoc, List.drop_append_of_le_length (by omega),
    List.drop_of_length_le (by omega), List.nil_append, List.take_left]

theorem slice_writeAt_before (h : off + d.length ≤ buf.length) (hs : o + size ≤ off) :
    slice (writeAt buf off d) o size = slice buf o size := by
  apply List.ext_getElem?
  intro i
  simp only [slice, writeAt, List.getElem?_take, List.getElem?_drop, List.append_assoc, List.getElem?_append,
    List.length_take]
  grind

theorem slice_writeAt_after (h : off + d.length ≤ buf.length) (hs : off + d.length ≤ o) :
    slice (writeAt buf off d) o size = slice buf o size := by
  apply List.ext_getElem?
  intro i
  simp only [slice, writeAt, List.getElem?_take, List.getElem?_drop, List.append_assoc, List.getElem?_append,
    List.length_take]
  grind

theorem writeAt_append_left {a c : Bytes} (h : o + d.length ≤ a.length) : writeAt (a ++ c) o d = writeAt a o d ++ c := by
  rw [writeAt, writeAt, List.take_append_of_le_length (by omega), List.drop_append_of_le_length h, List.append_assoc _ _ c]

theorem writeAt_append_right (a c d : Bytes) (o : Nat) : writeAt (a ++ c) (a.length + o) d = a ++ writeAt c o d := by
  rw [writeAt, writeAt, Nat.add_assoc, List.take_length_add_append, List.drop_length_add_append, List.append_assoc, List.append_assoc,
    List.append_assoc]

/-- A write inside of what was written before. -/
theorem writeAt_writeAt {d' : Bytes} {i : Nat} (h : off + d.length ≤ buf.length) (hi : i + d'.length ≤ d.length) :
    writeAt (writeAt buf off d) (off + i) d' = writeAt buf off (writeAt d i d') := by
  have htake : (buf.take off).length = off := by rw [List.length_take]; omega
  calc writeAt (writeAt buf off d) (off + i) d'
      = writeAt (buf.take off ++ (d ++ buf.drop (off + d.length))) ((buf.take off).length + i) d' := by
        rw [htake, ← List.append_assoc]
        rfl
    _ = buf.take off ++ (writeAt d i d' ++ buf.drop (off + d.length)) := by rw [writeAt_append_right, writeAt_append_left hi]
    _ = writeAt buf off (writeAt d i d') := by rw [← List.append_assoc, ← length_writeAt hi, ← writeAt]

/-- Two writes, one behind the other. -/
theorem writeAt_append {e : Bytes} (h : off + d.length ≤ buf.length) :
    writeAt (writeAt buf off d) (off + d.length) e = writeAt buf off (d ++ e) := by
  have hlen : off + d.length = (buf.take off ++ d).length := by rw [List.length_append, List.length_take]; omega
  calc writeAt (writeAt buf off d) (off + d.length) e
      = writeAt ((buf.take off ++ d) ++ buf.drop (off + d.length)) ((buf.take off ++ d).length + 0) e := by
        rw [Nat.add_zero, ← hlen]
        rfl
    _ = (buf.take off ++ d) ++ (e ++ buf.drop (off + d.length + e.length)) := by
        rw [writeAt_append_right, writeAt, List.take_zero, List.nil_append, Nat.zero_add, List.drop_drop]
    _ = writeAt buf off (d ++ e) := by
        rw [writeAt, List.length_append, Nat.add_assoc, List.append_assoc, List.append_assoc, List.append_assoc]

theorem slice_add (buf : Bytes) (off m n : Nat) : slice buf off (m + n) = slice buf off m ++ slice buf (off + m) n := by
  unfold slice
  rw [← List.drop_drop, ← List.take_add]

theorem slice_append_left {a c : Bytes} (h : off + size ≤ a.length) : slice (a ++ c) off size = slice a off size := by
  rw [slice, slice, List.drop_append_of_le_length (by omega), List.take_append_of_le_length (by rw [List.length_drop]; omega)]

theorem slice_append_right (a c : Bytes) (k size : Nat) : slice (a ++ c) (a.length + k) size = slice c k size := by
  rw [slice, slice, ← List.drop_drop, List.drop_left]

theorem slice_slice {j n : Nat} (h : j + n ≤ size) : slice (slice buf off size) j n = slice buf (off + j) n := by
  simp only [slice, List.drop_take, List.take_take, List.drop_drop]
  rw [Nat.min_eq_left (by omega)]

theorem word_le32 (w : UInt32) : word (le32 w) 0 = w := by
  have h := word_unwords [w] [] 0 (Nat.succ_pos _)
  simpa [unwords] using h

theorem word_eq_slice (b : Bytes) (i : Nat) : word b i = word (slice b i 4) 0 := by
  simp only [word, slice, List.drop_zero, List.take_take, Nat.min_self]

theorem writeAt_slice (h : off + size ≤ buf.length) : writeAt buf off (slice buf off size) = buf := by
  have hlen : (slice buf off size).length = size := by
    rw [slice, List.length_take, List.length_drop]
    omega
  rw [writeAt, hlen, slice, ← List.drop_drop, List.append_assoc, List.take_append_drop, List.take_append_drop]

theorem le32_ofLe32 (a b c d : UInt8) : le32 (ofLe32 a b c d) = [a, b, c, d] := by
  have ha := a.toNat_lt
  have hb := b.toNat_lt
  have hc := c.toNat_lt
  have hd := d.toNat_lt
  simp only [le32, ofLe32, List.cons.injEq, ← UInt8.toNat_inj, UInt8.toNat_ofNat', UInt32.toNat_ofNat', and_true]
  omega

/-- The bytes of a word that is read. -/
theorem le32_word (h : off + 4 ≤ buf.length) : le32 (word buf off) = slice buf off 4 := by
  have hlen : (slice buf off 4).length = 4 := by
    rw [slice, List.length_take, List.length_drop]
    omega
  rw [word_eq_slice]
  match slice buf off 4, hlen with
  | [a, b, c, d], _ => exact le32_ofLe32 a b c d

theorem writeAt_word (h : off + 4 ≤ buf.length) : writeAt buf off (le32 (word buf off)) = buf := by
  rw [le32_word h, writeAt_slice h]

theorem word_slice {j : Nat} (h : j + 4 ≤ size) : word (slice buf off size) j = word buf (off + j) := by
  rw [word_eq_slice, slice_slice h, ← word_eq_slice]

end

/-! ### Pieces of one size -/

/-- Cuts `l` into pieces of `n` bytes, the last one possibly shorter; at most `k` pieces. -/
def splitEvery (n : Nat) : Nat → Bytes → List Bytes
  | 0, _ => []
  | _ + 1, [] => []
  | k + 1, b :: l => (b :: l).take n :: splitEvery n k ((b :: l).drop n)

/-- All pieces of `n` bytes of `l`. -/
def pieces (n : Nat) (l : Bytes) : List Bytes := splitEvery n l.length l

theorem flatten_splitEvery {n : Nat} (hn : 0 < n) : ∀ {k : Nat} {l : Bytes}, l.length ≤ k → (splitEvery n k l).flatten = l
  | 0, [], _ => rfl
  | 0, _ :: _, h => by simp at h
  | _ + 1, [], _ => rfl
  | k + 1, b :: l, h => by
    have hk : ((b :: l).drop n).length ≤ k := by simp only [List.length_drop]; simp only [List.length_cons] at h ⊢; omega
    rw [splitEvery, List.flatten_cons, flatten_splitEvery hn hk, List.take_append_drop]

/-- More pieces than there are bytes change nothing. -/
theorem splitEvery_congr {n : Nat} (hn : 0 < n) {k k' : Nat} {l : Bytes} (h : l.length ≤ k) (h' : l.length ≤ k') :
    splitEvery n k l = splitEvery n k' l := by
  induction k generalizing k' l with
  | zero =>
    obtain rfl := List.length_eq_zero_iff.mp (Nat.le_zero.mp h)
    cases k' <;> rfl
  | succ k ih =>
    cases l with
    | nil => cases k' <;> rfl
    | cons b l =>
      cases k' with
      | zero => cases h'
      | succ k' =>
        rw [List.length_cons] at h h'
        have hdrop : ((b :: l).drop n).length ≤ l.length := by
          rw [List.length_drop, List.length_cons]
          omega
        rw [splitEvery, splitEvery, ih (Nat.le_trans hdrop (Nat.le_of_succ_le_succ h)) (Nat.le_trans hdrop (Nat.le_of_succ_le_succ h'))]

theorem splitEvery_eq_pieces {n : Nat} (hn : 0 < n) {k : Nat} {l : Bytes} (h : l.length ≤ k) : splitEvery n k l = pieces n l :=
  splitEvery_congr hn h (Nat.le_refl _)

theorem length_le_of_mem_splitEvery {n : Nat} : ∀ {k : Nat} {l c : Bytes}, c ∈ splitEvery n k l → c.length ≤ n
  | 0, _, _, h => nomatch h
  | _ + 1, [], _, h => nomatch h
  | k + 1, b :: l, c, h => by
    rw [splitEvery, List.mem_cons] at h
    rcases h with rfl | h
    · rw [List.length_take]
      omega
    · exact length_le_of_mem_splitEvery h

theorem pieces_cons {n : Nat} (hn : 0 < n) {l : Bytes} (hl : l ≠ []) : pieces n l = l.take n :: pieces n (l.drop n) := by
  cases l with
  | nil => exact absurd rfl hl
  | cons b l =>
    have hdrop : ((b :: l).drop n).length ≤ l.length := by simp only [List.length_drop, List.length_cons]; omega
    rw [pieces, List.length_cons, splitEvery, splitEvery_eq_pieces hn hdrop]

theorem flatten_pieces {n : Nat} (hn : 0 < n) (l : Bytes) : (pieces n l).flatten = l :=
  flatten_splitEvery hn (Nat.le_refl _)

end RainWrt
