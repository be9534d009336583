import RainWrt.Mikrotik.Lz77

/-! The format of the compressed data, and what the decompressor makes of it. -/

namespace RainWrt.Mikrotik.Lz77

/-! ### The format -/

/-- The lowest `s` bits of a number, from the highest one on. -/
def lowBits : (s n : Nat) → List Bool
  | 0, _ => []
  | s + 1, n => n.testBit s :: lowBits s n

/-- A count: each bit set adds a power of two, which grows until a bit is not set and then shrinks to one. -/
def countBits (shift n : Nat) : List Bool :=
  if n < 2 ^ shift then false :: lowBits shift n else true :: countBits (shift + 1) (n - 2 ^ shift)
termination_by n
decreasing_by
  have := Nat.two_pow_pos shift
  omega

def byteBits (b : UInt8) : List Bool := lowBits 8 b.toNat

/-- The groups of the format. -/
inductive Group where
  | literal (b : UInt8)
  | run (bs : Bytes)
  | copy (offset length : Nat)
  | again (length : Nat)

def Group.bits : Group → List Bool
  | .literal b => false :: byteBits b
  | .run bs => true :: true :: (countBits 4 0 ++ (countBits 4 (bs.length - 12) ++ bs.flatMap byteBits))
  | .copy offset length => true :: true :: (countBits 4 offset ++ countBits 0 (length - 2))
  | .again length => true :: false :: countBits 0 (length - 1)

def endMarker : List Bool := true :: true :: (countBits 4 0 ++ countBits 4 0)

/-- The bits of a file: the groups, the end marker and the padding. -/
def fileBits (gs : List Group) (pad : List Bool) : List Bool := gs.flatMap Group.bits ++ (endMarker ++ pad)

/-- Eight bits a byte, from the lowest one on. -/
def pack (bits : List Bool) : Bytes :=
  (List.range ((bits.length + 7) / 8)).map fun k =>
    .ofNat ((List.range 8).foldr (fun j n => (bits.getD (8 * k + j) false).toNat + 2 * n) 0)

/-- A match is copied byte by byte, so that it may reach into itself. -/
def copyBytes (out : Bytes) (offset : Nat) : Nat → Bytes
  | 0 => out
  | n + 1 => copyBytes out offset n ++ [(copyBytes out offset n).getD (out.length + n - offset) 0]

/-- What a group adds to the output. The second part is the offset of the last match. -/
def Group.expand : Bytes × Option Nat → Group → Option (Bytes × Option Nat)
  | (out, last), .literal b => some (out ++ [b], last)
  | (out, last), .run bs => if 12 ≤ bs.length then some (out ++ bs, last) else none
  | (out, _), .copy offset length =>
    if 0 < offset ∧ offset ≤ out.length ∧ 2 ≤ length then some (copyBytes out offset length, some offset) else none
  | (_, none), .again _ => none
  | (out, some offset), .again length => if 1 ≤ length then some (copyBytes out offset length, some offset) else none

/-- The expansion of a list of groups. There is none where an offset does not lie in the output. -/
def expansion (gs : List Group) : Option Bytes := (gs.foldlM Group.expand ([], none)).map (·.1)

/-! ### Reading bits -/

/-- From this position on, the input has these bits. -/
structure At (input : Bytes) (pos : Nat) (bits : List Bool) : Prop where
  bit : ∀ k, getBit input (pos + k) = bits.getD k false
  length : pos + bits.length = input.length * 8

section
variable {input : Bytes} {pos : Nat} {rest : List Bool}

theorem At.head {b : Bool} (h : At input pos (b :: rest)) : getBit input pos = b := h.bit 0

theorem At.skip {l : List Bool} (h : At input pos (l ++ rest)) : At input (pos + l.length) rest := by
  constructor
  · intro k
    rw [Nat.add_assoc, h.bit, List.getD_eq_getElem?_getD, List.getElem?_append_right (by omega), Nat.add_sub_cancel_left,
      List.getD_eq_getElem?_getD]
  · have := h.length
    rw [List.length_append] at this
    omega

theorem At.tail {b : Bool} (h : At input pos (b :: rest)) : At input (pos + 1) rest := At.skip (l := [b]) h

@[simp] theorem length_lowBits (s n : Nat) : (lowBits s n).length = s := by
  induction s with
  | zero => rfl
  | succ s ih => simp [lowBits, ih]

theorem mod_two_pow_succ (n s : Nat) : n % 2 ^ (s + 1) = n % 2 ^ s + 2 ^ s * (n.testBit s).toNat := by
  rw [Nat.mod_pow_succ, Nat.toNat_testBit]

/-- The part of a count behind the bit that is not set. -/
theorem decodeCountLoop_down {start : Nat} (hs : start ≤ pos) {s n c f : Nat} (h : At input pos (lowBits (s + 1) n ++ rest)) :
    decodeCountLoop input start f pos s c false =
      if s + 1 ≤ f then .ok (c + n % 2 ^ (s + 1), pos + (s + 1) - start) else .error .efbig := by
  have hcount : ∀ (b : Bool) (k : Nat), (if b then c + k else c) = c + k * b.toNat := by
    intro b k
    cases b <;> simp
  induction s generalizing pos c f with
  | zero =>
    cases f with
    | zero => rfl
    | succ f =>
      have hbit : getBit input pos = n.testBit 0 := h.head
      have hpos : pos - start + 1 = pos + (0 + 1) - start := by omega
      have hle : 0 + 1 ≤ f + 1 := by omega
      simp only [decodeCountLoop, hbit, hcount, Bool.false_and, Bool.false_eq_true, if_false, if_true, hpos, if_pos hle,
        mod_two_pow_succ, Nat.pow_zero, Nat.mod_one, Nat.zero_add]
  | succ s ih =>
    cases f with
    | zero => rfl
    | succ f =>
      have hbit : getBit input pos = n.testBit (s + 1) := h.head
      have hnext := ih (show start ≤ pos + 1 by omega) h.tail (c := c + 2 ^ (s + 1) * (n.testBit (s + 1)).toNat) (f := f)
        (fun b k => by cases b <;> simp)
      simp only [decodeCountLoop, hbit, hcount, Bool.false_and, Bool.false_eq_true, if_false, Nat.add_one_ne_zero,
        Nat.add_sub_cancel, hnext]
      by_cases hf : s + 1 ≤ f
      · have hsum : c + 2 ^ (s + 1) * (n.testBit (s + 1)).toNat + n % 2 ^ (s + 1) = c + n % 2 ^ (s + 1 + 1) := by
          rw [mod_two_pow_succ n (s + 1)]
          omega
        rw [if_pos hf, if_pos (by omega), hsum]
        congr 2
        omega
      · rw [if_neg hf, if_neg (by omega)]

/-- A count is decoded from its bits. -/
theorem decodeCountLoop_up {start : Nat} (hs : start ≤ pos) {s n c f : Nat} (h : At input pos (countBits s n ++ rest)) :
    decodeCountLoop input start f pos s c true =
      if (countBits s n).length ≤ f then .ok (c + n, pos + (countBits s n).length - start) else .error .efbig := by
  induction s, n using countBits.induct generalizing pos c f with
  | case1 s n hn =>
    rw [countBits, if_pos hn] at h ⊢
    cases f with
    | zero => rfl
    | succ f =>
      rw [decodeCountLoop, h.head]
      cases s with
      | zero =>
        have hzero : n = 0 := by simpa using hn
        simp [hzero, lowBits]
        omega
      | succ s =>
        have hdown := decodeCountLoop_down (show start ≤ pos + 1 by omega) h.tail (c := c) (f := f)
        simp only [Bool.and_false, Bool.false_eq_true, if_false, Nat.add_one_ne_zero, Nat.add_sub_cancel, hdown, List.length_cons,
          length_lowBits, Nat.mod_eq_of_lt hn]
        by_cases hf : s + 1 ≤ f
        · rw [if_pos hf, if_pos (by omega)]
          congr 2
          omega
        · rw [if_neg hf, if_neg (by omega)]
  | case2 s n hn ih =>
    rw [countBits, if_neg hn] at h ⊢
    cases f with
    | zero => rfl
    | succ f =>
      have hnext := ih (show start ≤ pos + 1 by omega) h.tail (c := c + 2 ^ s) (f := f)
      rw [decodeCountLoop, h.head]
      simp only [Bool.and_true, if_true, hnext, List.length_cons]
      by_cases hf : (countBits (s + 1) (n - 2 ^ s)).length ≤ f
      · rw [if_pos hf, if_pos (by omega)]
        congr 2
        · omega
        · omega
      · rw [if_neg hf, if_neg (by omega)]

theorem decodeCount_eq {s n c : Nat} (h : At input pos (countBits s n ++ rest)) :
    decodeCount input pos s c maxCountBitLen =
      if (countBits s n).length ≤ maxCountBitLen then .ok (c + n, (countBits s n).length) else .error .efbig := by
  have hlen := h.length
  rw [List.length_append] at hlen
  rw [decodeCount, decodeCountLoop_up (Nat.le_refl pos) h]
  by_cases hf : (countBits s n).length ≤ maxCountBitLen
  · rw [if_pos hf, if_pos (by omega), Nat.add_sub_cancel_left]
  · rw [if_neg hf, if_neg (by omega)]

theorem foldl_bits_byte (b : UInt8) :
    (List.range 8).foldl (fun buf i => buf + (b.toNat.testBit (7 - i)).toUInt8 <<< .ofNat (7 - i)) (0 : UInt8) = b := by
  have hall : ∀ n : Fin 256, (List.range 8).foldl
      (fun buf i => buf + ((UInt8.ofNat n).toNat.testBit (7 - i)).toUInt8 <<< .ofNat (7 - i)) (0 : UInt8) = .ofNat n := by
    decide +kernel
  have hb := hall ⟨b.toNat, b.toNat_lt⟩
  simpa only [UInt8.ofNat_toNat] using hb

theorem getByte_eq {b : UInt8} (h : At input pos (byteBits b ++ rest)) : getByte input pos = b := by
  have hbit : ∀ i ∈ List.range 8, getBit input (pos + i) = b.toNat.testBit (7 - i) := by
    intro i hi
    rw [h.bit]
    have hi := List.mem_range.mp hi
    match i, hi with
    | 0, _ | 1, _ | 2, _ | 3, _ | 4, _ | 5, _ | 6, _ | 7, _ => rfl
  rw [getByte, List.foldl_ext _ _ 0 (fun buf i hi => by rw [hbit i hi])]
  exact foldl_bits_byte b

theorem map_getByte_eq {bs : Bytes} (h : At input pos (bs.flatMap byteBits ++ rest)) :
    ((List.range bs.length).map fun i => getByte input (pos + 8 * i)) = bs := by
  induction bs generalizing pos with
  | nil => rfl
  | cons b bs ih =>
    rw [List.flatMap_cons, List.append_assoc] at h
    have hrest : At input (pos + 8) (bs.flatMap byteBits ++ rest) := h.skip
    rw [List.length_cons, List.range_succ_eq_map, List.map_cons, List.map_map, Nat.mul_zero, Nat.add_zero, getByte_eq h]
    congr 1
    refine Eq.trans (List.map_congr_left ?_) (ih hrest)
    intro i _
    rw [Function.comp_apply, Nat.mul_succ, Nat.add_assoc, Nat.add_comm 8]

end

/-! ### Copying -/

@[simp] theorem length_copyBytes (out : Bytes) (offset n : Nat) : (copyBytes out offset n).length = out.length + n := by
  induction n with
  | zero => rfl
  | succ n ih =>
    rw [copyBytes, List.length_append, ih]
    rfl

theorem copyBytes_add (out : Bytes) (offset m n : Nat) :
    copyBytes out offset (m + n) = copyBytes (copyBytes out offset m) offset n := by
  induction n with
  | zero => rfl
  | succ n ih => rw [← Nat.add_assoc, copyBytes, copyBytes, ih, length_copyBytes, Nat.add_assoc]

/-- A copy that does not reach into itself. -/
theorem copyBytes_eq_append {out : Bytes} {offset n : Nat} (ho : offset ≤ out.length) (hn : n ≤ offset) :
    copyBytes out offset n = out ++ slice out (out.length - offset) n := by
  induction n with
  | zero => simp [copyBytes, slice]
  | succ n ih =>
    have hlt : out.length - offset + n < out.length := by omega
    have hget : (copyBytes out offset n).getD (out.length + n - offset) 0 = out[out.length - offset + n] := by
      rw [ih (by omega), List.getD_eq_getElem?_getD, show out.length + n - offset = out.length - offset + n by omega,
        List.getElem?_append_left hlt, List.getElem?_eq_getElem hlt, Option.getD_some]
    rw [copyBytes, hget, ih (by omega), List.append_assoc, slice, slice, List.take_add_one, List.getElem?_drop,
      List.getElem?_eq_getElem hlt, Option.toList_some]

theorem copyMatch_eq {out : Bytes} {offset : Nat} (hpos : 0 < offset) {n : Nat} (ho : offset ≤ out.length) :
    copyMatch out offset hpos n = copyBytes out offset n := by
  induction out, n using copyMatch.induct offset hpos with
  | case1 out n hn ih =>
    rw [copyMatch, if_pos hn, ih (by rw [List.length_append]; omega), ← copyBytes_eq_append ho (Nat.le_refl _), ← copyBytes_add,
      Nat.add_sub_of_le (Nat.le_of_lt hn)]
  | case2 out n hn => rw [copyMatch, if_neg hn, copyBytes_eq_append ho (by omega)]

/-! ### Decoding groups -/

/-- The counts of a group fit into the bits that the decoder reads for one. -/
def Group.Short : Group → Prop
  | .literal _ => True
  | .run bs => (countBits 4 (bs.length - 12)).length ≤ maxCountBitLen
  | .copy offset length => (countBits 4 offset).length ≤ maxCountBitLen ∧ (countBits 0 (length - 2)).length ≤ maxCountBitLen
  | .again length => (countBits 0 (length - 1)).length ≤ maxCountBitLen

theorem length_countBits_zero : (countBits 4 0).length = 5 := by
  rw [countBits]
  rfl

section
variable {input : Bytes} {pos : Nat} {rest : List Bool}

theorem decode_literal (previous : Nat) (h : At input pos (false :: rest)) :
    decodeInstructionOperators input pos previous = .ok ⟨.literalByte, 0, 1, 1, Nat.one_pos⟩ := by
  simp only [decodeInstructionOperators, decodeInstruction, h.head, Bool.false_eq_true, if_false]

theorem decode_again (previous : Nat) {n : Nat} (h : At input pos (true :: false :: (countBits 0 n ++ rest))) :
    decodeInstructionOperators input pos previous =
      if (countBits 0 n).length ≤ maxCountBitLen then
        .ok ⟨.previousOffset, previous, 1 + n, 2 + (countBits 0 n).length, by omega⟩
      else .error .efbig := by
  have hlength : decodeCount input (pos + 2) 0 1 maxCountBitLen = _ := decodeCount_eq h.tail.tail (c := 1)
  simp only [decodeInstructionOperators, decodeInstruction, h.head, h.tail.head, Bool.false_eq_true, if_true, if_false, hlength]
  split_ifs <;> rfl

/-- A long group, whose offset is read before its length. -/
theorem decode_long (previous : Nat) {offset s n c : Nat} (hs : ∀ p, decodeLongLength input p offset = decodeCount input p s c maxCountBitLen)
    (h : At input pos (true :: true :: (countBits 4 offset ++ (countBits s n ++ rest)))) :
    decodeInstructionOperators input pos previous =
      if (countBits 4 offset).length ≤ maxCountBitLen ∧ (countBits s n).length ≤ maxCountBitLen then
        .ok ⟨.long, offset, c + n, 2 + (countBits 4 offset).length + (countBits s n).length, by omega⟩
      else .error .efbig := by
  have hoffset : decodeCount input (pos + 2) 4 0 maxCountBitLen = _ := decodeCount_eq h.tail.tail (c := 0)
  have hlength := decodeCount_eq h.tail.tail.skip (c := c)
  rw [Nat.zero_add] at hoffset
  simp only [decodeInstructionOperators, decodeInstruction, h.head, h.tail.head, if_true, hoffset]
  by_cases ho : (countBits 4 offset).length ≤ maxCountBitLen
  · rw [if_pos ho]
    show ((decodeLongLength input (pos + (2 + (countBits 4 offset).length)) offset).bind fun x => _) = _
    rw [hs, ← Nat.add_assoc, show pos + 2 = pos + 1 + 1 from rfl, hlength]
    by_cases hl : (countBits s n).length ≤ maxCountBitLen
    · rw [if_pos hl, if_pos ⟨ho, hl⟩]
      rfl
    · rw [if_neg hl, if_neg fun h => hl h.2]
      rfl
  · rw [if_neg ho, if_neg fun h => ho h.1]
    rfl

theorem decode_run (previous : Nat) {n : Nat} (h : At input pos (true :: true :: (countBits 4 0 ++ (countBits 4 n ++ rest)))) :
    decodeInstructionOperators input pos previous =
      if (countBits 4 n).length ≤ maxCountBitLen then .ok ⟨.long, 0, 12 + n, 2 + 5 + (countBits 4 n).length, by omega⟩
      else .error .efbig := by
  have hlong := decode_long previous (fun p => rfl) h (c := 12)
  simp only [length_countBits_zero] at hlong
  rw [hlong]
  split_ifs with h₁ h₂ h₂
  · rfl
  · exact absurd h₁.2 h₂
  · exact absurd ⟨by decide, h₂⟩ h₁
  · rfl

theorem decode_copy (previous : Nat) {offset n : Nat} (ho : 0 < offset)
    (h : At input pos (true :: true :: (countBits 4 offset ++ (countBits 0 n ++ rest)))) :
    decodeInstructionOperators input pos previous =
      if (countBits 4 offset).length ≤ maxCountBitLen ∧ (countBits 0 n).length ≤ maxCountBitLen then
        .ok ⟨.long, offset, 2 + n, 2 + (countBits 4 offset).length + (countBits 0 n).length, by omega⟩
      else .error .efbig :=
  decode_long previous (fun p => by rw [decodeLongLength, if_neg (Nat.ne_of_gt ho)]) h

end

/-! ### The loop -/

/-- The loop does not take the group for the end marker: behind a run of twelve bytes, the number of bits before it and of
    its bytes is compared with the number of bytes of the input. -/
def Group.Told (size pos : Nat) : Group → Prop
  | .run bs => bs.length = 12 → pos + 12 + 12 * 8 ≤ size
  | _ => True

/-- The last offset lies in the output. -/
def Reaches : Bytes × Option Nat → Prop
  | (out, some offset) => 0 < offset ∧ offset ≤ out.length
  | (_, none) => True

theorem reaches_start : Reaches ([], none) := trivial

section
variable {input : Bytes} {outLen pos : Nat} {out out' : Bytes} {last last' : Option Nat} {g : Group} {rest : List Bool}

theorem expand_reaches (h : Reaches (out, last)) (he : Group.expand (out, last) g = some (out', last')) :
    Reaches (out', last') ∧ out.length < out'.length := by
  cases g with
  | literal b =>
    cases he
    cases last with
    | none => exact ⟨trivial, by simp⟩
    | some offset => exact ⟨⟨h.1, by rw [List.length_append]; exact Nat.le_add_right_of_le h.2⟩, by simp⟩
  | run bs =>
    simp only [Group.expand] at he
    split_ifs at he with hbs
    cases he
    have hlen : (out ++ bs).length = out.length + bs.length := List.length_append
    cases last with
    | none => exact ⟨trivial, by omega⟩
    | some offset => exact ⟨⟨h.1, by rw [hlen]; exact Nat.le_add_right_of_le h.2⟩, by omega⟩
  | copy offset length =>
    simp only [Group.expand] at he
    split_ifs at he with ho
    cases he
    exact ⟨⟨ho.1, by rw [length_copyBytes]; omega⟩, by rw [length_copyBytes]; omega⟩
  | again length =>
    cases last with
    | none => cases he
    | some offset =>
      simp only [Group.expand] at he
      split_ifs at he with hl
      cases he
      exact ⟨⟨h.1, by rw [length_copyBytes]; exact Nat.le_add_right_of_le h.2⟩, by rw [length_copyBytes]; omega⟩

theorem length_flatMap_byteBits (bs : Bytes) : (bs.flatMap byteBits).length = 8 * bs.length := by
  induction bs with
  | nil => rfl
  | cons b bs ih =>
    rw [List.flatMap_cons, List.length_append, ih, byteBits, length_lowBits, List.length_cons]
    omega

/-- One round for bytes that are copied from the input. -/
theorem decompressLoop_bytes {ins : Instruction} {length used matchOffset : Nat} {hused : 0 < used} (hout : out.length ≤ outLen)
    (hpos : pos ≤ input.length * 8) (hins : ins ≠ .previousOffset)
    (hd : decodeInstructionOperators input pos matchOffset = .ok ⟨ins, 0, length, used, hused⟩) :
    decompressLoop input outLen out matchOffset pos =
      if length = 12 ∧ pos + used + length * 8 > input.length then .ok out
      else decompressLoop input outLen (out ++ (List.range length).map fun i => getByte input (pos + used + 8 * i)) matchOffset
        (pos + used + 8 * length) := by
  rw [decompressLoop, if_neg (by omega), if_neg (by omega), hd]
  simp [hins]

/-- One round for a match. -/
theorem decompressLoop_match {ins : Instruction} {offset length used matchOffset : Nat} {hused : 0 < used}
    (hlen : out.length + length ≤ outLen) (hpos : pos ≤ input.length * 8) (ho : 0 < offset) (hle : offset ≤ out.length)
    (hd : decodeInstructionOperators input pos matchOffset = .ok ⟨ins, offset, length, used, hused⟩) :
    decompressLoop input outLen out matchOffset pos =
      decompressLoop input outLen (copyBytes out offset length) (if ins = .long then offset else matchOffset) (pos + used) := by
  rw [decompressLoop, if_neg (by omega), if_neg (by omega), hd]
  simp only
  rw [if_neg (fun h => Nat.ne_of_gt ho h.2), dif_neg (Nat.ne_of_gt ho), if_neg (by omega), if_neg (by omega), copyMatch_eq ho hle]

/-- A group that is decoded. -/
theorem decompressLoop_group (h : At input pos (g.bits ++ rest)) (hr : Reaches (out, last)) (hshort : g.Short)
    (htold : g.Told input.length pos) (he : Group.expand (out, last) g = some (out', last')) (hlen : out'.length ≤ outLen) :
    decompressLoop input outLen out (last.getD 0) pos = decompressLoop input outLen out' (last'.getD 0) (pos + g.bits.length) := by
  have hgrow := (expand_reaches hr he).2
  have hpos : pos ≤ input.length * 8 := by
    have := h.length
    omega
  cases g with
  | literal b =>
    cases he
    have hbyte := getByte_eq h.tail
    rw [decompressLoop_bytes (by omega) hpos (by decide) (decode_literal _ h), if_neg (by omega)]
    simp [hbyte, Group.bits, byteBits]
  | run bs =>
    simp only [Group.expand] at he
    split_ifs at he with hbs
    cases he
    simp only [Group.bits, List.cons_append, List.append_assoc] at h
    simp only [Group.Short] at hshort
    have hdecode := decode_run (last.getD 0) h
    rw [if_pos hshort, Nat.add_sub_of_le hbs] at hdecode
    have hstart : pos + (2 + 5 + (countBits 4 (bs.length - 12)).length) =
        pos + 1 + 1 + (countBits 4 0).length + (countBits 4 (bs.length - 12)).length := by
      rw [length_countBits_zero]
      omega
    have hend : pos + (2 + 5 + (countBits 4 (bs.length - 12)).length) + 8 * bs.length = pos + (Group.run bs).bits.length := by
      simp only [Group.bits, List.length_cons, List.length_append, length_flatMap_byteBits, length_countBits_zero]
      omega
    rw [decompressLoop_bytes (by omega) hpos (by decide) hdecode, if_neg, hend, hstart, map_getByte_eq h.tail.tail.skip.skip]
    -- a run of twelve bytes is told from the end marker
    rintro ⟨htwelve, hgt⟩
    have := htold htwelve
    rw [htwelve, Nat.sub_self, length_countBits_zero] at hgt
    omega
  | copy offset length =>
    simp only [Group.expand] at he
    split_ifs at he with ho
    cases he
    simp only [Group.bits, List.cons_append, List.append_assoc] at h
    simp only [Group.Short] at hshort
    have hdecode := decode_copy (last.getD 0) ho.1 h
    rw [if_pos hshort, Nat.add_sub_of_le ho.2.2] at hdecode
    have hend : pos + (2 + (countBits 4 offset).length + (countBits 0 (length - 2)).length) =
        pos + (Group.copy offset length).bits.length := by
      simp only [Group.bits, List.length_cons, List.length_append]
      omega
    rw [length_copyBytes] at hlen
    rw [decompressLoop_match hlen hpos ho.1 ho.2.1 hdecode, hend]
    rfl
  | again length =>
    cases last with
    | none => cases he
    | some offset =>
      simp only [Group.expand] at he
      split_ifs at he with hl
      cases he
      simp only [Group.bits, List.cons_append] at h
      simp only [Group.Short] at hshort
      have hdecode := decode_again offset h
      rw [if_pos hshort, Nat.add_sub_of_le hl] at hdecode
      have hend : pos + (2 + (countBits 0 (length - 1)).length) = pos + (Group.again length).bits.length := by
        simp only [Group.bits, List.length_cons]
        omega
      rw [length_copyBytes] at hlen
      rw [Option.getD_some, decompressLoop_match hlen hpos hr.1 hr.2 hdecode, hend]
      rfl

/-- A group that is not decoded: the loop fails, or it ends before the group. -/
theorem decompressLoop_stops (h : At input pos (g.bits ++ rest)) (hr : Reaches (out, last))
    (hg : ¬(g.Short ∧ g.Told input.length pos)) (he : Group.expand (out, last) g = some (out', last')) (hlen : out'.length ≤ outLen) :
    decompressLoop input outLen out (last.getD 0) pos = .error .efbig ∨
      decompressLoop input outLen out (last.getD 0) pos = .ok out := by
  have hgrow := (expand_reaches hr he).2
  have hpos : pos ≤ input.length * 8 := by
    have := h.length
    omega
  have hfail : ∀ e, decodeInstructionOperators input pos (last.getD 0) = .error e →
      decompressLoop input outLen out (last.getD 0) pos = .error e := by
    intro e hd
    rw [decompressLoop, if_neg (by omega), if_neg (by omega), hd]
  cases g with
  | literal b => exact absurd ⟨trivial, trivial⟩ hg
  | run bs =>
    simp only [Group.expand] at he
    split_ifs at he with hbs
    simp only [Group.bits, List.cons_append, List.append_assoc] at h
    have hdecode := decode_run (last.getD 0) h
    by_cases hshort : (countBits 4 (bs.length - 12)).length ≤ maxCountBitLen
    · have htold : ¬(bs.length = 12 → pos + 12 + 12 * 8 ≤ input.length) := fun htold => hg ⟨hshort, htold⟩
      obtain ⟨htwelve, hgt⟩ := Classical.not_imp.mp htold
      rw [if_pos hshort, Nat.add_sub_of_le hbs] at hdecode
      rw [decompressLoop_bytes (by omega) hpos (by decide) hdecode, if_pos]
      · exact Or.inr rfl
      · rw [htwelve, Nat.sub_self, length_countBits_zero]
        omega
    · rw [if_neg hshort] at hdecode
      exact Or.inl (hfail _ hdecode)
  | copy offset length =>
    simp only [Group.expand] at he
    split_ifs at he with ho
    simp only [Group.bits, List.cons_append, List.append_assoc] at h
    have hdecode := decode_copy (last.getD 0) ho.1 h
    simp only [Group.Short, Group.Told, and_true] at hg
    rw [if_neg hg] at hdecode
    exact Or.inl (hfail _ hdecode)
  | again length =>
    simp only [Group.bits, List.cons_append] at h
    have hdecode := decode_again (last.getD 0) h
    simp only [Group.Short, Group.Told, and_true] at hg
    rw [if_neg hg] at hdecode
    exact Or.inl (hfail _ hdecode)

/-- The end marker ends the loop: less than a byte follows. -/
theorem decompressLoop_endMarker {matchOffset : Nat} {pad : List Bool} (h : At input pos (endMarker ++ pad)) (hpad : pad.length < 8)
    (hout : out.length ≤ outLen) : decompressLoop input outLen out matchOffset pos = .ok out := by
  have hend := h.length
  simp only [endMarker, List.cons_append, List.append_assoc, List.length_cons, List.length_append, length_countBits_zero] at h hend
  have hdecode := decode_run matchOffset h
  simp only [length_countBits_zero] at hdecode
  rw [if_pos (by decide)] at hdecode
  rw [decompressLoop_bytes hout (by omega) (by decide) hdecode, if_pos]
  omega

end

/-- All groups are decoded, from this position on. -/
def Decoded (size : Nat) : (pos : Nat) → List Group → Prop
  | _, [] => True
  | pos, g :: gs => (g.Short ∧ g.Told size pos) ∧ Decoded size (pos + g.bits.length) gs

section
variable {input : Bytes} {outLen : Nat} {pad : List Bool}

theorem length_le_of_expand {gs : List Group} {s t : Bytes × Option Nat} (hs : Reaches s) (h : gs.foldlM Group.expand s = some t) :
    s.1.length ≤ t.1.length := by
  induction gs generalizing s with
  | nil =>
    cases h
    exact Nat.le_refl _
  | cons g gs ih =>
    obtain ⟨m, hm, h⟩ := Option.bind_eq_some_iff.mp h
    have hstep := expand_reaches hs hm
    exact Nat.le_trans (Nat.le_of_lt hstep.2) (ih hstep.1 h)

/-- The loop from the start of any group on. -/
theorem decompressLoop_iff {gs : List Group} {pos : Nat} {out out' : Bytes} {last last' : Option Nat}
    (h : At input pos (gs.flatMap Group.bits ++ (endMarker ++ pad))) (hpad : pad.length < 8) (hr : Reaches (out, last))
    (he : gs.foldlM Group.expand (out, last) = some (out', last')) (hlen : out'.length ≤ outLen) :
    decompressLoop input outLen out (last.getD 0) pos = .ok out' ↔ Decoded input.length pos gs := by
  induction gs generalizing pos out last with
  | nil =>
    cases he
    exact iff_of_true (decompressLoop_endMarker h hpad hlen) trivial
  | cons g gs ih =>
    obtain ⟨⟨out₁, last₁⟩, hg, he⟩ := Option.bind_eq_some_iff.mp he
    rw [List.flatMap_cons, List.append_assoc] at h
    obtain ⟨hr₁, hgrow⟩ := expand_reaches hr hg
    have hle := length_le_of_expand hr₁ he
    by_cases hd : g.Short ∧ g.Told input.length pos
    · rw [decompressLoop_group h hr hd.1 hd.2 hg (Nat.le_trans hle hlen), ih h.skip hr₁ he]
      exact ⟨fun hgs => ⟨hd, hgs⟩, fun hgs => hgs.2⟩
    · refine iff_of_false ?_ fun hgs => hd hgs.1
      dsimp only at hle
      rcases decompressLoop_stops h hr hd hg (Nat.le_trans hle hlen) with hstop | hstop
      · rw [hstop]
        exact fun h => nomatch h
      · rw [hstop]
        rintro ⟨⟩
        omega

end

/-! ### Files -/

theorem testBit_foldr (f : Nat → Bool) {j : Nat} (hj : j < 8) :
    (UInt8.ofNat ((List.range 8).foldr (fun j n => (f j).toNat + 2 * n) 0)).toNat.testBit j = f j := by
  have hall : ∀ b₀ b₁ b₂ b₃ b₄ b₅ b₆ b₇ : Bool, ∀ j : Fin 8, (UInt8.ofNat (b₀.toNat + 2 * (b₁.toNat + 2 * (b₂.toNat +
      2 * (b₃.toNat + 2 * (b₄.toNat + 2 * (b₅.toNat + 2 * (b₆.toNat + 2 * (b₇.toNat + 2 * 0))))))))).toNat.testBit j =
      [b₀, b₁, b₂, b₃, b₄, b₅, b₆, b₇].getD j false := by
    decide
  have hbit := hall (f 0) (f 1) (f 2) (f 3) (f 4) (f 5) (f 6) (f 7) ⟨j, hj⟩
  refine Eq.trans hbit ?_
  match j, hj with
  | 0, _ | 1, _ | 2, _ | 3, _ | 4, _ | 5, _ | 6, _ | 7, _ => rfl

theorem at_pack {bits : List Bool} (h : 8 ∣ bits.length) : At (pack bits) 0 bits := by
  obtain ⟨n, hn⟩ := h
  have hlen : (pack bits).length = n := by
    simp only [pack, List.length_map, List.length_range]
    omega
  refine ⟨fun k => ?_, by omega⟩
  rw [Nat.zero_add, getBit]
  by_cases hk : k / 8 < n
  · rw [List.getD_eq_getElem?_getD, List.getElem?_eq_getElem (by omega), Option.getD_some]
    simp only [pack, List.getElem_map, List.getElem_range]
    rw [testBit_foldr (fun j => bits.getD (8 * (k / 8) + j) false) (Nat.mod_lt k (by decide)), Nat.div_add_mod]
  · rw [List.getD_eq_getElem?_getD, List.getD_eq_getElem?_getD, List.getElem?_eq_none (by omega), List.getElem?_eq_none (by omega)]
    exact Nat.zero_testBit _

/-- The decompressor gives the expansion of a file exactly where each count takes at most 27 bits and no run of twelve
    bytes lies so far behind that it is taken for the end marker. -/
theorem decompress_iff {gs : List Group} {out : Bytes} (he : expansion gs = some out) {pad : List Bool} (hpad : pad.length < 8)
    (hbytes : 8 ∣ (fileBits gs pad).length) {outLen : Nat} (hlen : out.length ≤ outLen) :
    decompress (pack (fileBits gs pad)) outLen = .ok out ↔ Decoded ((fileBits gs pad).length / 8) 0 gs := by
  have hat := at_pack hbytes
  have hsize : (pack (fileBits gs pad)).length = (fileBits gs pad).length / 8 := by
    have := hat.length
    omega
  obtain ⟨⟨out', last⟩, hfold, rfl⟩ := Option.map_eq_some_iff.mp he
  rw [← hsize]
  exact decompressLoop_iff hat hpad reaches_start hfold hlen

/-- A file that is a run of twelve bytes. -/
theorem decompress_twelve : expansion [.run (List.replicate 12 65)] = some (List.replicate 12 65) ∧
    decompress (pack (fileBits [.run (List.replicate 12 65)] [])) 12 ≠ .ok (List.replicate 12 65) := by
  obtain ⟨bs, hbs⟩ : ∃ bs : Bytes, bs = List.replicate 12 65 := ⟨_, rfl⟩
  rw [← hbs]
  have htwelve : bs.length = 12 := by rw [hbs, List.length_replicate]
  have hlen : (fileBits [.run bs] []).length = 120 := by
    simp only [fileBits, Group.bits, endMarker, List.flatMap_cons, List.flatMap_nil, List.append_nil, List.length_append,
      List.length_cons, length_flatMap_byteBits, htwelve, Nat.sub_self, length_countBits_zero]
  have hat := at_pack (show 8 ∣ (fileBits [.run bs] []).length by rw [hlen]; decide)
  have hsize : (pack (fileBits [.run bs] [])).length = 15 := by
    have := hat.length
    omega
  have he : Group.expand ([], none) (.run bs) = some (bs, none) := by simp [Group.expand, htwelve]
  refine ⟨by simp [expansion, he], fun h => ?_⟩
  have hfold : [Group.run bs].foldlM Group.expand ([], none) = some (bs, none) := by simp [he]
  have hdecoded := (decompressLoop_iff hat (by decide) reaches_start hfold (Nat.le_of_eq htwelve)).mp h
  have htold := hdecoded.1.2 htwelve
  rw [hsize] at htold
  exact absurd htold (by decide)

theorem decompress_overlap :
    decompress (pack (fileBits [.literal 65, .copy 1 5] (List.replicate 7 false))) 6 = .ok (List.replicate 6 65) := by
  have hone : (countBits 4 1).length = 5 := by simp [countBits]
  have hthree : (countBits 0 3).length = 5 := by simp [countBits]
  refine (decompress_iff rfl (by decide) ?_ (by decide)).mpr ⟨⟨trivial, trivial⟩, ⟨⟨?_, ?_⟩, trivial⟩, trivial⟩
  · simp [fileBits, Group.bits, endMarker, length_countBits_zero, byteBits, hone, hthree]
  · rw [hone]
    decide
  · rw [hthree]
    decide

end RainWrt.Mikrotik.Lz77
