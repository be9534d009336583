import RainWrt.Mikrotik.Lz77.Memory
import RainWrt.Theorems.Mikrotik.Lz77

/-! Where the decompressor stays inside its buffers: exactly where each group that it reaches lies in the input and has room in the
    output. -/

namespace RainWrt.Mikrotik.Lz77

/-! ### The bits of the input -/

def unpack (input : Bytes) : List Bool := (List.range (input.length * 8)).map (getBit input)

@[simp] theorem length_unpack (input : Bytes) : (unpack input).length = input.length * 8 := by simp [unpack]

section
variable {input : Bytes} {pos : Nat} {bits rest : List Bool}

theorem at_unpack (input : Bytes) : At input 0 (unpack input) := by
  refine ⟨fun k => ?_, by simp⟩
  rw [Nat.zero_add, List.getD_eq_getElem?_getD]
  by_cases hk : k < input.length * 8
  · simp [unpack, List.getElem?_range hk]
  · rw [List.getElem?_eq_none (by simpa using hk), getBit, List.getD_eq_getElem?_getD, List.getElem?_eq_none (by omega)]
    exact Nat.zero_testBit _

/-! ### Counts -/

theorem lowBits_inj {s n m : Nat} (h : lowBits s n = lowBits s m) : n % 2 ^ s = m % 2 ^ s := by
  induction s with
  | zero => simp [Nat.mod_one]
  | succ s ih =>
    obtain ⟨hbit, hrest⟩ := List.cons.inj h
    rw [mod_two_pow_succ, mod_two_pow_succ, ih hrest, hbit]

/-- Any bits are the lowest ones of a number. -/
theorem exists_lowBits (bits : List Bool) : ∃ n < 2 ^ bits.length, lowBits bits.length n = bits := by
  induction bits with
  | nil => exact ⟨0, by simp, rfl⟩
  | cons b bits ih =>
    obtain ⟨n, hn, hbits⟩ := ih
    have hlow : ∀ s (k : Nat), s ≤ bits.length → lowBits s (n + 2 ^ bits.length * k) = lowBits s n := by
      intro s k hs
      induction s with
      | zero => rfl
      | succ s ihs =>
        rw [lowBits, lowBits, ihs (by omega), Nat.add_comm, Nat.testBit_two_pow_mul_add _ hn, if_pos (by omega)]
    refine ⟨n + 2 ^ bits.length * b.toNat, ?_, ?_⟩
    · rw [List.length_cons, Nat.pow_succ]
      cases b <;> simp <;> omega
    · rw [List.length_cons, lowBits, hlow _ _ (Nat.le_refl _), hbits, Nat.add_comm, Nat.testBit_two_pow_mul_add _ hn,
        if_neg (Nat.lt_irrefl _), Nat.sub_self]
      cases b <;> rfl

/-- No count is the start of another one. -/
theorem countBits_inj {s n m : Nat} {r t : List Bool} (h : countBits s n ++ r = countBits s m ++ t) : n = m ∧ r = t := by
  induction s, n using countBits.induct generalizing m with
  | case1 s n hn =>
    rw [countBits, if_pos hn] at h
    by_cases hm : m < 2 ^ s
    · rw [countBits, if_pos hm] at h
      obtain ⟨hbits, hrest⟩ := List.append_inj (List.cons.inj h).2 (by simp)
      have := lowBits_inj hbits
      rw [Nat.mod_eq_of_lt hn, Nat.mod_eq_of_lt hm] at this
      exact ⟨this, hrest⟩
    · rw [countBits, if_neg hm] at h
      cases (List.cons.inj h).1
  | case2 s n hn ih =>
    rw [countBits, if_neg hn] at h
    by_cases hm : m < 2 ^ s
    · rw [countBits.eq_def s m, if_pos hm] at h
      cases (List.cons.inj h).1
    · rw [countBits.eq_def s m, if_neg hm] at h
      obtain ⟨heq, hrest⟩ := ih (List.cons.inj h).2
      exact ⟨by omega, hrest⟩

/-- The loop does not come to the end of a count within fewer bits. -/
theorem decodeCountLoop_short {start s c f : Nat} (hf : f < s + 1) :
    decodeCountLoop input start f pos s c false = .error .efbig := by
  induction f generalizing pos s c with
  | zero => rfl
  | succ f ih =>
    rw [decodeCountLoop, Bool.false_and]
    simp only [Bool.false_eq_true, if_false]
    rw [if_neg (by omega), ih (by omega)]

/-- Where the loop returns a count, its bits are there. -/
theorem decodeCountLoop_sound (start : Nat) {s c f : Nat} (hf : f ≤ bits.length) (h : At input pos bits) :
    decodeCountLoop input start f pos s c true = .error .efbig ∨
      ∃ n tail, bits = countBits s n ++ tail ∧ (countBits s n).length ≤ f := by
  induction bits generalizing pos s c f with
  | nil =>
    obtain rfl : f = 0 := by simpa using hf
    exact Or.inl rfl
  | cons b bits ih =>
    cases f with
    | zero => exact Or.inl rfl
    | succ f =>
      rw [List.length_cons] at hf
      rw [decodeCountLoop, h.head]
      cases b with
      | true =>
        rw [Bool.and_true, if_pos rfl, if_pos rfl]
        rcases ih (s := s + 1) (c := c + 2 ^ s) (Nat.le_of_succ_le_succ hf) h.tail with herr | ⟨n, tail, rfl, hlen⟩
        · exact Or.inl herr
        · have hbits : countBits s (n + 2 ^ s) = true :: countBits (s + 1) n := by
            rw [countBits, if_neg (by omega), Nat.add_sub_cancel]
          exact Or.inr ⟨n + 2 ^ s, tail, by rw [hbits]; rfl, by rw [hbits, List.length_cons]; omega⟩
      | false =>
        simp only [Bool.and_false, Bool.false_eq_true, if_false]
        by_cases hs : s ≤ f
        · obtain ⟨n, hn, hlow⟩ := exists_lowBits (bits.take s)
          have hlen : (bits.take s).length = s := by
            rw [List.length_take]
            omega
          rw [hlen] at hn hlow
          have hbits : countBits s n = false :: bits.take s := by rw [countBits, if_pos hn, hlow]
          refine Or.inr ⟨n, bits.drop s, ?_, ?_⟩
          · rw [hbits, List.cons_append, List.take_append_drop]
          · rw [hbits, List.length_cons, hlen]
            omega
        · rw [if_neg (by omega), decodeCountLoop_short (by omega)]
          exact Or.inl rfl

/-- A count is decoded where its bits are there, and nothing else is. -/
theorem decodeCount_cases (s c : Nat) (h : At input pos bits) :
    (decodeCount input pos s c maxCountBitLen = .error .efbig ∧
        ∀ n tail, bits = countBits s n ++ tail → ¬(countBits s n).length ≤ maxCountBitLen) ∨
      ∃ n tail, bits = countBits s n ++ tail ∧ (countBits s n).length ≤ maxCountBitLen ∧
        decodeCount input pos s c maxCountBitLen = .ok (c + n, (countBits s n).length) := by
  have hlen := h.length
  rcases decodeCountLoop_sound pos (s := s) (c := c) (f := min (pos + maxCountBitLen) (input.length * 8) - pos) (by omega) h with herr | ⟨n, tail, rfl, hn⟩
  · refine Or.inl ⟨herr, ?_⟩
    rintro n tail rfl hn
    have hok := decodeCount_eq h (c := c)
    rw [if_pos hn, decodeCount, herr] at hok
    cases hok
  · have hle : (countBits s n).length ≤ maxCountBitLen := by omega
    refine Or.inr ⟨n, tail, rfl, hle, ?_⟩
    rw [decodeCount_eq h, if_pos hle]

theorem byteBits_inj {b b' : UInt8} (h : byteBits b = byteBits b') : b = b' := by
  have hmod := lowBits_inj h
  rw [Nat.mod_eq_of_lt b.toNat_lt, Nat.mod_eq_of_lt b'.toNat_lt] at hmod
  exact UInt8.toNat_inj.mp hmod

theorem exists_byteBits (h : bits.length = 8) : ∃ b, byteBits b = bits := by
  obtain ⟨n, hn, hbits⟩ := exists_lowBits bits
  rw [h] at hn hbits
  refine ⟨.ofNat n, ?_⟩
  rw [byteBits, UInt8.toNat_ofNat', Nat.mod_eq_of_lt hn, hbits]

theorem bytesBits_inj {bs cs : Bytes} (hlen : bs.length = cs.length) (h : bs.flatMap byteBits = cs.flatMap byteBits) : bs = cs := by
  induction bs generalizing cs with
  | nil => exact (List.length_eq_zero_iff.mp hlen.symm).symm
  | cons b bs ih =>
    cases cs with
    | nil => cases hlen
    | cons c cs =>
      rw [List.flatMap_cons, List.flatMap_cons] at h
      obtain ⟨hb, hrest⟩ := List.append_inj h (by simp [byteBits])
      rw [byteBits_inj hb, ih (Nat.succ.inj hlen) hrest]

theorem exists_bytesBits {n : Nat} (h : bits.length = 8 * n) : ∃ bs : Bytes, bs.length = n ∧ bs.flatMap byteBits = bits := by
  induction n generalizing bits with
  | zero => exact ⟨[], rfl, (List.length_eq_zero_iff.mp h).symm⟩
  | succ n ih =>
    have hfirst : (bits.take 8).length = 8 := by rw [List.length_take]; omega
    have hothers : (bits.drop 8).length = 8 * n := by rw [List.length_drop]; omega
    obtain ⟨b, hb⟩ := exists_byteBits hfirst
    obtain ⟨bs, hbs, hrest⟩ := ih hothers
    exact ⟨b :: bs, by rw [List.length_cons, hbs], by rw [List.flatMap_cons, hb, hrest, List.take_append_drop]⟩

/-! ### Groups -/

/-- The format has bits for the group. -/
def Group.Valid : Group → Prop
  | .literal _ => True
  | .run bs => 12 ≤ bs.length
  | .copy offset length => 0 < offset ∧ 2 ≤ length
  | .again length => 1 ≤ length

theorem valid_of_expand {g : Group} {s t : Bytes × Option Nat} (h : g.expand s = some t) : g.Valid := by
  obtain ⟨out, last⟩ := s
  cases g with
  | literal b => trivial
  | run bs =>
    simp only [Group.expand] at h
    split_ifs at h with hlen
    exact hlen
  | copy offset length =>
    simp only [Group.expand] at h
    split_ifs at h with hlen
    exact ⟨hlen.1, hlen.2.2⟩
  | again length =>
    cases last with
    | none => cases h
    | some offset =>
      simp only [Group.expand] at h
      split_ifs at h with hlen
      exact hlen

/-- No group is the start of another one. -/
theorem group_inj {g g' : Group} {r t : List Bool} (hv : g.Valid) (hv' : g'.Valid) (h : g.bits ++ r = g'.bits ++ t) :
    g = g' ∧ r = t := by
  cases g with
  | literal b =>
    cases g' with
    | literal b' =>
      obtain ⟨hb, hrest⟩ := List.append_inj (List.cons.inj h).2 (by simp [byteBits])
      rw [byteBits_inj hb]
      exact ⟨rfl, hrest⟩
    | run _ | copy _ _ | again _ => cases (List.cons.inj h).1
  | run bs =>
    cases g' with
    | run bs' =>
      simp only [Group.bits, List.cons_append, List.append_assoc, List.cons.injEq, true_and] at h
      obtain ⟨-, h⟩ := countBits_inj h
      obtain ⟨hcount, h⟩ := countBits_inj h
      simp only [Group.Valid] at hv hv'
      have hlen : bs.length = bs'.length := by omega
      obtain ⟨hbytes, hrest⟩ := List.append_inj h (by rw [length_flatMap_byteBits, length_flatMap_byteBits, hlen])
      rw [bytesBits_inj hlen hbytes]
      exact ⟨rfl, hrest⟩
    | copy offset length =>
      simp only [Group.bits, List.cons_append, List.append_assoc, List.cons.injEq, true_and] at h
      obtain ⟨hzero, -⟩ := countBits_inj h
      exact absurd hzero (Nat.ne_of_lt hv'.1)
    | literal _ => cases (List.cons.inj h).1
    | again _ => cases (List.cons.inj (List.cons.inj h).2).1
  | copy offset length =>
    cases g' with
    | copy offset' length' =>
      simp only [Group.bits, List.cons_append, List.append_assoc, List.cons.injEq, true_and] at h
      obtain ⟨rfl, hlength⟩ := countBits_inj h
      obtain ⟨hcount, hrest⟩ := countBits_inj hlength
      have hle := hv.2
      have hle' := hv'.2
      obtain rfl : length = length' := by omega
      exact ⟨rfl, hrest⟩
    | run bs =>
      simp only [Group.bits, List.cons_append, List.append_assoc, List.cons.injEq, true_and] at h
      obtain ⟨hzero, -⟩ := countBits_inj h
      exact absurd hzero (Nat.ne_of_gt hv.1)
    | literal _ => cases (List.cons.inj h).1
    | again _ => cases (List.cons.inj (List.cons.inj h).2).1
  | again length =>
    cases g' with
    | again length' =>
      simp only [Group.bits, List.cons_append, List.cons.injEq, true_and] at h
      obtain ⟨hcount, hrest⟩ := countBits_inj h
      simp only [Group.Valid] at hv hv'
      obtain rfl : length = length' := by omega
      exact ⟨rfl, hrest⟩
    | literal _ => cases (List.cons.inj h).1
    | run _ | copy _ _ => cases (List.cons.inj (List.cons.inj h).2).1

end

namespace Memory

/-! ### Reading -/

section
variable {input : Bytes} {pos : Nat} {bits rest : List Bool}

theorem getBit_ok (h : pos < input.length * 8) : getBit input pos = .ok (Lz77.getBit input pos) := if_pos (by omega)

theorem getBit_outside (h : input.length * 8 ≤ pos) : getBit input pos = .error .readInput := if_neg (by omega)

/-- A step that may stop at each element, and only in one way. -/
theorem foldlM_stop {α β : Type} {e : Stop} {p : α → Prop} [DecidablePred p] {f : β → α → Except Stop β} {g : β → α → β}
    (h : ∀ b a, f b a = if p a then .ok (g b a) else .error e) (l : List α) (b : β) :
    l.foldlM f b = if ∀ a ∈ l, p a then .ok (l.foldl g b) else .error e := by
  induction l generalizing b with
  | nil => simp [pure, Except.pure]
  | cons a l ih =>
    rw [List.foldlM_cons, h]
    by_cases ha : p a
    · rw [if_pos ha]
      refine Eq.trans (ih (g b a)) ?_
      simp [ha]
    · rw [if_neg ha, if_neg fun hall => ha (hall a List.mem_cons_self)]
      rfl

theorem getByte_ite (input : Bytes) (pos : Nat) :
    getByte input pos = if pos + 8 ≤ input.length * 8 then .ok (Lz77.getByte input pos) else .error .readInput := by
  have hstep : ∀ (buf : UInt8) (i : Nat), (do return buf + (← getBit input (pos + i)).toUInt8 <<< .ofNat (7 - i) : Except Stop UInt8) =
      if pos + i < input.length * 8 then .ok (buf + (Lz77.getBit input (pos + i)).toUInt8 <<< .ofNat (7 - i))
      else .error .readInput := by
    intro buf i
    by_cases hi : pos + i < input.length * 8
    · rw [getBit_ok hi, if_pos hi]
      rfl
    · rw [getBit_outside (Nat.le_of_not_lt hi), if_neg hi]
      rfl
  rw [getByte, foldlM_stop hstep]
  by_cases h : pos + 8 ≤ input.length * 8
  · rw [if_pos h, if_pos]
    · rfl
    · intro i hi
      have := List.mem_range.mp hi
      omega
  · rw [if_neg h, if_neg]
    intro hall
    have := hall 7 (by decide)
    omega

/-- The bits of a count are checked against the end of the input. -/
theorem decodeCountLoop_eq {start s c f : Nat} {up : Bool} (h : pos + f ≤ input.length * 8) :
    decodeCountLoop input start f pos s c up = (Lz77.decodeCountLoop input start f pos s c up).mapError .errno := by
  induction f generalizing pos s c up with
  | zero => rfl
  | succ f ih =>
    rw [decodeCountLoop, Lz77.decodeCountLoop, getBit_ok (by omega)]
    show (if (up && Lz77.getBit input pos) = true then _ else _) = _
    cases (up && Lz77.getBit input pos) with
    | true =>
      rw [if_pos rfl, if_pos rfl]
      exact ih (by omega)
    | false =>
      simp only [Bool.false_eq_true, if_false]
      by_cases hs : s = 0
      · rw [if_pos hs, if_pos hs]
        rfl
      · rw [if_neg hs, if_neg hs]
        exact ih (by omega)

theorem decodeCount_eq {s c n : Nat} (h : pos ≤ input.length * 8) :
    decodeCount input pos s c n = (Lz77.decodeCount input pos s c n).mapError .errno :=
  decodeCountLoop_eq (by omega)

theorem decodeLongLength_eq {offset : Nat} (h : pos ≤ input.length * 8) :
    decodeLongLength input pos offset = (Lz77.decodeLongLength input pos offset).mapError .errno := by
  unfold decodeLongLength Lz77.decodeLongLength
  split_ifs
  · exact decodeCount_eq h
  · exact decodeCount_eq h

/-- A count ends in the input. -/
theorem decodeCount_le {s c n v used : Nat} (h : Lz77.decodeCount input pos s c n = .ok (v, used)) (hpos : pos ≤ input.length * 8) :
    pos + used ≤ input.length * 8 := by
  have hrun : ∀ f p s c up, pos ≤ p → Lz77.decodeCountLoop input pos f p s c up = .ok (v, used) → pos + used ≤ p + f := by
    intro f
    induction f with
    | zero =>
      intro p s c up _ h
      cases h
    | succ f ih =>
      intro p s c up hp h
      simp only [Lz77.decodeCountLoop] at h
      split at h
      · have := ih (p + 1) _ _ _ (by omega) h
        omega
      · split at h
        · cases h
          omega
        · have := ih (p + 1) _ _ _ (by omega) h
          omega
  have := hrun _ _ _ _ _ (Nat.le_refl _) h
  omega

/-- An instruction of which a bit is behind the end of the input. -/
theorem decodeInstructionOperators_outside (previous : Nat) (h : At input pos bits) (hbits : bits = [] ∨ bits = [true]) :
    decodeInstructionOperators input pos previous = .error .readInput := by
  have hlen := h.length
  rcases hbits with rfl | rfl
  · rw [decodeInstructionOperators, decodeInstruction, getBit_outside (by simp at hlen; omega)]
    rfl
  · rw [List.length_singleton] at hlen
    rw [decodeInstructionOperators, decodeInstruction, getBit_ok (by omega), h.head]
    show ((getBit input (pos + 1)).bind _).bind _ = _
    rw [getBit_outside (by omega)]
    rfl

/-- All other instructions are read inside. -/
theorem decodeInstruction_inside (h : At input pos bits) (hbits : bits ≠ []) (hone : bits ≠ [true]) :
    decodeInstruction input pos = .ok (Lz77.decodeInstruction input pos) ∧
      (Lz77.decodeInstruction input pos ≠ .literalByte → pos + 2 ≤ input.length * 8) := by
  have hlen := h.length
  match bits, hbits, hone with
  | false :: rest, _, _ =>
    rw [List.length_cons] at hlen
    rw [decodeInstruction, Lz77.decodeInstruction, getBit_ok (by omega), h.head]
    exact ⟨rfl, fun hne => absurd rfl hne⟩
  | true :: b :: rest, _, _ =>
    rw [List.length_cons, List.length_cons] at hlen
    refine ⟨?_, fun _ => by omega⟩
    rw [decodeInstruction, Lz77.decodeInstruction, getBit_ok (by omega), h.head]
    show (getBit input (pos + 1)).bind _ = _
    rw [getBit_ok (by omega), h.tail.head]
    cases b <;> rfl

theorem decodeInstructionOperators_inside (previous : Nat) (h : At input pos bits) (hbits : bits ≠ []) (hone : bits ≠ [true]) :
    decodeInstructionOperators input pos previous = (Lz77.decodeInstructionOperators input pos previous).mapError .errno := by
  obtain ⟨hins, hlen⟩ := decodeInstruction_inside h hbits hone
  rw [decodeInstructionOperators, Lz77.decodeInstructionOperators, hins]
  cases hd : Lz77.decodeInstruction input pos with
  | literalByte => rfl
  | previousOffset =>
    have hle := hlen (by rw [hd]; decide)
    show (decodeCount input (pos + 2) 0 1 maxCountBitLen).bind _ =
      Except.mapError Stop.errno ((Lz77.decodeCount input (pos + 2) 0 1 maxCountBitLen).bind _)
    rw [decodeCount_eq hle]
    cases Lz77.decodeCount input (pos + 2) 0 1 maxCountBitLen <;> rfl
  | long =>
    have hle := hlen (by rw [hd]; decide)
    show (decodeCount input (pos + 2) 4 0 maxCountBitLen).bind _ =
      Except.mapError Stop.errno ((Lz77.decodeCount input (pos + 2) 4 0 maxCountBitLen).bind _)
    rw [decodeCount_eq hle]
    cases hoffset : Lz77.decodeCount input (pos + 2) 4 0 maxCountBitLen with
    | error e => rfl
    | ok v =>
      obtain ⟨offset, offsetBits⟩ := v
      have hle' := decodeCount_le hoffset hle
      show (decodeLongLength input (pos + (2 + offsetBits)) offset).bind _ =
        Except.mapError Stop.errno ((Lz77.decodeLongLength input (pos + (2 + offsetBits)) offset).bind _)
      rw [decodeLongLength_eq (by omega)]
      cases Lz77.decodeLongLength input (pos + (2 + offsetBits)) offset <;> rfl

end

/-! ### Writing -/

/-- The output buffer of this size begins with these bytes, which were written one after the other. -/
structure Holds (size : Nat) (out : Bytes) (o : Output) : Prop where
  length : o.buf.length = size
  le : out.length ≤ size
  ptr : o.ptr = out.length
  taken : o.buf.take o.ptr = out
  writes : o.writes = List.range o.ptr

section
variable {input out : Bytes} {size : Nat} {o : Output}

theorem Holds.put (h : Holds size out o) (b : UInt8) (hlt : out.length < size) :
    ∃ o', o.put b = .ok o' ∧ Holds size (out ++ [b]) o' := by
  have hptr : o.ptr < o.buf.length := by rw [h.ptr, h.length]; exact hlt
  have hlen : (o.buf.take o.ptr).length = o.ptr := List.length_take_of_le (Nat.le_of_lt hptr)
  refine ⟨_, if_pos hptr, by simp [h.length], by simp; omega, by simp [h.ptr], ?_, ?_⟩
  · show (o.buf.set o.ptr b).take (o.ptr + 1) = out ++ [b]
    rw [List.set_eq_take_append_cons_drop, if_pos hptr, List.take_append, hlen, Nat.add_sub_cancel_left, h.taken,
      List.take_of_length_le (by rw [h.ptr]; omega)]
    rfl
  · show o.writes ++ [o.ptr] = List.range (o.ptr + 1)
    rw [h.writes, List.range_succ]

theorem Holds.put_full (h : Holds size out o) (b : UInt8) (hle : size ≤ out.length) : o.put b = .error .writeOutput :=
  if_neg (by rw [h.ptr, h.length]; omega)

theorem Holds.copy (h : Holds size out o) {offset n : Nat} (ho : offset ≤ out.length) (hn : n ≤ offset)
    (hlen : out.length + n ≤ size) :
    ∃ o', o.copy offset n = .ok o' ∧ Holds size (out ++ slice out (out.length - offset) n) o' := by
  by_cases hzero : n = 0
  · refine ⟨o, if_pos hzero, ?_⟩
    rw [hzero]
    simpa [slice] using h
  · have hbuf : o.ptr + n ≤ o.buf.length := by rw [h.ptr, h.length]; exact hlen
    have hslice : slice o.buf (o.ptr - offset) n = slice out (out.length - offset) n := by
      rw [← h.ptr, slice, slice, ← h.taken, List.drop_take, List.take_take, Nat.min_eq_left]
      rw [h.ptr]
      omega
    have hsize : (slice o.buf (o.ptr - offset) n).length = n := by
      rw [slice, List.length_take, List.length_drop, h.ptr]
      rw [h.ptr] at hbuf
      omega
    have htake : (o.buf.take o.ptr).length = o.ptr := List.length_take_of_le (by omega)
    refine ⟨_, by rw [Output.copy, if_neg hzero, if_neg (by rw [h.ptr]; omega), if_neg (by omega)], ?_, ?_, ?_, ?_, ?_⟩
    · show (writeAt _ _ _).length = size
      rw [length_writeAt (by rw [hsize]; exact hbuf), h.length]
    · rw [List.length_append, ← hslice, hsize]
      exact hlen
    · show o.ptr + n = _
      rw [List.length_append, ← hslice, hsize, h.ptr]
    · show (writeAt _ _ _).take (o.ptr + n) = _
      rw [writeAt, List.take_append_of_le_length (Nat.le_of_eq (by rw [List.length_append, htake, hsize])), h.taken, hslice,
        List.take_of_length_le (Nat.le_of_eq (by rw [List.length_append, ← hslice, hsize, h.ptr]))]
    · show o.writes ++ _ = _
      rw [h.writes, List.range_add]

theorem Holds.copyMatch {n : Nat} (h : Holds size out o) {offset : Nat} (hpos : 0 < offset) (ho : offset ≤ out.length)
    (hlen : out.length + n ≤ size) :
    ∃ o', Memory.copyMatch o offset hpos n = .ok o' ∧ Holds size (Lz77.copyMatch out offset hpos n) o' := by
  induction n using Nat.strongRecOn generalizing o out with
  | ind n ih =>
    rw [Memory.copyMatch, Lz77.copyMatch]
    by_cases hlt : offset < n
    · obtain ⟨o₁, h₁, hholds⟩ := h.copy ho (Nat.le_refl offset) (by omega)
      have hsize : (out ++ slice out (out.length - offset) offset).length = out.length + offset := by
        rw [List.length_append, slice, List.length_take, List.length_drop]
        omega
      obtain ⟨o₂, h₂, hholds₂⟩ := ih (n - offset) (by omega) hholds (by omega) (by omega)
      rw [if_pos hlt, if_pos hlt, h₁]
      exact ⟨o₂, h₂, hholds₂⟩
    · rw [if_neg hlt, if_neg hlt]
      exact h.copy ho (Nat.le_of_not_lt hlt) hlen

theorem map_range_eight (f : Nat → UInt8) (pos n : Nat) :
    (List.range (n + 1)).map (fun i => f (pos + 8 * i)) = f pos :: (List.range n).map fun i => f (pos + 8 + 8 * i) := by
  rw [List.range_succ_eq_map, List.map_cons, List.map_map]
  refine congrArg _ (List.map_congr_left fun i _ => ?_)
  rw [Function.comp_apply, Nat.succ_eq_add_one, Nat.mul_add_one, Nat.add_comm (8 * i), ← Nat.add_assoc]

/-- Bytes are copied from the input where they lie in it and have room, and not otherwise. -/
theorem Holds.putBytes {n pos : Nat} (h : Holds size out o) (hpos : pos ≤ input.length * 8) :
    (pos + 8 * n ≤ input.length * 8 ∧ out.length + n ≤ size ∧ ∃ o', Memory.putBytes input n pos o = .ok o' ∧
        Holds size (out ++ (List.range n).map fun i => Lz77.getByte input (pos + 8 * i)) o') ∨
      (¬(pos + 8 * n ≤ input.length * 8 ∧ out.length + n ≤ size) ∧
        (Memory.putBytes input n pos o = .error .readInput ∨ Memory.putBytes input n pos o = .error .writeOutput)) := by
  induction n generalizing pos o out with
  | zero => exact Or.inl ⟨hpos, h.le, o, rfl, by simpa using h⟩
  | succ n ih =>
    have hstep : Memory.putBytes input (n + 1) pos o =
        (getByte input pos).bind fun b => (o.put b).bind fun o => Memory.putBytes input n (pos + 8) o := rfl
    rw [getByte_ite] at hstep
    by_cases hread : pos + 8 ≤ input.length * 8
    · rw [if_pos hread] at hstep
      by_cases hlt : out.length < size
      · obtain ⟨o₁, h₁, hholds⟩ := h.put (Lz77.getByte input pos) hlt
        have hbytes : out ++ (List.range (n + 1)).map (fun i => Lz77.getByte input (pos + 8 * i)) =
            out ++ [Lz77.getByte input pos] ++ (List.range n).map fun i => Lz77.getByte input (pos + 8 + 8 * i) := by
          rw [map_range_eight, List.append_assoc, List.singleton_append]
        have hnext := ih hholds hread
        rw [List.length_append, List.length_singleton] at hnext
        simp only [Except.bind, h₁] at hstep
        rw [hstep, hbytes]
        rcases hnext with ⟨hin, hout, o₂, h₂, hholds₂⟩ | ⟨hnot, hstop⟩
        · exact Or.inl ⟨by omega, by omega, o₂, h₂, hholds₂⟩
        · exact Or.inr ⟨fun hall => hnot (by omega), hstop⟩
      · simp only [Except.bind, h.put_full _ (Nat.le_of_not_lt hlt)] at hstep
        exact Or.inr ⟨by omega, Or.inr hstep⟩
    · rw [if_neg hread] at hstep
      exact Or.inr ⟨by omega, Or.inl hstep⟩

end

/-! ### One round -/

/-- The next instruction lies in the input of `size` bytes, with the bytes that follow it, and these have room in the output. -/
def Fits (size room : Nat) : List Bool → Prop
  | [] => False
  | false :: rest => 8 ≤ rest.length ∧ 1 ≤ room
  | [true] => False
  | true :: false :: _ => True
  | true :: true :: rest => ∀ n tail, rest = countBits 4 0 ++ (countBits 4 n ++ tail) → (countBits 4 n).length ≤ maxCountBitLen →
      -- what is taken for the end marker has no bytes
      (n = 0 ∧ size < size * 8 - tail.length + 12 * 8) ∨ (8 * (12 + n) ≤ tail.length ∧ 12 + n ≤ room)

/-- No group that is decoded at the start of the bits has room in the output. -/
def Stuck (inLen size pos : Nat) (out : Bytes) (last : Option Nat) (bits : List Bool) : Prop :=
  ∀ (g : Group) tail s, bits = g.bits ++ tail → g.expand (out, last) = some s → g.Short → g.Told inLen pos → size < s.1.length

/-- What a round does, beside the model that does not look at the accesses. -/
inductive Round (input : Bytes) (size pos : Nat) (out : Bytes) (last : Option Nat) (o : Output) (bits : List Bool) : Prop
  | fault (hfits : ¬Fits input.length (size - out.length) bits)
    (h : decompressLoop input o (last.getD 0) pos = .error .readInput ∨ decompressLoop input o (last.getD 0) pos = .error .writeOutput)
  | fails (e : Errno) (hfits : Fits input.length (size - out.length) bits)
    (hstuck : Stuck input.length size pos out last bits)
    (h : decompressLoop input o (last.getD 0) pos = .error (.errno e))
    (hplain : Lz77.decompressLoop input size out (last.getD 0) pos = .error e)
  | ends (hfits : Fits input.length (size - out.length) bits)
    (hstuck : Stuck input.length size pos out last bits)
    (h : decompressLoop input o (last.getD 0) pos = .ok (o.ptr, o))
    (hplain : Lz77.decompressLoop input size out (last.getD 0) pos = .ok out)
  | next (g : Group) (tail : List Bool) (out' : Bytes) (last' : Option Nat) (o' : Output)
    (hfits : Fits input.length (size - out.length) bits) (hbits : bits = g.bits ++ tail) (hshort : g.Short)
    (htold : g.Told input.length pos) (hexpand : g.expand (out, last) = some (out', last')) (hholds : Holds size out' o')
    (h : decompressLoop input o (last.getD 0) pos = decompressLoop input o' (last'.getD 0) (pos + g.bits.length))

section
variable {input out : Bytes} {size pos : Nat} {last : Option Nat} {o : Output} {bits rest : List Bool}

theorem Holds.ptr_le (h : Holds size out o) : ¬o.ptr > o.buf.length := by
  have hle := h.le
  rw [h.ptr, h.length]
  omega

/-- A round in which nothing is decoded. -/
theorem decompressLoop_error {e : Stop} {matchOffset : Nat} (ho : Holds size out o) (hpos : pos ≤ input.length * 8)
    (hd : decodeInstructionOperators input pos matchOffset = .error e) : decompressLoop input o matchOffset pos = .error e := by
  rw [decompressLoop, if_neg ho.ptr_le, if_neg (by omega), hd]

theorem plain_error {e : Errno} {matchOffset : Nat} (ho : Holds size out o) (hpos : pos ≤ input.length * 8)
    (hd : Lz77.decodeInstructionOperators input pos matchOffset = .error e) :
    Lz77.decompressLoop input size out matchOffset pos = .error e := by
  have hle := ho.le
  rw [Lz77.decompressLoop, if_neg (by omega), if_neg (by omega), hd]

/-- A round for bytes that are copied from the input. -/
theorem decompressLoop_bytes {ins : Instruction} {length used matchOffset : Nat} {hused : 0 < used} (ho : Holds size out o)
    (hpos : pos ≤ input.length * 8) (hins : ins ≠ .previousOffset)
    (hd : decodeInstructionOperators input pos matchOffset = .ok ⟨ins, 0, length, used, hused⟩) :
    decompressLoop input o matchOffset pos =
      if length = 12 ∧ pos + used + length * 8 > input.length then .ok (o.ptr, o)
      else (putBytes input length (pos + used) o).bind fun o => decompressLoop input o matchOffset (pos + used + 8 * length) := by
  rw [decompressLoop, if_neg ho.ptr_le, if_neg (by omega), hd]
  simp only [hins, ne_eq, not_false_eq_true, true_and, if_true]
  split_ifs
  · rfl
  · cases putBytes input length (pos + used) o <;> rfl

/-- A round for a match. -/
theorem decompressLoop_match {ins : Instruction} {offset length used matchOffset : Nat} {hused : 0 < used} (ho : Holds size out o)
    (hpos : pos ≤ input.length * 8) (hoff : 0 < offset)
    (hd : decodeInstructionOperators input pos matchOffset = .ok ⟨ins, offset, length, used, hused⟩) :
    decompressLoop input o matchOffset pos =
      if size < out.length + length then .error (.errno .enobufs)
      else if out.length < offset then .error (.errno .espipe)
      else (copyMatch o offset hoff length).bind fun o =>
        decompressLoop input o (if ins = .long then offset else matchOffset) (pos + used) := by
  rw [decompressLoop, if_neg ho.ptr_le, if_neg (by omega), hd]
  simp only
  rw [if_neg (fun h => Nat.ne_of_gt hoff h.2), dif_neg (Nat.ne_of_gt hoff), ho.ptr, ho.length]
  refine if_congr Iff.rfl rfl (if_congr Iff.rfl rfl ?_)
  cases copyMatch o offset hoff length <;> rfl

/-- An instruction for a match that is not in the output, or has no room. -/
theorem plain_match {ins : Instruction} {offset length used matchOffset : Nat} {hused : 0 < used} (ho : Holds size out o)
    (hpos : pos ≤ input.length * 8) (hoff : 0 < offset)
    (hd : Lz77.decodeInstructionOperators input pos matchOffset = .ok ⟨ins, offset, length, used, hused⟩) :
    (size < out.length + length → Lz77.decompressLoop input size out matchOffset pos = .error .enobufs) ∧
      (¬size < out.length + length → out.length < offset → Lz77.decompressLoop input size out matchOffset pos = .error .espipe) := by
  have hle := ho.le
  rw [Lz77.decompressLoop, if_neg (by omega), if_neg (by omega), hd]
  simp only
  rw [if_neg (fun h => Nat.ne_of_gt hoff h.2), dif_neg (Nat.ne_of_gt hoff)]
  exact ⟨fun h => if_pos h, fun h h' => by rw [if_neg h, if_pos h']⟩

theorem round_literal (ho : Holds size out o) (h : At input pos (false :: rest)) : Round input size pos out last o (false :: rest) := by
  have hlen := h.length
  rw [List.length_cons] at hlen
  have hd := decodeInstructionOperators_inside (last.getD 0) h (by simp) (by simp)
  rw [decode_literal _ h] at hd
  have hround := decompressLoop_bytes ho (by omega) (by decide) hd
  rw [if_neg (by omega)] at hround
  rcases ho.putBytes (n := 1) (show pos + 1 ≤ input.length * 8 by omega) with ⟨hin, hout, o', hput, hholds⟩ | ⟨hnot, hstop⟩
  · have hfirst : (rest.take 8).length = 8 := by rw [List.length_take]; omega
    obtain ⟨b, hb⟩ := exists_byteBits hfirst
    have hbits : false :: rest = (Group.literal b).bits ++ rest.drop 8 := by
      rw [Group.bits, hb, List.cons_append, List.take_append_drop]
    rw [hput] at hround
    refine .next (.literal b) (rest.drop 8) (out ++ [b]) last o' ⟨by omega, by omega⟩ hbits trivial trivial rfl ?_ ?_
    · rw [hbits] at h
      have hbyte := getByte_eq (show At input (pos + 1) (byteBits b ++ rest.drop 8) from h.tail)
      simpa [hbyte] using hholds
    · rw [hround]
      simp [Group.bits, byteBits, Except.bind, Nat.add_assoc]
  · refine .fault (fun hfits => hnot ?_) ?_
    · have hbyte := hfits.1
      have hroom := hfits.2
      omega
    · rcases hstop with hstop | hstop
      · exact Or.inl (by rw [hround, hstop]; rfl)
      · exact Or.inr (by rw [hround, hstop]; rfl)

/-- A match is copied, or the round fails. -/
theorem round_match {ins : Instruction} {offset length used : Nat} {hused : 0 < used} {g : Group} {tail : List Bool}
    (ho : Holds size out o) (hpos : pos ≤ input.length * 8) (hoff : 0 < offset)
    (hd : Lz77.decodeInstructionOperators input pos (last.getD 0) = .ok ⟨ins, offset, length, used, hused⟩)
    (hd' : decodeInstructionOperators input pos (last.getD 0) = .ok ⟨ins, offset, length, used, hused⟩)
    (hfits : Fits input.length (size - out.length) bits) (hbits : bits = g.bits ++ tail) (hvalid : g.Valid) (hshort : g.Short)
    (htold : g.Told input.length pos) (hused' : used = g.bits.length)
    (hexpand : g.expand (out, last) = if offset ≤ out.length then some (copyBytes out offset length, some offset) else none)
    (hlast : (if ins = .long then offset else last.getD 0) = offset) :
    Round input size pos out last o bits := by
  have hround := decompressLoop_match ho hpos hoff hd'
  obtain ⟨hnobufs, hspipe⟩ := plain_match ho hpos hoff hd
  -- the only group that is there
  have honly : ∀ (g' : Group) tail' s, bits = g'.bits ++ tail' → g'.expand (out, last) = some s →
      offset ≤ out.length ∧ s = (copyBytes out offset length, some offset) := by
    intro g' tail' s hbits' hs
    obtain ⟨rfl, -⟩ := group_inj hvalid (valid_of_expand hs) (hbits.symm.trans hbits')
    rw [hexpand] at hs
    split_ifs at hs with hle
    exact ⟨hle, (Option.some.inj hs).symm⟩
  by_cases hfull : size < out.length + length
  · rw [if_pos hfull] at hround
    refine .fails .enobufs hfits (fun g' tail' s hbits' hs _ _ => ?_) hround (hnobufs hfull)
    rw [(honly g' tail' s hbits' hs).2, length_copyBytes]
    exact hfull
  · rw [if_neg hfull] at hround
    by_cases hlt : out.length < offset
    · rw [if_pos hlt] at hround
      exact .fails .espipe hfits (fun g' tail' s hbits' hs _ _ => absurd (honly g' tail' s hbits' hs).1 (Nat.not_le_of_lt hlt)) hround
        (hspipe hfull hlt)
    · have hle := Nat.le_of_not_lt hlt
      obtain ⟨o', hcopy, hholds⟩ := ho.copyMatch hoff hle (Nat.le_of_not_lt hfull)
      rw [copyMatch_eq hoff hle] at hholds
      rw [if_neg hlt, hcopy, hlast, hused'] at hround
      rw [if_pos hle] at hexpand
      exact .next g tail _ (some offset) o' hfits hbits hshort htold hexpand hholds hround

/-- A match with the last offset. -/
theorem round_again (ho : Holds size out o) (hr : Reaches (out, last)) (h : At input pos (true :: false :: rest)) :
    Round input size pos out last o (true :: false :: rest) := by
  have hpos : pos ≤ input.length * 8 := by
    have := h.length
    omega
  have hinside := decodeInstructionOperators_inside (last.getD 0) h (by simp) (by simp)
  -- only such a group is there
  have honly : ∀ (g : Group) tail, true :: false :: rest = g.bits ++ tail → ∃ length, g = .again length ∧ rest = countBits 0 (length - 1) ++ tail := by
    intro g tail hg
    cases g with
    | again length => exact ⟨length, rfl, (List.cons.inj (List.cons.inj hg).2).2⟩
    | literal _ => cases (List.cons.inj hg).1
    | run _ | copy _ _ => cases (List.cons.inj (List.cons.inj hg).2).1
  rcases decodeCount_cases 0 1 h.tail.tail with ⟨herr, hno⟩ | ⟨n, tail, rfl, hshort, -⟩
  · have hd : Lz77.decodeInstructionOperators input pos (last.getD 0) = .error .efbig := by
      simp only [Lz77.decodeInstructionOperators, Lz77.decodeInstruction, h.head, h.tail.head, if_true, Bool.false_eq_true, if_false]
      rw [show pos + 2 = pos + 1 + 1 from rfl, herr]
      rfl
    rw [hd] at hinside
    refine .fails .efbig trivial ?_ (decompressLoop_error ho hpos hinside) (plain_error ho hpos hd)
    intro g tail s hg _ hshort
    obtain ⟨length, rfl, hrest⟩ := honly g tail hg
    exact absurd hshort (hno _ _ hrest)
  · have hd := decode_again (last.getD 0) h
    rw [if_pos hshort] at hd
    rw [hd] at hinside
    cases last with
    | none =>
      have hle := ho.le
      refine .fails .ebadmsg trivial ?_ ?_ ?_
      · intro g tail' s hg hs
        obtain ⟨length, rfl, -⟩ := honly g tail' hg
        cases hs
      · rw [decompressLoop, if_neg ho.ptr_le, if_neg (by omega), hinside]
        rfl
      · rw [Lz77.decompressLoop, if_neg (by omega), if_neg (by omega), hd]
        rfl
    | some offset =>
      have hcount : 1 + n - 1 = n := by omega
      have hbits : true :: false :: (countBits 0 n ++ tail) = (Group.again (1 + n)).bits ++ tail := by
        rw [Group.bits, hcount]
        rfl
      refine round_match ho hpos hr.1 hd hinside trivial hbits ?_ ?_ trivial ?_ ?_ rfl
      · simp only [Group.Valid]
        omega
      · simp only [Group.Short, hcount]
        exact hshort
      · simp only [Group.bits, hcount, List.length_cons]
        omega
      · rw [if_pos hr.2]
        simp [Group.expand]

/-- The groups that a long instruction may begin. -/
theorem long_groups {g : Group} {tail : List Bool} (h : true :: true :: rest = g.bits ++ tail) :
    (∃ bs, g = .run bs ∧ rest = countBits 4 0 ++ (countBits 4 (bs.length - 12) ++ (bs.flatMap byteBits ++ tail))) ∨
      ∃ offset length, g = .copy offset length ∧ rest = countBits 4 offset ++ (countBits 0 (length - 2) ++ tail) := by
  cases g with
  | run bs =>
    simp only [Group.bits, List.cons_append, List.append_assoc] at h
    exact Or.inl ⟨bs, rfl, (List.cons.inj (List.cons.inj h).2).2⟩
  | copy offset length =>
    simp only [Group.bits, List.cons_append, List.append_assoc] at h
    exact Or.inr ⟨offset, length, rfl, (List.cons.inj (List.cons.inj h).2).2⟩
  | literal _ => cases (List.cons.inj h).1
  | again _ => cases (List.cons.inj (List.cons.inj h).2).1

/-- Bytes that are copied from the input. -/
theorem round_run {n : Nat} {tail : List Bool} (ho : Holds size out o) (hshort : (countBits 4 n).length ≤ maxCountBitLen)
    (h : At input pos (true :: true :: (countBits 4 0 ++ (countBits 4 n ++ tail)))) :
    Round input size pos out last o (true :: true :: (countBits 4 0 ++ (countBits 4 n ++ tail))) := by
  have hlen := h.length
  simp only [List.length_cons, List.length_append, length_countBits_zero] at hlen
  have hpos : pos ≤ input.length * 8 := by omega
  have hd := decode_run (last.getD 0) h
  rw [if_pos hshort] at hd
  have hinside := decodeInstructionOperators_inside (last.getD 0) h (by simp) (by simp)
  rw [hd] at hinside
  have hround := decompressLoop_bytes ho hpos (by decide) hinside
  have honly : ∀ n' tail', countBits 4 0 ++ (countBits 4 n ++ tail) = countBits 4 0 ++ (countBits 4 n' ++ tail') → n = n' ∧ tail = tail' :=
    fun n' tail' heq => countBits_inj (countBits_inj heq).2
  have hstart : pos + (2 + 5 + (countBits 4 n).length) = input.length * 8 - tail.length := by omega
  rw [hstart] at hround
  by_cases hmarker : n = 0 ∧ input.length < input.length * 8 - tail.length + 12 * 8
  · have hmarker' : 12 + n = 12 ∧ input.length * 8 - tail.length + (12 + n) * 8 > input.length :=
      ⟨by omega, by rw [hmarker.1]; exact hmarker.2⟩
    rw [if_pos hmarker'] at hround
    refine .ends ?_ ?_ hround ?_
    · intro n' tail' heq _
      obtain ⟨rfl, rfl⟩ := honly n' tail' heq
      exact Or.inl hmarker
    · intro g tail' s hg hs _ htold
      rcases long_groups hg with ⟨bs, rfl, hrest⟩ | ⟨offset, length, rfl, hrest⟩
      · -- a run of twelve bytes is told from the end marker
        obtain ⟨hn, -⟩ := honly _ _ hrest
        have hbs : 12 ≤ bs.length := valid_of_expand hs
        have htwelve : pos + 12 + 12 * 8 ≤ input.length := htold (by omega)
        have hzero' := hmarker.1
        rw [hzero', length_countBits_zero] at hstart
        omega
      · exact absurd (countBits_inj hrest).1 (Nat.ne_of_lt (valid_of_expand hs).1)
    · rw [Lz77.decompressLoop_bytes ho.le hpos (by decide) hd, hstart, if_pos hmarker']
  · have hmarker' : ¬(12 + n = 12 ∧ input.length * 8 - tail.length + (12 + n) * 8 > input.length) := by omega
    rw [if_neg hmarker'] at hround
    rcases ho.putBytes (n := 12 + n) (show input.length * 8 - tail.length ≤ input.length * 8 by omega) with
      ⟨hin, hout, o', hput, hholds⟩ | ⟨hnot, hstop⟩
    · have htail : 8 * (12 + n) ≤ tail.length := by omega
      have htake : (tail.take (8 * (12 + n))).length = 8 * (12 + n) := List.length_take_of_le htail
      obtain ⟨bs, hbs, hbytes⟩ := exists_bytesBits htake
      have hcount : bs.length - 12 = n := by omega
      have hbits : true :: true :: (countBits 4 0 ++ (countBits 4 n ++ tail)) = (Group.run bs).bits ++ tail.drop (8 * (12 + n)) := by
        simp only [Group.bits, hcount, hbytes, List.cons_append, List.append_assoc, List.take_append_drop]
      have hread : (List.range (12 + n)).map (fun i => Lz77.getByte input (input.length * 8 - tail.length + 8 * i)) = bs := by
        have hat : At input (pos + 1 + 1 + (countBits 4 0).length + (countBits 4 n).length)
            (bs.flatMap byteBits ++ tail.drop (8 * (12 + n))) := by
          rw [hbytes, List.take_append_drop]
          exact h.tail.tail.skip.skip
        have hmap := map_getByte_eq hat
        rw [hbs, length_countBits_zero] at hmap
        rwa [← hstart, show pos + (2 + 5 + (countBits 4 n).length) = pos + 1 + 1 + 5 + (countBits 4 n).length by omega]
      rw [hread] at hholds
      rw [hput] at hround
      refine .next (.run bs) _ (out ++ bs) last o' ?_ hbits ?_ ?_ ?_ hholds ?_
      · intro n' tail' heq _
        obtain ⟨rfl, rfl⟩ := honly n' tail' heq
        exact Or.inr ⟨htail, by omega⟩
      · simp only [Group.Short, hcount]
        exact hshort
      · intro htwelve
        have hn : n = 0 := by omega
        have hle : ¬input.length < input.length * 8 - tail.length + 12 * 8 := fun hlt => hmarker ⟨hn, hlt⟩
        rw [hn, length_countBits_zero] at hstart
        omega
      · simp only [Group.expand]
        rw [if_pos (by omega)]
      · rw [hround]
        have hend : input.length * 8 - tail.length + 8 * (12 + n) = pos + (Group.run bs).bits.length := by
          simp only [Group.bits, List.length_cons, List.length_append, length_flatMap_byteBits, length_countBits_zero, hcount]
          omega
        rw [← hend]
        rfl
    · refine .fault (fun hfits => ?_) ?_
      · rcases hfits n tail rfl hshort with hm | ⟨hle, hroom⟩
        · exact hmarker hm
        · exact hnot ⟨by omega, by omega⟩
      · rcases hstop with hstop | hstop
        · exact Or.inl (by rw [hround, hstop]; rfl)
        · exact Or.inr (by rw [hround, hstop]; rfl)

theorem round_long (ho : Holds size out o) (h : At input pos (true :: true :: rest)) :
    Round input size pos out last o (true :: true :: rest) := by
  have hpos : pos ≤ input.length * 8 := by
    have := h.length
    omega
  have hinside := decodeInstructionOperators_inside (last.getD 0) h (by simp) (by simp)
  have hoperators : Lz77.decodeInstructionOperators input pos (last.getD 0) =
      (Lz77.decodeCount input (pos + 1 + 1) 4 0 maxCountBitLen).bind fun v =>
        (Lz77.decodeLongLength input (pos + (2 + v.2)) v.1).bind fun w => .ok ⟨.long, v.1, w.1, 2 + v.2 + w.2, by omega⟩ := by
    simp only [Lz77.decodeInstructionOperators, Lz77.decodeInstruction, h.head, h.tail.head, if_true]
    rfl
  rcases decodeCount_cases 4 0 h.tail.tail with ⟨herr, hno⟩ | ⟨offset, rest₁, rfl, hoff, hok⟩
  · rw [herr] at hoperators
    rw [hoperators] at hinside
    refine .fails .efbig ?_ ?_ (decompressLoop_error ho hpos hinside) (plain_error ho hpos hoperators)
    · intro n tail heq _
      exact absurd (by rw [length_countBits_zero]; decide) (hno 0 _ heq)
    · intro g tail s hg _ hshort
      rcases long_groups hg with ⟨bs, rfl, hrest⟩ | ⟨offset, length, rfl, hrest⟩
      · exact absurd (by rw [length_countBits_zero]; decide) (hno 0 _ hrest)
      · exact absurd hshort.1 (hno _ _ hrest)
  · have hat := h.tail.tail.skip
    -- the length of the group is not decoded
    have hfail : ∀ s c, (∀ p, Lz77.decodeLongLength input p offset = Lz77.decodeCount input p s c maxCountBitLen) →
        Lz77.decodeCount input (pos + 1 + 1 + (countBits 4 offset).length) s c maxCountBitLen = .error .efbig →
        Lz77.decodeInstructionOperators input pos (last.getD 0) = .error .efbig := by
      intro s c hlong herr
      rw [hoperators, hok]
      show (Lz77.decodeLongLength input (pos + (2 + (countBits 4 offset).length)) (0 + offset)).bind _ = _
      rw [Nat.zero_add, hlong, show pos + (2 + (countBits 4 offset).length) = pos + 1 + 1 + (countBits 4 offset).length by omega, herr]
      rfl
    by_cases hzero : offset = 0
    · subst hzero
      rcases decodeCount_cases 4 12 hat with ⟨herr, hno⟩ | ⟨n, tail, rfl, hn, -⟩
      · have hd := hfail 4 12 (fun p => rfl) herr
        rw [hd] at hinside
        refine .fails .efbig ?_ ?_ (decompressLoop_error ho hpos hinside) (plain_error ho hpos hd)
        · intro n tail heq hn
          exact absurd hn (hno n tail (countBits_inj heq).2)
        · intro g tail s hg hs hshort
          rcases long_groups hg with ⟨bs, rfl, hrest⟩ | ⟨offset, length, rfl, hrest⟩
          · exact absurd hshort (hno _ _ (countBits_inj hrest).2)
          · exact absurd (countBits_inj hrest).1 (Nat.ne_of_lt (valid_of_expand hs).1)
      · exact round_run ho hn h
    · have hpositive := Nat.pos_of_ne_zero hzero
      have hfits : Fits input.length (size - out.length) (true :: true :: (countBits 4 offset ++ rest₁)) :=
        fun n tail heq _ => absurd (countBits_inj heq).1 hzero
      rcases decodeCount_cases 0 2 hat with ⟨herr, hno⟩ | ⟨n, tail, rfl, hn, -⟩
      · have hd := hfail 0 2 (fun p => by rw [Lz77.decodeLongLength, if_neg hzero]) herr
        rw [hd] at hinside
        refine .fails .efbig hfits ?_ (decompressLoop_error ho hpos hinside) (plain_error ho hpos hd)
        intro g tail s hg hs hshort
        rcases long_groups hg with ⟨bs, rfl, hrest⟩ | ⟨offset', length, rfl, hrest⟩
        · exact absurd (countBits_inj hrest).1 hzero
        · obtain ⟨rfl, hlength⟩ := countBits_inj hrest
          exact absurd hshort.2 (hno _ _ hlength)
      · have hd := decode_copy (last.getD 0) hpositive h
        rw [if_pos ⟨hoff, hn⟩] at hd
        rw [hd] at hinside
        have hcount : 2 + n - 2 = n := by omega
        have hbits : true :: true :: (countBits 4 offset ++ (countBits 0 n ++ tail)) = (Group.copy offset (2 + n)).bits ++ tail := by
          simp only [Group.bits, hcount, List.cons_append, List.append_assoc]
        refine round_match ho hpos hpositive hd hinside hfits hbits ⟨hpositive, by omega⟩ ?_ trivial ?_ ?_ rfl
        · simp only [Group.Short, hcount]
          exact ⟨hoff, hn⟩
        · simp only [Group.bits, hcount, List.length_cons, List.length_append]
          omega
        · simp only [Group.expand]
          exact if_congr ⟨fun h => h.2.1, fun h => ⟨hpositive, h, by omega⟩⟩ rfl rfl

theorem round_cases (ho : Holds size out o) (hr : Reaches (out, last)) (h : At input pos bits) :
    Round input size pos out last o bits := by
  have hpos : pos ≤ input.length * 8 := by
    have := h.length
    omega
  match bits with
  | [] => exact .fault (fun hfits => hfits) (Or.inl (decompressLoop_error ho hpos (decodeInstructionOperators_outside _ h (Or.inl rfl))))
  | false :: rest => exact round_literal ho h
  | [true] =>
    exact .fault (fun hfits => hfits) (Or.inl (decompressLoop_error ho hpos (decodeInstructionOperators_outside _ h (Or.inr rfl))))
  | true :: false :: rest => exact round_again ho hr h
  | true :: true :: rest => exact round_long ho h

/-! ### The loop -/

/-- Behind all groups that are decoded and have room, the next instruction fits too. -/
def Inside (inLen size pos : Nat) (s : Bytes × Option Nat) (bits : List Bool) : Prop :=
  ∀ (gs : List Group) tail t, bits = gs.flatMap Group.bits ++ tail → gs.foldlM Group.expand s = some t → Decoded inLen pos gs →
    t.1.length ≤ size → Fits inLen (size - t.1.length) tail

/-- The loop stays inside exactly there. Nothing is read before the output, and what is reported is what was written. And it does
    what the model does that does not look at the accesses. -/
theorem decompressLoop_spec (ho : Holds size out o) (hr : Reaches (out, last)) (h : At input pos bits) :
    (Inside input.length size pos (out, last) bits ∧
        ((∃ n o', decompressLoop input o (last.getD 0) pos = .ok (n, o') ∧ o'.writes = List.range n ∧
            Lz77.decompressLoop input size out (last.getD 0) pos = .ok (o'.buf.take n)) ∨
          ∃ e, decompressLoop input o (last.getD 0) pos = .error (.errno e) ∧
            Lz77.decompressLoop input size out (last.getD 0) pos = .error e)) ∨
      (¬Inside input.length size pos (out, last) bits ∧
        (decompressLoop input o (last.getD 0) pos = .error .readInput ∨ decompressLoop input o (last.getD 0) pos = .error .writeOutput)) := by
  generalize hn : bits.length = n
  induction n using Nat.strongRecOn generalizing bits pos out last o with
  | ind n ih =>
    -- the next instruction is one that is behind no groups
    have hhead : Inside input.length size pos (out, last) bits → Fits input.length (size - out.length) bits :=
      fun hin => hin [] bits _ rfl rfl trivial ho.le
    have hstuck : Stuck input.length size pos out last bits → Fits input.length (size - out.length) bits →
        Inside input.length size pos (out, last) bits := by
      intro hstuck hfits gs tail t hbits hexpand hdecoded hle
      cases gs with
      | nil =>
        cases hexpand
        rwa [show bits = tail from hbits] at hfits
      | cons g gs =>
        obtain ⟨s, hs, hrest⟩ := Option.bind_eq_some_iff.mp hexpand
        rw [List.flatMap_cons, List.append_assoc] at hbits
        have hlt := hstuck g _ s hbits hs hdecoded.1.1 hdecoded.1.2
        have hgrow := length_le_of_expand (s := s) (expand_reaches hr hs).1 hrest
        omega
    cases round_cases ho hr h with
    | fault hfits hloop => exact Or.inr ⟨fun hin => hfits (hhead hin), hloop⟩
    | fails e hfits hno hloop hplain => exact Or.inl ⟨hstuck hno hfits, Or.inr ⟨e, hloop, hplain⟩⟩
    | ends hfits hno hloop hplain =>
      exact Or.inl ⟨hstuck hno hfits, Or.inl ⟨o.ptr, o, hloop, ho.writes, by rw [ho.taken]; exact hplain⟩⟩
    | next g tail out' last' o' hfits hbits hshort htold hexpand hholds hloop =>
      subst hbits
      have hr' := (expand_reaches hr hexpand).1
      have hpositive : 0 < g.bits.length := by cases g <;> simp [Group.bits]
      rw [List.length_append] at hn
      have hinside : Inside input.length size pos (out, last) (g.bits ++ tail) ↔
          Inside input.length size (pos + g.bits.length) (out', last') tail := by
        constructor
        · intro hin gs tail' t htail hfold hdecoded hle
          refine hin (g :: gs) tail' t ?_ (Option.bind_eq_some_iff.mpr ⟨_, hexpand, hfold⟩) ⟨⟨hshort, htold⟩, hdecoded⟩ hle
          rw [List.flatMap_cons, List.append_assoc, ← htail]
        · intro hin gs tail' t htail hfold hdecoded hle
          cases gs with
          | nil =>
            cases hfold
            rwa [show g.bits ++ tail = tail' from htail] at hfits
          | cons g' gs =>
            obtain ⟨s, hs, hfold⟩ := Option.bind_eq_some_iff.mp hfold
            rw [List.flatMap_cons, List.append_assoc] at htail
            obtain ⟨rfl, hrest⟩ := group_inj (valid_of_expand hexpand) (valid_of_expand hs) htail
            rw [hexpand] at hs
            cases hs
            exact hin gs tail' t hrest hfold hdecoded.2 hle
      have hplain := decompressLoop_group h hr hshort htold hexpand hholds.le
      rw [hinside, hloop, hplain]
      exact ih tail.length (by omega) hholds hr' h.skip rfl

/-! ### The decompressor -/

/-- Nothing is read or written outside of the buffers, nothing before the output is read, and on success what is reported is the
    number of bytes that were written, one after the other. -/
def Bounded (input buf : Bytes) : Prop :=
  decompress input buf ≠ .error .readInput ∧ decompress input buf ≠ .error .writeOutput ∧ decompress input buf ≠ .error .readOutput ∧
    ∀ n o, decompress input buf = .ok (n, o) → o.writes = List.range n

theorem inside_buffers_iff (input buf : Bytes) :
    (Bounded input buf ↔ Inside input.length buf.length 0 ([], none) (unpack input)) ∧ decompress input buf ≠ .error .readOutput ∧
      ∀ n o, decompress input buf = .ok (n, o) → o.writes = List.range n := by
  have hholds : Holds buf.length [] ⟨buf, 0, []⟩ := ⟨rfl, Nat.zero_le _, rfl, rfl, rfl⟩
  have hloop : decompressLoop input ⟨buf, 0, []⟩ ((none : Option Nat).getD 0) 0 = decompress input buf := rfl
  rcases decompressLoop_spec hholds reaches_start (at_unpack input) with ⟨hin, ⟨n, o, hok, hwrites, -⟩ | ⟨e, herr, -⟩⟩ | ⟨hout, hstop⟩
  · rw [hloop] at hok
    simp [Bounded, hok, hin, hwrites]
  · rw [hloop] at herr
    simp [Bounded, herr, hin]
  · rw [hloop] at hstop
    rcases hstop with hstop | hstop
    · simp [Bounded, hstop, hout]
    · simp [Bounded, hstop, hout]

/-- A second literal byte has no room. -/
theorem writes_behind : ¬Bounded [0, 0, 0] [0] := by
  have hholds : Holds 1 [] ⟨[0], 0, []⟩ := ⟨rfl, Nat.zero_le _, rfl, rfl, rfl⟩
  have hnot : ¬Inside 3 1 0 ([], none) (unpack [0, 0, 0]) := by
    intro hin
    have hbits : unpack [0, 0, 0] = [Group.literal 0].flatMap Group.bits ++ List.replicate 15 false := by decide
    exact absurd (hin _ _ _ hbits rfl ⟨⟨trivial, trivial⟩, trivial⟩ (Nat.le_refl 1)).2 (by decide)
  rintro ⟨hread, hwrite, -⟩
  rcases decompressLoop_spec hholds reaches_start (at_unpack [0, 0, 0]) with ⟨hin, -⟩ | ⟨-, hstop | hstop⟩
  · exact hnot hin
  · exact hread hstop
  · exact hwrite hstop

/-- Where the accesses stay inside, they can be left out of the model. -/
theorem decompress_agrees {input buf : Bytes} (hin : Inside input.length buf.length 0 ([], none) (unpack input)) :
    (∃ n o, decompress input buf = .ok (n, o) ∧ Lz77.decompress input buf.length = .ok (o.buf.take n)) ∨
      ∃ e, decompress input buf = .error (.errno e) ∧ Lz77.decompress input buf.length = .error e := by
  have hholds : Holds buf.length [] ⟨buf, 0, []⟩ := ⟨rfl, Nat.zero_le _, rfl, rfl, rfl⟩
  rcases decompressLoop_spec hholds reaches_start (at_unpack input) with ⟨-, ⟨n, o, hok, -, hplain⟩ | ⟨e, herr, hplain⟩⟩ | ⟨hout, -⟩
  · exact Or.inl ⟨n, o, hok, hplain⟩
  · exact Or.inr ⟨e, herr, hplain⟩
  · exact absurd hin hout

end

/-! ### The pieces of a match -/

/-- The copy of a match byte by byte, `out[i] = out[i - offset]`. -/
def copyByBytes (offset : Nat) : (n ptr : Nat) → Bytes → Bytes
  | 0, _, buf => buf
  | n + 1, ptr, buf => copyByBytes offset n (ptr + 1) (buf.set ptr (buf.getD (ptr - offset) 0))

section
variable {buf : Bytes} {offset n ptr : Nat}

theorem copyByBytes_add (offset m n ptr : Nat) (buf : Bytes) :
    copyByBytes offset (m + n) ptr buf = copyByBytes offset n (ptr + m) (copyByBytes offset m ptr buf) := by
  induction m generalizing ptr buf with
  | zero => rw [Nat.zero_add, Nat.add_zero, copyByBytes]
  | succ m ih => rw [Nat.succ_add, copyByBytes, copyByBytes, ih, Nat.add_assoc, Nat.add_comm 1]

theorem set_eq_writeAt {b : UInt8} (h : ptr < buf.length) : buf.set ptr b = writeAt buf ptr [b] := by
  rw [List.set_eq_take_append_cons_drop, if_pos h, writeAt, List.append_assoc]
  rfl

/-- A piece that is no longer than the offset is copied as a whole. -/
theorem copyByBytes_piece (hle : offset ≤ ptr) (hn : n ≤ offset) (hroom : ptr + n ≤ buf.length) :
    copyByBytes offset n ptr buf = Memcpy.run buf ⟨ptr, ptr - offset, n⟩ := by
  induction n with
  | zero => simp [copyByBytes, Memcpy.run, slice, writeAt]
  | succ n ih =>
    have hsize : (slice buf (ptr - offset) n).length = n := by
      rw [slice, List.length_take, List.length_drop]
      omega
    have hlt : ptr - offset + n < buf.length := by omega
    have hlength : (writeAt buf ptr (slice buf (ptr - offset) n)).length = buf.length := length_writeAt (by rw [hsize]; omega)
    -- the byte that is read lies in front of the match
    have hread : slice (writeAt buf ptr (slice buf (ptr - offset) n)) (ptr - offset + n) 1 = slice buf (ptr - offset + n) 1 :=
      slice_writeAt_before (by rw [hsize]; omega) (by omega)
    have hget (b : Bytes) (hb : ptr - offset + n < b.length) : slice b (ptr - offset + n) 1 = [b.getD (ptr - offset + n) 0] := by
      rw [slice, List.drop_eq_getElem_cons hb, List.take_succ_cons, List.take_zero, List.getD_eq_getElem?_getD,
        List.getElem?_eq_getElem hb, Option.getD_some]
    rw [copyByBytes_add, ih (by omega) (by omega), Memcpy.run, Memcpy.run, copyByBytes, copyByBytes, slice_add, hget buf hlt]
    dsimp only
    rw [set_eq_writeAt (by omega), show ptr + n - offset = ptr - offset + n by omega, ← hget _ (by omega), hread, hget buf hlt,
      ← writeAt_append (by rw [hsize]; omega), hsize]

theorem length_run {c : Memcpy} (hdst : c.dst + c.n ≤ buf.length) : (c.run buf).length = buf.length := by
  refine length_writeAt ?_
  rw [slice, List.length_take, List.length_drop]
  omega

theorem Output.copy_eq_ok {o : Output} (hle : offset ≤ o.ptr) (hroom : o.ptr + n ≤ o.buf.length) :
    o.copy offset n = .ok ⟨Memcpy.run o.buf ⟨o.ptr, o.ptr - offset, n⟩, o.ptr + n, o.writes ++ (List.range n).map (o.ptr + ·)⟩ := by
  unfold Output.copy
  split_ifs with hn
  · subst hn
    simp [Memcpy.run, slice, writeAt]
  · omega
  · omega
  · rfl

end

/-- The pieces are written as the bytes would be, one after the other, and none of them reaches into itself. -/
theorem match_copy {buf : Bytes} {offset ptr : Nat} (ho : 0 < offset) (hle : offset ≤ ptr) (n : Nat) (hroom : ptr + n ≤ buf.length)
    (writes : List Nat) :
    copyMatch ⟨buf, ptr, writes⟩ offset ho n =
        .ok ⟨copyByBytes offset n ptr buf, ptr + n, writes ++ (List.range n).map (ptr + ·)⟩ ∧
      (matchCalls ptr offset ho n).foldl Memcpy.run buf = copyByBytes offset n ptr buf ∧
      ∀ c ∈ matchCalls ptr offset ho n, c.Apart := by
  induction n using Nat.strongRecOn generalizing buf ptr writes with
  | ind n ih =>
    rw [copyMatch, matchCalls]
    by_cases hlt : offset < n
    · have hcopy := Output.copy_eq_ok (o := ⟨buf, ptr, writes⟩) (n := offset) hle (by dsimp only; omega)
      have hpiece := copyByBytes_piece hle (Nat.le_refl offset) (by omega : ptr + offset ≤ buf.length)
      have hlength : (Memcpy.run buf ⟨ptr, ptr - offset, offset⟩).length = buf.length :=
        length_run (by dsimp only; omega)
      obtain ⟨hrest, hcalls, hapart⟩ := ih (n - offset) (by omega) (by omega : offset ≤ ptr + offset)
        (by rw [hlength]; omega) (writes ++ (List.range offset).map (ptr + ·))
      have hbytes : copyByBytes offset (n - offset) (ptr + offset) (Memcpy.run buf ⟨ptr, ptr - offset, offset⟩) =
          copyByBytes offset n ptr buf := by
        rw [← hpiece, ← copyByBytes_add, Nat.add_sub_of_le (Nat.le_of_lt hlt)]
      have hrange : (List.range offset).map (ptr + ·) ++ (List.range (n - offset)).map (ptr + offset + ·) = (List.range n).map (ptr + ·) := by
        rw [← Nat.add_sub_of_le (Nat.le_of_lt hlt), List.range_add, List.map_append, List.map_map, Nat.add_sub_cancel_left]
        simp only [Function.comp_def, Nat.add_assoc]
      rw [hbytes] at hrest hcalls
      rw [if_pos hlt, if_pos hlt, hcopy]
      refine ⟨?_, hcalls, fun c hc => ?_⟩
      · refine hrest.trans ?_
        rw [List.append_assoc, hrange, Nat.add_assoc, Nat.add_sub_of_le (Nat.le_of_lt hlt)]
      · rcases List.mem_cons.mp hc with rfl | hc
        · exact Or.inl (by dsimp only; omega)
        · exact hapart c hc
    · rw [if_neg hlt, if_neg hlt, Output.copy_eq_ok hle hroom, copyByBytes_piece hle (Nat.le_of_not_lt hlt) hroom]
      refine ⟨rfl, rfl, fun c hc => ?_⟩
      obtain rfl := List.mem_singleton.mp hc
      exact Or.inl (by dsimp only; omega)

/-- A match of seven bytes at the offset two: three pieces. -/
theorem match_copy_seven :
    copyMatch ⟨[1, 2, 0, 0, 0, 0, 0, 0, 0], 2, []⟩ 2 (by decide) 7 = .ok ⟨[1, 2, 1, 2, 1, 2, 1, 2, 1], 9, [2, 3, 4, 5, 6, 7, 8]⟩ ∧
      (matchCalls 2 2 (by decide) 7).foldl Memcpy.run [1, 2, 0, 0, 0, 0, 0, 0, 0] = [1, 2, 1, 2, 1, 2, 1, 2, 1] ∧
      ∀ c ∈ matchCalls 2 2 (by decide) 7, c.Apart :=
  match_copy (by decide) (by decide) 7 (by decide) []

end Memory

end RainWrt.Mikrotik.Lz77
