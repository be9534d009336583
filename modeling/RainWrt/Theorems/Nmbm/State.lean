import RainWrt.Nmbm.State

/-! The block state bitmap and the walks over it. Setting the state of one block leaves the others; a
    walk gives a good block on its way. -/

namespace RainWrt.Nmbm

/-! ### Two-bit fields of a word -/

theorem mask_getLsbD (i : Nat) : blockStMask.toBitVec.getLsbD i = decide (i < 2) := by
  by_cases h : i < 2
  · have : i = 0 ∨ i = 1 := by omega
    rcases this with rfl | rfl <;> rfl
  · have hlt : blockStMask.toBitVec.toNat < 2 ^ i :=
      Nat.lt_of_lt_of_le (by decide : _ < 2 ^ 2) (Nat.pow_le_pow_right (by decide) (by omega))
    rw [BitVec.getLsbD, Nat.testBit_lt_two_pow hlt, decide_eq_false h]

theorem shift_ofNat {k : Nat} (hk : k < 16) :
    (UInt32.ofNat (k * 2)).toBitVec.toNat % BitVec.toNat (32 : BitVec 32) = k * 2 := by
  have h : BitVec.toNat (32 : BitVec 32) = 32 := rfl
  have h' : (UInt32.ofNat (k * 2)).toBitVec.toNat = k * 2 % 2 ^ 32 := rfl
  rw [h, h']
  omega

theorem getLsbD_field (w : UInt32) {k : Nat} (hk : k < 16) (i : Nat) :
    ((w >>> .ofNat (k * 2)) &&& blockStMask).toBitVec.getLsbD i =
      (w.toBitVec.getLsbD (k * 2 + i) && decide (i < 2)) := by
  simp only [UInt32.toBitVec_and, UInt32.toBitVec_shiftRight, BitVec.getLsbD_and, BitVec.ushiftRight_eq',
    BitVec.getLsbD_ushiftRight, BitVec.toNat_umod, shift_ofNat hk, mask_getLsbD]

theorem getLsbD_putState (w v : UInt32) {k j : Nat} (hk : k < 16) (hj : j < 32) :
    (putState w (.ofNat (k * 2)) (v &&& blockStMask)).toBitVec.getLsbD j =
      if k * 2 ≤ j ∧ j < k * 2 + 2 then v.toBitVec.getLsbD (j - k * 2) else w.toBitVec.getLsbD j := by
  simp only [putState, UInt32.toBitVec_and, UInt32.toBitVec_or, UInt32.toBitVec_not,
    UInt32.toBitVec_shiftLeft, BitVec.getLsbD_and, BitVec.getLsbD_or, BitVec.getLsbD_not, BitVec.shiftLeft_eq',
    BitVec.getLsbD_shiftLeft, BitVec.toNat_umod, shift_ofNat hk, mask_getLsbD, hj]
  by_cases h1 : k * 2 ≤ j
  · by_cases h2 : j < k * 2 + 2
    · simp [h1, h2, show ¬j < k * 2 by omega, show j - k * 2 < 2 by omega]
    · simp [h1, h2, show ¬j < k * 2 by omega, show ¬j - k * 2 < 2 by omega]
  · simp [h1, show j < k * 2 by omega]

/-- Writing one field of a word changes that field only. -/
theorem field_putState (w v : UInt32) {k k' : Nat} (hk : k < 16) (hk' : k' < 16) :
    (putState w (.ofNat (k * 2)) (v &&& blockStMask) >>> .ofNat (k' * 2)) &&& blockStMask =
      if k' = k then v &&& blockStMask else (w >>> .ofNat (k' * 2)) &&& blockStMask := by
  apply UInt32.eq_of_toBitVec_eq
  apply BitVec.eq_of_getLsbD_eq
  intro i hi
  rw [getLsbD_field _ hk']
  by_cases h2 : i < 2
  · rw [getLsbD_putState _ _ hk (by omega)]
    split
    · have : k' = k := by omega
      subst this
      simp [mask_getLsbD, h2]
    · have : k' ≠ k := by omega
      rw [if_neg this, getLsbD_field _ hk']
  · split <;> simp [mask_getLsbD, h2]

/-- Writing a field that is there already changes nothing. -/
theorem putState_of_field (w v : UInt32) {k : Nat} (hk : k < 16)
    (h : (w >>> .ofNat (k * 2)) &&& blockStMask = v &&& blockStMask) : putState w (.ofNat (k * 2)) (v &&& blockStMask) = w := by
  apply UInt32.eq_of_toBitVec_eq
  apply BitVec.eq_of_getLsbD_eq
  intro j hj
  rw [getLsbD_putState _ _ hk hj]
  split
  · have hbit := getLsbD_field w hk (j - k * 2)
    rw [h, show k * 2 + (j - k * 2) = j by omega, UInt32.toBitVec_and, BitVec.getLsbD_and, mask_getLsbD] at hbit
    simpa [show j - k * 2 < 2 by omega] using hbit
  · rfl

/-! ### Block states -/

section
variable {bs : List UInt32} {ba b : Nat} {st : UInt32}

@[simp] theorem length_setBlockStateRaw : (setBlockStateRaw bs ba st).length = bs.length := by
  simp [setBlockStateRaw]

/-- The states after `nmbm_set_block_state`; a block outside the table has no state to set. -/
theorem getBlockStateRaw_set :
    getBlockStateRaw (setBlockStateRaw bs ba st) b =
      if b = ba ∧ ba / 16 < bs.length then st &&& blockStMask else getBlockStateRaw bs b := by
  simp only [getBlockStateRaw, setBlockStateRaw, List.getD_eq_getElem?_getD, List.getElem?_set]
  by_cases hu : ba / 16 = b / 16
  · by_cases hl : ba / 16 < bs.length
    · rw [if_pos hu, if_pos hl, Option.getD_some, field_putState _ _ (by omega) (by omega), hu]
      by_cases hb : b = ba
      · simp [hb, hl]
      · rw [if_neg (by omega), if_neg (by tauto)]
    · rw [if_pos hu, if_neg hl, if_neg (by tauto)]
      simp [List.getElem?_eq_none (show bs.length ≤ b / 16 by omega)]
  · rw [if_neg hu, if_neg]
    rintro ⟨rfl, -⟩
    exact hu rfl

theorem setBlockStateRaw_of_get (h : getBlockStateRaw bs ba = st &&& blockStMask) : setBlockStateRaw bs ba st = bs := by
  rw [getBlockStateRaw] at h
  rw [setBlockStateRaw, putState_of_field _ _ (by omega) h, List.getD_eq_getElem?_getD]
  apply List.ext_getElem?
  intro i
  rw [List.getElem?_set]
  split
  · rename_i hi
    subst hi
    split
    · rename_i hlt
      rw [List.getElem?_eq_getElem hlt]
      rfl
    · rename_i hge
      rw [List.getElem?_eq_none (by omega)]
  · rfl

/-- A good block is inside the table. -/
theorem lt_of_good {ni : Instance} (h : ni.good b = true) : b / 16 < ni.blockState.length := by
  by_contra hn
  rw [Instance.good, getBlockState, getBlockStateRaw, List.getD_eq_getElem?_getD,
    List.getElem?_eq_none (by omega), Option.getD_none] at h
  have h0 : ((0 : UInt32) >>> UInt32.ofNat (b % 16 * 2)) &&& blockStMask = 0 := by
    apply UInt32.eq_of_toBitVec_eq
    apply BitVec.eq_of_getLsbD_eq
    intro i _
    rw [getLsbD_field _ (by omega)]
    simp
  rw [h0] at h
  cases h

end

/-! ### Walks -/

section
variable {ni : Instance}

theorem walkAscLoop_some {n ba count r : Nat} (h : walkAscLoop ni n ba count = some r) :
    ba ≤ r ∧ r < ba + n ∧ ni.good r = true := by
  induction n generalizing ba count with
  | zero => cases h
  | succ n ih =>
    unfold walkAscLoop at h
    split at h
    · rename_i hg
      cases count with
      | zero =>
        cases h
        exact ⟨Nat.le_refl _, by omega, hg⟩
      | succ count =>
        obtain ⟨h1, h2, h3⟩ := ih h
        exact ⟨by omega, by omega, h3⟩
    · obtain ⟨h1, h2, h3⟩ := ih h
      exact ⟨by omega, by omega, h3⟩

theorem walkLimit_le (ni : Instance) (limit : Nat) : walkLimit ni limit ≤ limit := by
  unfold walkLimit
  split <;> omega

theorem blockWalkAsc_some {ba count limit r : Nat} (h : blockWalkAsc ni ba count limit = some r) :
    ba ≤ r ∧ r < limit ∧ ni.good r = true := by
  obtain ⟨h1, h2, h3⟩ := walkAscLoop_some h
  have := walkLimit_le ni limit
  exact ⟨h1, by omega, h3⟩

theorem tryReserveBlocks_some {ba count limit r : Nat} (h : tryReserveBlocks ni ba count limit = some r) :
    ba ≤ r ∧ r < limit ∧ ni.good r = true := by
  induction count with
  | zero =>
    rw [tryReserveBlocks] at h
    split at h
    · cases h
      exact blockWalkAsc_some (by assumption)
    · cases h
  | succ count ih =>
    rw [tryReserveBlocks] at h
    split at h
    · cases h
      exact blockWalkAsc_some (by assumption)
    · exact ih h

theorem walkDescLoop_some {n ba count r : Nat} (h : walkDescLoop ni n ba count = some r) :
    ba < r + n ∧ r ≤ ba ∧ ni.good r = true := by
  induction n generalizing ba count with
  | zero => cases h
  | succ n ih =>
    unfold walkDescLoop at h
    split at h
    · rename_i hg
      cases count with
      | zero =>
        cases h
        exact ⟨by omega, Nat.le_refl _, hg⟩
      | succ count =>
        obtain ⟨h1, h2, h3⟩ := ih h
        exact ⟨by omega, by omega, h3⟩
    · obtain ⟨h1, h2, h3⟩ := ih h
      exact ⟨by omega, by omega, h3⟩

/-- A walk down from a block gives a good block above the limit. -/
theorem blockWalkDesc_some {ba count limit r : Nat} (h : blockWalkDesc ni ba count limit = some r) :
    walkLimit ni limit < r ∧ r ≤ ba ∧ ni.good r = true := by
  obtain ⟨h1, h2, h3⟩ := walkDescLoop_some h
  exact ⟨by omega, h2, h3⟩

/-- A walk that counts no block stops at the highest good one. -/
theorem walkDescLoop_highest {n ba b r : Nat} (h : walkDescLoop ni n ba 0 = some r) (hg : ni.good b = true) (hb : b ≤ ba) :
    b ≤ r := by
  induction n generalizing ba with
  | zero => cases h
  | succ n ih =>
    unfold walkDescLoop at h
    split at h
    · cases h
      exact hb
    · rename_i hbad
      have hne : b ≠ ba := by
        rintro rfl
        exact hbad hg
      exact ih h (by omega)

/-- A walk that counts a good block leaves the block it starts from. -/
theorem walkDescLoop_lt {n ba count r : Nat} (h : walkDescLoop ni n ba (count + 1) = some r) (hn : n ≤ ba) : r < ba := by
  cases n with
  | zero => cases h
  | succ n =>
    unfold walkDescLoop at h
    split at h <;> have := (walkDescLoop_some h).2.1 <;> omega

end

end RainWrt.Nmbm
