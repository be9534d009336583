import RainWrt.Nmbm.Mgmt
import RainWrt.Theorems.Nmbm.State
import RainWrt.Theorems.Nmbm.Flash

/-! Writing and erasing in a range of management blocks. Whatever the chip does, only good blocks of the
    range are touched, of the instance only the block states change, and each change retires a block that
    was good until then. -/

namespace RainWrt.Nmbm
open Nand

/-! ### Retiring a block -/

theorem countP_lt {α : Type} {p q : α → Bool} : ∀ {l : List α}, (∀ x ∈ l, q x = true → p x = true) →
    (∃ x ∈ l, p x = true ∧ q x = false) → l.countP q < l.countP p
  | [], _, h => by simp at h
  | x :: l, hle, ⟨y, hy, hp, hq⟩ => by
    have hle' : ∀ x ∈ l, q x = true → p x = true := fun z hz => hle z (List.mem_cons_of_mem _ hz)
    have hmono : l.countP q ≤ l.countP p := List.countP_mono_left hle'
    rw [List.countP_cons, List.countP_cons]
    rcases List.mem_cons.mp hy with rfl | hy
    · simp only [hp, hq, if_true]
      simp
      omega
    · have := countP_lt hle' ⟨y, hy, hp, hq⟩
      have hx := hle x List.mem_cons_self
      by_cases h : q x = true
      · simp only [h, hx h, if_true]
        omega
      · simp only [h]
        simp
        omega

section
variable {s : State} {ba : Nat}

theorem setBlockState_bad_good {b : Nat} (hg : s.ni.good ba = true) :
    (setBlockState s ba blockStBad).ni.good b = (s.ni.good b && b != ba) := by
  have hlt := lt_of_good hg
  have hst : getBlockState (setBlockState s ba blockStBad).ni b =
      if b = ba ∧ ba / 16 < s.ni.blockState.length then blockStBad else getBlockState s.ni b := by
    unfold setBlockState
    simp only
    split <;> exact getBlockStateRaw_set
  rw [Instance.good, Instance.good, hst]
  by_cases hb : b = ba
  · subst hb
    simp [hlt]
    decide
  · simp [hb]

/-- Marking a good block bad is a change, and the only thing that changes. -/
theorem setBlockState_bad (hg : s.ni.good ba = true) :
    setBlockState s ba blockStBad =
      { s with
        ni.blockState := setBlockStateRaw s.ni.blockState ba blockStBad
        ni.blockStateChanged := s.ni.blockStateChanged + 1
        trace := .stateChanged ba :: s.trace } := by
  have hne : getBlockState s.ni ba ≠ blockStBad &&& blockStMask := by
    intro h
    rw [Instance.good, h] at hg
    revert hg
    decide
  simp only [setBlockState, ne_eq, hne, not_false_eq_true, if_true]

theorem goodCount_setBlockState_bad (hg : s.ni.good ba = true) :
    (setBlockState s ba blockStBad).ni.goodCount < s.ni.goodCount := by
  have hlen : (setBlockState s ba blockStBad).ni.blockState.length = s.ni.blockState.length := by
    simp [setBlockState_bad hg]
  have hlt := lt_of_good hg
  unfold Instance.goodCount
  rw [hlen]
  refine countP_lt (fun b _ hb => ?_) ⟨ba, List.mem_range.mpr (by omega), hg, ?_⟩
  · rw [setBlockState_bad_good hg] at hb
    simp only [Bool.and_eq_true] at hb
    exact hb.1
  · simp [setBlockState_bad_good hg]

end

/-! ### What a write in a range does -/

/-- The parts of an instance that the placement of user data depends on. -/
structure SameMap (a b : Instance) : Prop where
  chip : b.chip = a.chip
  signature : b.signature = a.signature
  blockMapping : b.blockMapping = a.blockMapping
  dataBlockCount : b.dataBlockCount = a.dataBlockCount
  mgmtStartBa : b.mgmtStartBa = a.mgmtStartBa
  mappingBlocksTopBa : b.mappingBlocksTopBa = a.mappingBlocksTopBa
  signatureBa : b.signatureBa = a.signatureBa
  emptyPageEccOk : b.emptyPageEccOk = a.emptyPageEccOk
  stateTableOff : b.infoTable.stateTableOff = a.infoTable.stateTableOff
  mappingTableOff : b.infoTable.mappingTableOff = a.infoTable.mappingTableOff

theorem SameMap.refl (a : Instance) : SameMap a a := ⟨rfl, rfl, rfl, rfl, rfl, rfl, rfl, rfl, rfl, rfl⟩

theorem SameMap.trans {a b c : Instance} (h : SameMap a b) (h' : SameMap b c) : SameMap a c :=
  ⟨h'.chip.trans h.chip, h'.signature.trans h.signature, h'.blockMapping.trans h.blockMapping,
    h'.dataBlockCount.trans h.dataBlockCount, h'.mgmtStartBa.trans h.mgmtStartBa,
    h'.mappingBlocksTopBa.trans h.mappingBlocksTopBa, h'.signatureBa.trans h.signatureBa,
    h'.emptyPageEccOk.trans h.emptyPageEccOk, h'.stateTableOff.trans h.stateTableOff,
    h'.mappingTableOff.trans h.mappingTableOff⟩

/-- An event of writing in `[lo, hi)`. -/
def RangeEvent (lo hi : Nat) (ni : Instance) (e : Event) : Prop :=
  (∃ b, e = .stateChanged b) ∨ ∃ b ni', e = .mgmt b ni' ∧ lo ≤ b ∧ b < hi ∧ SameMap ni ni'

/-- `s'` comes from `s` by writing or erasing management blocks of `[lo, hi)`. -/
structure WriteStep (lo hi : Nat) (s s' : State) : Prop where
  ni : s'.ni = { s.ni with blockState := s'.ni.blockState, blockStateChanged := s'.ni.blockStateChanged }
  good : ∀ b, s'.ni.good b = true → s.ni.good b = true
  kept : ∀ b, (lo ≤ b → b < hi → False) → s'.ni.good b = s.ni.good b
  length : s'.ni.blockState.length = s.ni.blockState.length
  budget : s'.ni.blockStateChanged + s'.ni.goodCount ≤ s.ni.blockStateChanged + s.ni.goodCount
  page : ∀ b, (lo ≤ b → b < hi → s.ni.good b = false) → s'.nand.page b = s.nand.page b
  bad : ∀ b, (lo ≤ b → b < hi → s.ni.good b = false) → s'.nand.bad b = s.nand.bad b
  fault : s'.nand.fault = s.nand.fault
  emptyOk : s'.nand.emptyOk = s.nand.emptyOk
  trace : ∃ evs, s'.trace = evs ++ s.trace ∧ (∀ e ∈ evs, RangeEvent lo hi s.ni e) ∧
    ((∀ b, .stateChanged b ∉ evs) → s'.ni.blockState = s.ni.blockState ∧ s'.ni.blockStateChanged = s.ni.blockStateChanged) ∧
    (∀ b, .stateChanged b ∈ evs → 0 < s'.ni.blockStateChanged)

namespace WriteStep
variable {lo hi lo' hi' : Nat} {s s' s'' : State}

theorem sameMap (h : WriteStep lo hi s s') : SameMap s.ni s'.ni := by
  rw [h.ni]
  exact ⟨rfl, rfl, rfl, rfl, rfl, rfl, rfl, rfl, rfl, rfl⟩

/-- Writing does not move a table by itself. -/
theorem tables (h : WriteStep lo hi s s') :
    s'.ni.mainTableBa = s.ni.mainTableBa ∧ s'.ni.backupTableBa = s.ni.backupTableBa ∧
      s'.ni.mappingBlocksBa = s.ni.mappingBlocksBa ∧ s'.ni.protected = s.ni.protected := by
  rw [h.ni]
  exact ⟨rfl, rfl, rfl, rfl⟩

theorem cache (h : WriteStep lo hi s s') :
    s'.ni.infoTableCache = s.ni.infoTableCache ∧ s'.ni.infoTable = s.ni.infoTable ∧
      s'.ni.blockMappingChanged = s.ni.blockMappingChanged := by
  rw [h.ni]
  exact ⟨rfl, rfl, rfl⟩

theorem refl (lo hi : Nat) (s : State) : WriteStep lo hi s s where
  ni := rfl
  good _ h := h
  kept _ _ := rfl
  length := rfl
  budget := Nat.le_refl _
  page _ _ := rfl
  bad _ _ := rfl
  fault := rfl
  emptyOk := rfl
  trace := ⟨[], rfl, by simp, by simp, by simp⟩

theorem not_good (h : WriteStep lo hi s s') {b : Nat} (hb : s.ni.good b = false) : s'.ni.good b = false := by
  by_contra hc
  rw [h.good b (by simpa using hc)] at hb
  cases hb

theorem trans (h : WriteStep lo hi s s') (h' : WriteStep lo hi s' s'') : WriteStep lo hi s s'' where
  ni := by
    rw [h'.ni, h.ni]
  good b hb := h.good b (h'.good b hb)
  kept b hb := (h'.kept b hb).trans (h.kept b hb)
  length := h'.length.trans h.length
  budget := Nat.le_trans h'.budget h.budget
  page b hb := (h'.page b fun h1 h2 => h.not_good (hb h1 h2)).trans (h.page b hb)
  bad b hb := (h'.bad b fun h1 h2 => h.not_good (hb h1 h2)).trans (h.bad b hb)
  fault := h'.fault.trans h.fault
  emptyOk := h'.emptyOk.trans h.emptyOk
  trace := by
    obtain ⟨evs, ht, he, hq, hn⟩ := h.trace
    obtain ⟨evs', ht', he', hq', hn'⟩ := h'.trace
    refine ⟨evs' ++ evs, by rw [ht', ht, List.append_assoc], fun e hm => ?_, fun hno => ?_, fun b hm => ?_⟩
    · rcases List.mem_append.mp hm with hm | hm
      · rcases he' e hm with hs | ⟨b, ni', rfl, h1, h2, hsame⟩
        · exact .inl hs
        · exact .inr ⟨b, ni', rfl, h1, h2, h.sameMap.trans hsame⟩
      · exact he e hm
    · obtain ⟨h1, h2⟩ := hq fun b hb => hno b (List.mem_append_right _ hb)
      obtain ⟨h3, h4⟩ := hq' fun b hb => hno b (List.mem_append_left _ hb)
      exact ⟨h3.trans h1, h4.trans h2⟩
    · rcases List.mem_append.mp hm with hm | hm
      · exact hn' b hm
      · -- a change made by the first part is still counted after the second
        have hpos := hn b hm
        by_cases hsome : ∃ b, Event.stateChanged b ∈ evs'
        · obtain ⟨b', hb'⟩ := hsome
          exact hn' b' hb'
        · rw [(hq' fun b hb => hsome ⟨b, hb⟩).2]
          exact hpos

theorem mono (h : WriteStep lo hi s s') (lo' hi' : Nat) (hr : ∀ b, lo ≤ b → b < hi → lo' ≤ b ∧ b < hi') : WriteStep lo' hi' s s' where
  ni := h.ni
  good := h.good
  kept b hb := h.kept b fun h1 h2 => hb (hr b h1 h2).1 (hr b h1 h2).2
  length := h.length
  budget := h.budget
  page b hb := h.page b fun h1 h2 => hb (hr b h1 h2).1 (hr b h1 h2).2
  bad b hb := h.bad b fun h1 h2 => hb (hr b h1 h2).1 (hr b h1 h2).2
  fault := h.fault
  emptyOk := h.emptyOk
  trace := by
    obtain ⟨evs, ht, he, hq⟩ := h.trace
    refine ⟨evs, ht, fun e hm => ?_, hq⟩
    rcases he e hm with hs | ⟨b, ni', rfl, h1, h2, hsame⟩
    · exact .inl hs
    · exact .inr ⟨b, ni', rfl, (hr b h1 h2).1, (hr b h1 h2).2, hsame⟩

theorem goodCount_le (h : WriteStep lo hi s s') : s'.ni.goodCount ≤ s.ni.goodCount := by
  unfold Instance.goodCount
  rw [h.length]
  exact List.countP_mono_left fun b _ hb => h.good b hb

/-- Chip operations on one good block of the range. -/
theorem of_flash {b : Nat} (h : FlashStep b s s') (hlo : lo ≤ b) (hhi : b < hi) (hg : s.ni.good b = true) :
    WriteStep lo hi s s' where
  ni := by rw [h.ni]
  good b hb := by rwa [h.ni] at hb
  kept b _ := by rw [h.ni]
  length := by rw [h.ni]
  budget := Nat.le_of_eq (by rw [h.ni])
  page b' hb := h.nand.page b' fun e => by
    subst e
    rw [hb hlo hhi] at hg
    cases hg
  bad b' hb := h.nand.bad b' fun e => by
    subst e
    rw [hb hlo hhi] at hg
    cases hg
  fault := h.nand.fault
  emptyOk := h.nand.emptyOk
  trace := ⟨[], by rw [h.trace]; rfl, by simp, by simp [h.ni], by simp⟩

theorem noteMgmt {b : Nat} (hlo : lo ≤ b) (hhi : b < hi) : WriteStep lo hi s (noteMgmt s b) where
  ni := rfl
  good _ h := h
  kept _ _ := rfl
  length := rfl
  budget := Nat.le_refl _
  page _ _ := rfl
  bad _ _ := rfl
  fault := rfl
  emptyOk := rfl
  trace := ⟨[.mgmt b s.ni], rfl, by
    intro e he
    rw [List.mem_singleton.mp he]
    exact .inr ⟨b, s.ni, rfl, hlo, hhi, .refl _⟩, fun _ => ⟨rfl, rfl⟩, by simp⟩

theorem setBad {b : Nat} (hlo : lo ≤ b) (hhi : b < hi) (hg : s.ni.good b = true) :
    WriteStep lo hi s (setBlockState s b blockStBad) where
  ni := by rw [setBlockState_bad hg]
  good b' hb := by
    rw [setBlockState_bad_good hg, Bool.and_eq_true] at hb
    exact hb.1
  kept b' hb := by
    have hne : b' ≠ b := by
      rintro rfl
      exact hb hlo hhi
    simp [setBlockState_bad_good hg, hne]
  length := by simp [setBlockState_bad hg]
  budget := by
    have h := goodCount_setBlockState_bad hg
    have hc : (setBlockState s b blockStBad).ni.blockStateChanged = s.ni.blockStateChanged + 1 := by
      rw [setBlockState_bad hg]
    omega
  page _ _ := by rw [setBlockState_bad hg]
  bad _ _ := by rw [setBlockState_bad hg]
  fault := by rw [setBlockState_bad hg]
  emptyOk := by rw [setBlockState_bad hg]
  trace := by
    refine ⟨[.stateChanged b], by rw [setBlockState_bad hg]; rfl, fun e he => ?_, fun hno => ?_, fun _ _ => ?_⟩
    · exact .inl ⟨b, List.mem_singleton.mp he⟩
    · exact absurd (List.mem_singleton_self _) (hno b)
    · rw [setBlockState_bad hg]
      exact Nat.succ_pos _

theorem retire {b : Nat} (hlo : lo ≤ b) (hhi : b < hi) (hg : s.ni.good b = true) :
    WriteStep lo hi s (retireBlock s b) := by
  have hf := markPhysBadBlock_step s b
  exact (of_flash hf hlo hhi hg).trans (setBad hlo hhi (by rw [hf.ni]; exact hg))

end WriteStep

/-! ### The range operations -/

theorem writeMgmtBlock_step (s : State) (ba : Nat) (chunk : Bytes) :
    WriteStep ba (ba + 1) s (writeMgmtBlock s ba chunk).2 := by
  unfold writeMgmtBlock
  split
  · rename_i hg
    have hc := checkBadPhysBlock_step s ba
    rcases hr : checkBadPhysBlock s ba with ⟨_ | _, s₁⟩ <;> rw [hr] at hc <;> dsimp only
    · have h₁ : WriteStep ba (ba + 1) s s₁ := .of_flash hc (Nat.le_refl _) (by omega) hg
      have h₂ := h₁.trans (WriteStep.noteMgmt (Nat.le_refl _) (by omega))
      have he := eraseBlockAndCheck_step (noteMgmt s₁ ba) ba
      have hg₂ : (noteMgmt s₁ ba).ni.good ba = true := by rw [← hg]; exact congrArg (Instance.good · ba) hc.ni
      rcases hr₂ : eraseBlockAndCheck (noteMgmt s₁ ba) ba with ⟨_ | _, s₂⟩ <;> rw [hr₂] at he <;> dsimp only
      · have hg₃ : s₂.ni.good ba = true := by rw [he.ni]; exact hg₂
        exact (h₂.trans (.of_flash he (Nat.le_refl _) (by omega) hg₂)).trans (.retire (Nat.le_refl _) (by omega) hg₃)
      · have hg₃ : s₂.ni.good ba = true := by rw [he.ni]; exact hg₂
        have h₃ := h₂.trans (.of_flash he (Nat.le_refl _) (by omega) hg₂)
        have hw := writeVerifyPages_step ba 0 (pieces s₂.ni.chip.pgSize chunk) s₂
        rcases hr₃ : writeVerifyData s₂ ba chunk with ⟨_ | _, s₃⟩ <;> rw [writeVerifyData] at hr₃ <;> rw [hr₃] at hw <;> dsimp only
        · have hg₄ : s₃.ni.good ba = true := by rw [hw.ni]; exact hg₃
          exact (h₃.trans (.of_flash hw (Nat.le_refl _) (by omega) hg₃)).trans (.retire (Nat.le_refl _) (by omega) hg₄)
        · exact h₃.trans (.of_flash hw (Nat.le_refl _) (by omega) hg₃)
    · have hg₁ : s₁.ni.good ba = true := by rw [hc.ni]; exact hg
      exact (WriteStep.of_flash hc (Nat.le_refl _) (by omega) hg).trans (.setBad (Nat.le_refl _) (by omega) hg₁)
  · exact .refl _ _ s

theorem eraseMgmtBlock_step (s : State) (ba : Nat) : WriteStep ba (ba + 1) s (eraseMgmtBlock s ba) := by
  unfold eraseMgmtBlock
  split
  · rename_i hg
    have hc := checkBadPhysBlock_step s ba
    rcases hr : checkBadPhysBlock s ba with ⟨_ | _, s₁⟩ <;> rw [hr] at hc <;> dsimp only
    · have h₁ : WriteStep ba (ba + 1) s s₁ := .of_flash hc (Nat.le_refl _) (by omega) hg
      have h₂ := h₁.trans (WriteStep.noteMgmt (Nat.le_refl _) (by omega))
      have he := eraseBlockAndCheck_step (noteMgmt s₁ ba) ba
      have hg₂ : (noteMgmt s₁ ba).ni.good ba = true := by rw [← hg]; exact congrArg (Instance.good · ba) hc.ni
      rcases hr₂ : eraseBlockAndCheck (noteMgmt s₁ ba) ba with ⟨_ | _, s₂⟩ <;> rw [hr₂] at he <;> dsimp only
      · have hg₃ : s₂.ni.good ba = true := by rw [he.ni]; exact hg₂
        exact (h₂.trans (.of_flash he (Nat.le_refl _) (by omega) hg₂)).trans (.retire (Nat.le_refl _) (by omega) hg₃)
      · exact h₂.trans (.of_flash he (Nat.le_refl _) (by omega) hg₂)
    · have hg₁ : s₁.ni.good ba = true := by rw [hc.ni]; exact hg
      exact (WriteStep.of_flash hc (Nat.le_refl _) (by omega) hg).trans (.setBad (Nat.le_refl _) (by omega) hg₁)
  · exact .refl _ _ s

theorem writeMgmtLoop_step (n : Nat) (s : State) (ba : Nat) (cs : List Bytes) (start : Option Nat) :
    WriteStep ba (ba + n) s (writeMgmtLoop n s ba cs start).2 := by
  induction n generalizing s ba cs start with
  | zero => cases cs <;> exact .refl _ _ s
  | succ n ih =>
    cases cs with
    | nil => exact .refl _ _ s
    | cons c cs =>
      unfold writeMgmtLoop
      have h := (writeMgmtBlock_step s ba c).mono ba (ba + (n + 1)) fun b _ _ => ⟨by omega, by omega⟩
      rcases hr : writeMgmtBlock s ba c with ⟨_ | _, s'⟩ <;> rw [hr] at h <;> dsimp only
      · exact h.trans ((ih s' (ba + 1) _ _).mono _ _ fun b _ _ => ⟨by omega, by omega⟩)
      · exact h.trans ((ih s' (ba + 1) _ _).mono _ _ fun b _ _ => ⟨by omega, by omega⟩)

/-- The blocks that a successful write reports. -/
theorem writeMgmtLoop_some {n : Nat} {s : State} {ba : Nat} {cs : List Bytes} {start : Option Nat} {st en : Nat}
    (h : (writeMgmtLoop n s ba cs start).1 = some (st, en)) :
    ba ≤ en ∧ en ≤ ba + n ∧ (start = some st ∨ (start = none ∧ ba ≤ st ∧ st < en)) := by
  induction n generalizing s ba cs start with
  | zero =>
    cases cs with
    | nil =>
      rcases start with _ | x
      · cases h
      · cases h
        exact ⟨by omega, by omega, .inl rfl⟩
    | cons c cs => cases h
  | succ n ih =>
    cases cs with
    | nil =>
      rcases start with _ | x
      · cases h
      · cases h
        exact ⟨by omega, by omega, .inl rfl⟩
    | cons c cs =>
      unfold writeMgmtLoop at h
      rcases hr : writeMgmtBlock s ba c with ⟨_ | _, s'⟩ <;> rw [hr] at h <;> dsimp only at h
      · obtain ⟨h1, h2, h3 | ⟨h3, h4, h5⟩⟩ := ih h
        · exact ⟨by omega, by omega, .inl h3⟩
        · exact ⟨by omega, by omega, .inr ⟨h3, by omega, h5⟩⟩
      · obtain ⟨h1, h2, h3 | ⟨h3, -⟩⟩ := ih h
        · rcases start with _ | x
          · cases h3
            exact ⟨by omega, by omega, .inr ⟨rfl, by simp, by simp; omega⟩⟩
          · exact ⟨by omega, by omega, .inl h3⟩
        · cases h3

theorem writeInfoTable_step (s : State) (ba limit : Nat) : WriteStep ba limit s (writeInfoTable s ba limit).2 :=
  (writeMgmtLoop_step _ s ba _ _).mono _ _ fun b _ _ => ⟨by omega, by omega⟩

theorem writeInfoTable_some {s : State} {ba limit st en : Nat} (h : (writeInfoTable s ba limit).1 = some (st, en)) :
    ba ≤ st ∧ st < en ∧ en ≤ limit := by
  obtain ⟨h1, h2, h3 | ⟨-, h3, h4⟩⟩ := writeMgmtLoop_some h
  · cases h3
  · exact ⟨h3, h4, by omega⟩

theorem writeInfoTable_eq_some {s s₁ : State} {ba limit st en : Nat} (h : writeInfoTable s ba limit = (some (st, en), s₁)) :
    ba ≤ st ∧ st < en ∧ en ≤ limit :=
  writeInfoTable_some (congrArg Prod.fst h)

theorem eraseLoop_step (n : Nat) (s : State) (ba : Nat) : WriteStep ba (ba + n) s (eraseLoop n s ba) := by
  induction n generalizing s ba with
  | zero => exact .refl _ _ s
  | succ n ih =>
    unfold eraseLoop
    have h := (eraseMgmtBlock_step s ba).mono ba (ba + (n + 1)) fun b _ _ => ⟨by omega, by omega⟩
    exact h.trans ((ih _ (ba + 1)).mono _ _ fun b _ _ => ⟨by omega, by omega⟩)

theorem eraseRange_step (s : State) (ba limit : Nat) : WriteStep ba limit s (eraseRange s ba limit) :=
  (eraseLoop_step _ s ba).mono _ _ fun b _ _ => ⟨by omega, by omega⟩

theorem writeDescending_step (lo n : Nat) (s : State) :
    WriteStep lo s.ni.mappingBlocksTopBa s (writeDescending lo n s).2 := by
  induction n generalizing s with
  | zero => exact writeInfoTable_step s lo _
  | succ n ih =>
    unfold writeDescending
    have hw := (writeInfoTable_step s (lo + (n + 1)) s.ni.mappingBlocksTopBa).mono lo s.ni.mappingBlocksTopBa fun b _ _ => ⟨by omega, by omega⟩
    rcases hr : writeInfoTable s (lo + (n + 1)) s.ni.mappingBlocksTopBa with ⟨_ | r, s₁⟩ <;> rw [hr] at hw <;> dsimp only at hw ⊢
    · have h := ih s₁
      rw [hw.sameMap.mappingBlocksTopBa] at h
      exact hw.trans h
    · exact hw

theorem writeDescending_some {lo n st en : Nat} {s : State} (h : (writeDescending lo n s).1 = some (st, en)) :
    lo ≤ st ∧ st < en ∧ en ≤ s.ni.mappingBlocksTopBa := by
  induction n generalizing s with
  | zero => exact writeInfoTable_some h
  | succ n ih =>
    unfold writeDescending at h
    have ht := (writeInfoTable_step s (lo + (n + 1)) s.ni.mappingBlocksTopBa).sameMap.mappingBlocksTopBa
    rcases hr : writeInfoTable s (lo + (n + 1)) s.ni.mappingBlocksTopBa with ⟨_ | r, s₁⟩ <;> rw [hr] at h ht <;> dsimp only at h ht
    · rw [← ht]
      exact ih h
    · cases h
      obtain ⟨h1, h2, h3⟩ := writeInfoTable_eq_some hr
      exact ⟨by omega, h2, h3⟩

theorem writeBehind_step (s : State) (lo : Nat) :
    WriteStep lo s.ni.mappingBlocksTopBa s (writeBehind s lo).2 := by
  unfold writeBehind
  rcases reserveSpare s.ni lo with _ | w
  · exact .refl _ _ s
  · exact writeDescending_step lo (w - lo) s

theorem writeBehind_eq_some {s s₁ : State} {lo st en : Nat} (h : writeBehind s lo = (some (some (st, en)), s₁)) :
    lo ≤ st ∧ st < en ∧ en ≤ s.ni.mappingBlocksTopBa := by
  unfold writeBehind at h
  rcases hw : reserveSpare s.ni lo with _ | w <;> rw [hw] at h
  · cases h
  · exact writeDescending_some (Option.some.inj (congrArg Prod.fst h))

end RainWrt.Nmbm
