import RainWrt.Theorems.Nmbm.Persist

/-! Whole runs: an instance is created on any chip, then blocks are remapped and the tables updated in any
    order, and every operation of the chip may fail. -/

namespace RainWrt.Nmbm

section
variable (c : Chip) (maxRatio maxReservedBlocks : Nat) (emptyPageEccOk forceCreate : Bool) (n : Nand) (ops : List Op)

/-- Two logical blocks never share a physical block, in every run in which each call of `nmbm_map_block`
    finds the top block of the spare region good. -/
theorem blockMapping_injective {s : State}
    (h : createNew (freshState c maxRatio maxReservedBlocks emptyPageEccOk forceCreate n) = (true, s))
    (hskip : ∀ e ∈ (run s ops).trace, e.SkipsAtMost 0) : MappingInjective (run s ops).ni :=
  (run_inv h rfl hskip).injective rfl

/-- Table maintenance never erases or programs a mapped block or the signature, in every run in which each
    call of `nmbm_map_block` finds a good block among the two top ones of the spare region. -/
theorem mgmt_writes_safe {s : State}
    (h : createNew (freshState c maxRatio maxReservedBlocks emptyPageEccOk forceCreate n) = (true, s))
    (hskip : ∀ e ∈ (run s ops).trace, e.SkipsAtMost 1) : ∀ e ∈ (run s ops).trace, e.Safe :=
  (run_inv h rfl hskip).safe (Nat.le_refl _)

/-- When `nmbm_update_info_table` reports success, the tables are on the chip, in every run in which the
    tables are never marked clean after a block state has changed behind the image. -/
theorem update_stores_tables {s s' : State}
    (h : createNew (freshState c maxRatio maxReservedBlocks emptyPageEccOk forceCreate n) = (true, s))
    (hp : (run s ops).ni.protected = false) (hu : updateInfoTable (run s ops) = (true, s'))
    (hn : noLostChange s'.trace = true) : TableOnFlash s' := by
  have hs := (createNew_store h (formed_freshState ..)).run ops
  obtain ⟨-, hd⟩ := hs.update
  rw [hu] at hd
  exact hd hp rfl hn

end

theorem eq_of_fst {α : Type} {p : Bool × α} (h : p.1 = true) : p = (true, p.2) := by
  rw [← h]

/-- A chip of 24 blocks with four pages each. -/
def smallChip : Chip := ⟨24, 8, 6, 64, by decide, by decide, by decide, by decide, by decide⟩

/-- An erased chip with the given bad blocks. -/
def erasedNand (bad : List Nat) : Nand where
  page _ _ := .erased
  bad b := bad.contains b
  emptyOk := true
  fault _ := .none

/-- The chip `n`, on which every erasure fails from operation `t` to before operation `t'`. -/
def failDuring (n : Nand) (t t' : Nat) : Nand :=
  { n with fault := fun k => if t ≤ k ∧ k < t' then { erase := some fun _ => .corrupt } else .none }

/-- A run on the small chip with at most `maxReservedBlocks` management blocks, eight sixteenths of it by default. -/
def smallRun (maxReservedBlocks : Nat) (n : Nand) (ops : List Op) : State :=
  run (createNew (freshState smallChip 8 maxReservedBlocks true false n)).2 ops

/-- Block `b` alone holds a table with the block states of the instance. -/
def holdsState (s : State) (b : Nat) : Bool :=
  match s.nand.peekPages s.ni.chip.pgSize b (s.ni.chip.infoTableSize / s.ni.chip.pgSize) 0 with
  | .ok img => imageState s.ni img == s.ni.blockState
  | .error _ => false

theorem TableOnFlash.holdsState {s : State} (h : TableOnFlash s) (hs : s.ni.chip.infoTableSize ≤ s.ni.chip.blkSize) :
    ∃ b < s.ni.mappingBlocksBa, holdsState s b = true := by
  obtain ⟨img, hl, he, bs, hsub, hst⟩ := h
  have hpos : 0 < img.length := by
    obtain ⟨h1, h2, h3⟩ := s.ni.chip.offsets
    omega
  rw [pieces_single hpos (by omega)] at hst
  rcases hst with _ | ⟨hb, hnil⟩
  cases hnil
  rename_i b
  have := List.mem_range'_1.mp (hsub.subset (List.mem_singleton_self b))
  refine ⟨b, by omega, ?_⟩
  rw [Nand.Holds, hl] at hb
  simp [Nmbm.holdsState, hb, he.state]

/-- The erasure of block 17 fails while the backup table is written in a remap. -/
def lossyRun : State := smallRun 10 (failDuring (erasedNand []) 80 83) [.remap 0 0 0]

/-- Creation succeeds on the small chip. -/
def Created (maxReservedBlocks : Nat) (n : Nand) : Prop :=
  (createNew (freshState smallChip 8 maxReservedBlocks true false n)).1 = true

instance (maxReservedBlocks : Nat) (n : Nand) : Decidable (Created maxReservedBlocks n) :=
  inferInstanceAs (Decidable (_ = true))

set_option maxRecDepth 100000 in
/-- The runs on the small chip that follow, evaluated. -/
theorem smallRuns_eval :
    (Created 0 (erasedNand [20]) ∧
      ∀ e ∈ (smallRun 0 (erasedNand [20]) [.remap 0 0 0, .remap 1 1 64]).trace, e.SkipsAtMost 0) ∧
    (Created 0 (erasedNand [21]) ∧
      ¬MappingInjective (smallRun 0 (erasedNand [21]) [.remap 0 0 0, .remap 1 1 0, .remap 2 2 0]).ni) ∧
    (Created 10 (failDuring (erasedNand [21]) 107 1000) ∧
      ∀ e ∈ (smallRun 10 (failDuring (erasedNand [21]) 107 1000) [.remap 0 0 0, .remap 1 1 0, .update]).trace, e.SkipsAtMost 1) ∧
    (Created 10 (failDuring (erasedNand [20, 21]) 107 1000) ∧
      ¬∀ e ∈ (smallRun 10 (failDuring (erasedNand [20, 21]) 107 1000) [.remap 0 0 0, .remap 1 1 0]).trace, e.Safe) ∧
    (Created 10 (erasedNand []) ∧ (smallRun 10 (erasedNand []) [.remap 0 0 0]).ni.protected = false ∧
      (updateInfoTable (smallRun 10 (erasedNand []) [.remap 0 0 0])).1 = true ∧
      noLostChange (updateInfoTable (smallRun 10 (erasedNand []) [.remap 0 0 0])).2.trace = true) ∧
    Created 10 (failDuring (erasedNand []) 80 83) ∧ lossyRun.ni.protected = false ∧ (updateInfoTable lossyRun).1 = true ∧
      (updateInfoTable lossyRun).2.ni.chip = smallChip ∧
      ∀ b < (updateInfoTable lossyRun).2.ni.mappingBlocksBa, holdsState (updateInfoTable lossyRun).2 b = false := by
  refine ⟨?_, ?_, ?_, ?_, ?_, ?_⟩ <;> decide +kernel

/-- With block 20 bad, the spare blocks 22 and 21 go to two logical blocks. -/
theorem blockMapping_injective_small :
    MappingInjective (smallRun 0 (erasedNand [20]) [.remap 0 0 0, .remap 1 1 64]).ni := by
  obtain ⟨⟨h1, h2⟩, -⟩ := smallRuns_eval
  exact blockMapping_injective smallChip 8 0 true false (erasedNand [20]) _ (eq_of_fst h1) h2

/-- With block 21 bad, two logical blocks share block 20: the first walk that finds 20 starts at 21, the
    second one at 20. -/
theorem blockMapping_not_injective :
    (createNew (freshState smallChip 8 0 true false (erasedNand [21]))).1 = true ∧
      ¬MappingInjective (smallRun 0 (erasedNand [21]) [.remap 0 0 0, .remap 1 1 0, .remap 2 2 0]).ni := by
  obtain ⟨-, h, -⟩ := smallRuns_eval
  exact h

theorem mgmt_writes_safe_small :
    (createNew (freshState smallChip 8 10 true false (failDuring (erasedNand [21]) 107 1000))).1 = true ∧
      ∀ e ∈ (smallRun 10 (failDuring (erasedNand [21]) 107 1000) [.remap 0 0 0, .remap 1 1 0, .update]).trace, e.Safe := by
  obtain ⟨-, -, ⟨h1, h2⟩, -⟩ := smallRuns_eval
  exact ⟨h1, mgmt_writes_safe smallChip 8 10 true false (failDuring (erasedNand [21]) 107 1000) _ (eq_of_fst h1) h2⟩

/-- With blocks 20 and 21 bad, block 19 is mapped while the spare region still reaches to it. When erasing
    fails from then on, the backup table moves from 17 over 18 to 19. -/
theorem mgmt_writes_not_safe :
    (createNew (freshState smallChip 8 10 true false (failDuring (erasedNand [20, 21]) 107 1000))).1 = true ∧
      ¬∀ e ∈ (smallRun 10 (failDuring (erasedNand [20, 21]) 107 1000) [.remap 0 0 0, .remap 1 1 0]).trace, e.Safe := by
  obtain ⟨-, -, -, h, -⟩ := smallRuns_eval
  exact h

theorem update_stores_tables_small :
    TableOnFlash (updateInfoTable (smallRun 10 (erasedNand []) [.remap 0 0 0])).2 := by
  obtain ⟨-, -, -, -, ⟨h1, h2, h3, h4⟩, -⟩ := smallRuns_eval
  simp only [smallRun] at h2 h3 h4 ⊢
  exact update_stores_tables smallChip 8 10 true false (erasedNand []) [.remap 0 0 0] (eq_of_fst h1) h2 (eq_of_fst h3) h4

/-- Block 18 takes the backup table, which says that 17 is good, and the tables are marked clean. -/
theorem update_loses_bad_block :
    (createNew (freshState smallChip 8 10 true false (failDuring (erasedNand []) 80 83))).1 = true ∧
      lossyRun.ni.protected = false ∧ (updateInfoTable lossyRun).1 = true ∧ ¬TableOnFlash (updateInfoTable lossyRun).2 := by
  obtain ⟨-, -, -, -, -, h1, h2, h3, h4, h5⟩ := smallRuns_eval
  refine ⟨h1, h2, h3, fun h => ?_⟩
  obtain ⟨b, hb, hs⟩ := h.holdsState (by rw [h4]; decide)
  rw [h5 b hb] at hs
  cases hs

end RainWrt.Nmbm
