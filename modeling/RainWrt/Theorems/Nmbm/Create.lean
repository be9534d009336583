import RainWrt.Theorems.Nmbm.Mapping

/-! What `nmbm_create_new` leaves in memory: the usable blocks below the management area in order, the
    signature above the spare region, and the tables inside it. -/

namespace RainWrt.Nmbm

/-! ### Scan and signature -/

theorem scanLoop_states (n ba : Nat) (s : State) : StateStep s (scanLoop n ba s) := by
  induction n generalizing ba s with
  | zero => exact .refl s
  | succ n ih =>
    unfold scanLoop
    have hc := (checkBadPhysBlock_step s ba).states
    rcases hr : checkBadPhysBlock s ba with ⟨_ | _, s₁⟩ <;> rw [hr] at hc <;> dsimp only
    · exact hc.trans (ih ..)
    · exact (hc.trans (setBlockState_states s₁ ba blockStBad)).trans (ih ..)

theorem writeRepeatedData_step (s : State) (b : Nat) (data : Bytes) : FlashStep b s (writeRepeatedData s b data).2 := by
  unfold writeRepeatedData
  split
  · exact .refl b s
  · exact writeVerifyPages_step ..

theorem retireBlock_states (s : State) (ba : Nat) : StateStep s (retireBlock s ba) :=
  (markPhysBadBlock_step s ba).states.trans (setBlockState_states ..)

theorem writeSignatureLoop_states (sig : Bytes) (n : Nat) (s : State) (ba : Nat) :
    StateStep s (writeSignatureLoop sig n s ba).2 := by
  induction n generalizing ba s with
  | zero => exact .refl s
  | succ n ih =>
    unfold writeSignatureLoop
    split
    · have hc := (checkBadPhysBlock_step s ba).states
      rcases hr : checkBadPhysBlock s ba with ⟨_ | _, s₁⟩ <;> rw [hr] at hc <;> dsimp only
      · have he := hc.trans (eraseBlockAndCheck_step s₁ ba).states
        rcases hr₂ : eraseBlockAndCheck s₁ ba with ⟨_ | _, s₂⟩ <;> rw [hr₂] at he <;> dsimp only
        · exact (he.trans (retireBlock_states s₂ ba)).trans (ih ..)
        · have hw := he.trans (writeRepeatedData_step s₂ ba sig).states
          rcases hr₃ : writeRepeatedData s₂ ba sig with ⟨_ | _, s₃⟩ <;> rw [hr₃] at hw <;> dsimp only
          · exact (hw.trans (retireBlock_states s₃ ba)).trans (ih ..)
          · exact hw
      · exact (hc.trans (setBlockState_states s₁ ba blockStBad)).trans (ih ..)
    · exact ih ..

/-- The signature lies on the way down from the last block. -/
theorem writeSignatureLoop_some {sig : Bytes} {n : Nat} {s : State} {ba r : Nat}
    (h : (writeSignatureLoop sig n s ba).1 = some r) : ba < r + n ∧ r ≤ ba := by
  induction n generalizing ba s with
  | zero => cases h
  | succ n ih =>
    -- every branch but the last goes on one block lower
    have hnext : ∀ s', (writeSignatureLoop sig n s' (ba - 1)).1 = some r → ba < r + (n + 1) ∧ r ≤ ba := by
      intro s' hs'
      have := ih hs'
      omega
    unfold writeSignatureLoop at h
    split at h
    · split at h
      · exact hnext _ h
      · split at h
        · exact hnext _ h
        · split at h
          · cases h
            omega
          · exact hnext _ h
    · exact hnext _ h

/-! ### Memory before the signature is written -/

section
variable (s : State)

/-- The state after `nmbm_scan_badblocks`. -/
def scanned : State := scanBadblocks { s with ni.mgmtStartBa := createMgmtStart s.ni }

theorem scanned_states : StateStep { s with ni.mgmtStartBa := createMgmtStart s.ni } (scanned s) := scanLoop_states ..

theorem scanned_same :
    (scanned s).ni.chip = s.ni.chip ∧ (scanned s).ni.mgmtStartBa = createMgmtStart s.ni := by
  have h := (scanned_states s).sameMap
  exact ⟨h.chip, h.mgmtStartBa⟩

theorem usableBlocks_lt {ni : Instance} {pb : Nat} (h : pb ∈ usableBlocks ni) : pb < ni.mgmtStartBa :=
  List.mem_range.mp (List.mem_filter.mp h).1

theorem usableBlocks_nodup (ni : Instance) : (usableBlocks ni).Nodup := List.nodup_range.filter _

theorem length_usableBlocks (ni : Instance) : (usableBlocks ni).length ≤ ni.mgmtStartBa := by
  have h := List.length_filter_le (fun pb => getBlockState ni pb != blockStBad) (List.range ni.mgmtStartBa)
  rwa [List.length_range] at h

theorem prepareNew_mapping : (prepareNew s).ni.blockMapping = (usableBlocks (scanned s).ni).map .ofNat ++
    List.replicate ((scanned s).ni.blockCount - (usableBlocks (scanned s).ni).length) 0xffffffff := rfl

/-- Logical block `i` is mapped to the usable block with that number. -/
theorem prepareNew_entry {i : Nat} (hi : i < (usableBlocks (scanned s).ni).length) :
    (prepareNew s).ni.blockMapping[i]? = some (.ofNat (usableBlocks (scanned s).ni)[i]) := by
  rw [prepareNew_mapping, List.getElem?_append_left (by simpa using hi), List.getElem?_map, List.getElem?_eq_getElem hi]
  rfl

end

/-! ### A new instance -/

section
variable {d : Nat} {s s' : State}

/-- What `nmbm_create_new` did before the tables were written. -/
theorem createNew_true (h : createNew s = (true, s')) :
    ∃ ba s₁, writeSignature (prepareNew s) (createMgmtStart s.ni) (prepareNew s).ni.signature.toBytes = (some ba, s₁) ∧
      createInfoTable { s₁ with ni.signatureBa := ba } = (true, s') := by
  unfold createNew at h
  have hm : (prepareNew s).ni.mgmtStartBa = createMgmtStart s.ni := (scanned_same s).2
  dsimp only at h
  rw [hm] at h
  rcases hr : writeSignature (prepareNew s) (createMgmtStart s.ni) (prepareNew s).ni.signature.toBytes with ⟨_ | ba, s₁⟩ <;>
    rw [hr] at h
  · cases h
  · exact ⟨ba, s₁, rfl, h⟩

/-- What `nmbm_create_info_table` did. -/
theorem createInfoTable_true (h : createInfoTable s = (true, s')) :
    ∃ top s₁, blockWalkDesc s.ni s.ni.signatureBa 1 s.ni.mgmtStartBa = some top ∧
      rebuildInfoTable (generateInfoTableCache { s with ni.mappingBlocksTopBa := top }).2 = (true, s₁) ∧
      updateInfoTable (createMapLoop (s₁.ni.mgmtStartBa - s₁.ni.dataBlockCount) s₁.ni.dataBlockCount s₁) = (true, s') := by
  unfold createInfoTable at h
  rcases hw : blockWalkDesc s.ni s.ni.signatureBa 1 s.ni.mgmtStartBa with _ | top <;> rw [hw] at h <;> dsimp only at h
  · cases h
  · rcases hr : rebuildInfoTable (generateInfoTableCache { s with ni.mappingBlocksTopBa := top }).2 with ⟨_ | _, s₁⟩ <;>
      rw [hr] at h
    · cases h
    · exact ⟨top, s₁, rfl, hr, h⟩

theorem createMapLoop_layout (hL : Layout s.ni) (n lb : Nat) :
    Layout (createMapLoop n lb s).ni ∧ s.trace <:+ (createMapLoop n lb s).trace := by
  induction n generalizing s lb with
  | zero => exact ⟨hL, List.suffix_rfl⟩
  | succ n ih =>
    unfold createMapLoop
    obtain ⟨h1, h2⟩ := mapBlock_layout hL lb
    have h3 := (List.suffix_cons _ _).trans h2
    rcases hr : mapBlock s lb with ⟨_ | _, s₁⟩ <;> rw [hr] at h1 h3 <;> dsimp only
    · exact ⟨h1, h3⟩
    · obtain ⟨h4, h5⟩ := ih (s := { s₁ with ni.dataBlockCount := s₁.ni.dataBlockCount + 1 })
        ⟨h1.start_le, h1.le_top, h1.main, h1.backup, h1.backup_le⟩ (lb + 1)
      exact ⟨h4, h3.trans h5⟩

theorem mapBlock_true_same {lb : Nat} (h : mapBlock s lb = (true, s')) :
    s'.ni.dataBlockCount = s.ni.dataBlockCount ∧ s'.ni.mgmtStartBa = s.ni.mgmtStartBa := by
  rcases mapBlock_cases s lb with ⟨-, hc⟩ | ⟨-, hc⟩ | ⟨pb, -, -, hc⟩ <;> rw [h] at hc
  · cases hc
  · cases hc
  · rw [(Prod.mk.inj hc).2]
    exact ⟨rfl, rfl⟩

/-- The blocks at the end of the data area are mapped one after the other. -/
theorem MapInv.createMapLoop (h : MapInv d s) {n : Nat} (hn : s.ni.dataBlockCount + n ≤ s.ni.mgmtStartBa)
    (hskip : ∀ e ∈ (createMapLoop n s.ni.dataBlockCount s).trace, e.SkipsAtMost d) :
    MapInv d (createMapLoop n s.ni.dataBlockCount s) := by
  induction n generalizing s with
  | zero => exact h
  | succ n ih =>
    unfold Nmbm.createMapLoop at hskip ⊢
    have hL := mapBlock_layout h.layout s.ni.dataBlockCount
    rcases hr : mapBlock s s.ni.dataBlockCount with ⟨_ | _, s₁⟩ <;> rw [hr] at hskip hL <;> dsimp only at hskip hL ⊢
    · exact h.mapBlock_false hr
    · obtain ⟨hd, hm⟩ := mapBlock_true_same hr
      have hL' : Layout { s₁.ni with dataBlockCount := s.ni.dataBlockCount + 1 } :=
        ⟨hL.1.start_le, hL.1.le_top, hL.1.main, hL.1.backup, hL.1.backup_le⟩
      rw [hd] at hskip ⊢
      have hgrow := (createMapLoop_layout (s := { s₁ with ni.dataBlockCount := s.ni.dataBlockCount + 1 }) hL' n
        (s.ni.dataBlockCount + 1)).2
      have hmap := hskip _ (hgrow.mem (hL.2.mem List.mem_cons_self))
      have hcount : s.ni.dataBlockCount < s.ni.blockCount := by
        have h1 := h.placed.start_le
        have h2 := h.placed.top_lt
        have h3 := h.placed.sig_lt
        omega
      exact ih (h.mapBlock_true hr hmap hcount (by omega) fun i hi hne => by omega) (by dsimp only; omega) hskip

/-- The mapping before any spare block is taken. -/
theorem placed_prepareNew {s₁ : State} {ba top : Nat} (hs : StateStep (prepareNew s) s₁)
    (hm : createMgmtStart s.ni < top) (ht : top < ba) (hb : ba < s.ni.blockCount) :
    Placed d { s₁.ni with signatureBa := ba, mappingBlocksTopBa := top } ∧
      MappingInjective { s₁.ni with signatureBa := ba, mappingBlocksTopBa := top } := by
  have hsame := hs.sameMap
  have hchip : s₁.ni.chip = s.ni.chip := hsame.chip.trans (scanned_same s).1
  have hstart : s₁.ni.mgmtStartBa = createMgmtStart s.ni := hsame.mgmtStartBa.trans (scanned_same s).2
  have hdata : s₁.ni.dataBlockCount = (usableBlocks (scanned s).ni).length := hsame.dataBlockCount
  have hle := length_usableBlocks (scanned s).ni
  rw [(scanned_same s).2] at hle
  have hlt : ∀ i (hi : i < (usableBlocks (scanned s).ni).length), (usableBlocks (scanned s).ni)[i] < createMgmtStart s.ni := by
    intro i hi
    rw [← (scanned_same s).2]
    exact usableBlocks_lt (List.getElem_mem hi)
  have hbc : s.ni.blockCount = s.ni.chip.totalBlks := rfl
  have h16 := s.ni.chip.totalBlks_lt
  have htoNat : ∀ i (hi : i < (usableBlocks (scanned s).ni).length),
      (UInt32.ofNat (usableBlocks (scanned s).ni)[i]).toNat = (usableBlocks (scanned s).ni)[i] := by
    intro i hi
    have := hlt i hi
    rw [UInt32.toNat_ofNat', Nat.mod_eq_of_lt (by omega)]
  have hlen : (prepareNew s).ni.blockMapping.length = s.ni.blockCount := by
    have : (scanned s).ni.blockCount = s.ni.blockCount := congrArg Chip.totalBlks (scanned_same s).1
    rw [prepareNew_mapping, List.length_append, List.length_map, List.length_replicate]
    omega
  have hget : ∀ i (hi : i < (usableBlocks (scanned s).ni).length),
      s₁.ni.blockMapping[i]? = some (.ofNat (usableBlocks (scanned s).ni)[i]) := by
    intro i hi
    rw [hsame.blockMapping]
    exact prepareNew_entry s hi
  refine ⟨⟨?_, ?_, ?_, ht, ?_, fun i hi e he => .inl ?_⟩, fun i hi j hj hij => ?_⟩
  · show s₁.ni.blockMapping.length = s₁.ni.chip.totalBlks
    rw [hsame.blockMapping, hlen, hchip, hbc]
  · show s₁.ni.dataBlockCount ≤ s₁.ni.mgmtStartBa
    omega
  · show s₁.ni.mgmtStartBa ≤ top
    omega
  · show ba < s₁.ni.chip.totalBlks
    rw [hchip]
    exact hb
  · have hi' : i < (usableBlocks (scanned s).ni).length := by rw [← hdata]; exact hi
    have he' := (hget i hi').symm.trans he
    show e.toNat < s₁.ni.mgmtStartBa
    rw [← Option.some.inj he', htoNat i hi', hstart]
    exact hlt i hi'
  · have hi' : i < (usableBlocks (scanned s).ni).length := by rw [← hdata]; exact hi
    have hj' : j < (usableBlocks (scanned s).ni).length := by rw [← hdata]; exact hj
    have hij' : s₁.ni.blockMapping[i]? = s₁.ni.blockMapping[j]? := hij
    rw [hget i hi', hget j hj', Option.some.injEq] at hij'
    have hnat := congrArg UInt32.toNat hij'
    rw [htoNat i hi', htoNat j hj'] at hnat
    exact (List.Nodup.getElem_inj_iff (usableBlocks_nodup _)).mp hnat

/-- The signature lies behind the management boundary, and the spare region between them. -/
theorem createNew_top (h : createNew s = (true, s')) :
    ∃ ba top s₁ s₂, StateStep (prepareNew s) s₁ ∧ createMgmtStart s.ni < top ∧ top < ba ∧ ba < s.ni.blockCount ∧
      rebuildInfoTable (generateInfoTableCache { s₁ with ni.signatureBa := ba, ni.mappingBlocksTopBa := top }).2 = (true, s₂) ∧
      updateInfoTable (Nmbm.createMapLoop (s₂.ni.mgmtStartBa - s₂.ni.dataBlockCount) s₂.ni.dataBlockCount s₂) = (true, s') := by
  obtain ⟨ba, s₁, hw, hc⟩ := createNew_true h
  obtain ⟨top, s₂, hwalk, hre, hup⟩ := createInfoTable_true hc
  have hs := writeSignatureLoop_states (prepareNew s).ni.signature.toBytes
    ((prepareNew s).ni.blockCount - 1 - createMgmtStart s.ni) (prepareNew s) ((prepareNew s).ni.blockCount - 1)
  rw [← writeSignature, hw] at hs
  have hbc : (prepareNew s).ni.blockCount = s.ni.blockCount := congrArg Chip.totalBlks (scanned_same s).1
  have hbc₁ : s₁.ni.blockCount = s.ni.blockCount := (congrArg Chip.totalBlks hs.sameMap.chip).trans hbc
  obtain ⟨h1, h2⟩ := writeSignatureLoop_some (congrArg Prod.fst hw)
  rw [hbc] at h1 h2
  have hpos := s.ni.chip.totalBlks_pos
  have htot : s.ni.blockCount = s.ni.chip.totalBlks := rfl
  have hstart : s₁.ni.mgmtStartBa = createMgmtStart s.ni := hs.sameMap.mgmtStartBa.trans (scanned_same s).2
  have hlim : walkLimit { s₁.ni with signatureBa := ba } s₁.ni.mgmtStartBa = createMgmtStart s.ni := by
    unfold walkLimit
    rw [if_neg (by show ¬s₁.ni.mgmtStartBa ≥ s₁.ni.blockCount; omega), hstart]
  obtain ⟨h3, -, -⟩ := blockWalkDesc_some hwalk
  have h4 := walkDescLoop_lt hwalk (Nat.sub_le _ _)
  rw [hlim] at h3
  exact ⟨ba, top, s₁, s₂, hs, h3, h4, by omega, hre, hup⟩

theorem createNew_layout (h : createNew s = (true, s')) : Layout s'.ni := by
  obtain ⟨ba, top, s₁, s₂, hs, hm, ht, hb, hre, hup⟩ := createNew_top h
  have hstart : s₁.ni.mgmtStartBa = createMgmtStart s.ni := hs.sameMap.mgmtStartBa.trans (scanned_same s).2
  have hmt := rebuildInfoTable_maintains (s := (generateInfoTableCache
    { s₁ with ni.signatureBa := ba, ni.mappingBlocksTopBa := top }).2) (by show s₁.ni.mgmtStartBa ≤ top; omega)
  rw [hre] at hmt
  have hl := (updateInfoTable_layout (createMapLoop_layout hmt.2 (s₂.ni.mgmtStartBa - s₂.ni.dataBlockCount) s₂.ni.dataBlockCount).1).1
  rwa [hup] at hl

/-- A new instance satisfies the invariant if its creation skipped at most `d` blocks each time. -/
theorem createNew_inv (h : createNew s = (true, s')) (htr : s.trace = []) (hskip : ∀ e ∈ s'.trace, e.SkipsAtMost d) :
    MapInv d s' := by
  obtain ⟨ba, top, s₁, s₂, hs, hm, ht, hb, hre, hup⟩ := createNew_top h
  obtain ⟨hP, hI⟩ := placed_prepareNew (d := d) hs hm ht hb
  have hstart : s₁.ni.mgmtStartBa = createMgmtStart s.ni := hs.sameMap.mgmtStartBa.trans (scanned_same s).2
  have hg := MgmtStep.generate { s₁ with ni.signatureBa := ba, ni.mappingBlocksTopBa := top }
  have hmt := rebuildInfoTable_maintains (s := (generateInfoTableCache
    { s₁ with ni.signatureBa := ba, ni.mappingBlocksTopBa := top }).2) (by show s₁.ni.mgmtStartBa ≤ top; omega)
  rw [hre] at hmt
  -- up to here only block states have changed
  have hsafe : ∀ e ∈ s₁.trace, e.Safe := by
    intro e he
    rcases hs.trace e he with he | ⟨b, rfl⟩
    · rcases (scanned_states s).trace e he with he | ⟨b, rfl⟩
      · have he' : e ∈ s.trace := he
        rw [htr] at he'
        cases he'
      · trivial
    · trivial
  have h₂ : MapInv d s₂ := .of_maintains (s := { s₁ with ni.signatureBa := ba, ni.mappingBlocksTopBa := top })
    hP (fun _ => hI) (fun _ => hsafe) ⟨hg.trans hmt.1, hmt.2⟩
  have hdata := h₂.placed.data_le
  have hL := createMapLoop_layout h₂.layout (s₂.ni.mgmtStartBa - s₂.ni.dataBlockCount) s₂.ni.dataBlockCount
  have hup' := updateInfoTable_layout hL.1
  have hmu := updateInfoTable_maintains hL.1
  rw [hup] at hup' hmu
  exact (h₂.createMapLoop (by omega) fun e he => hskip e (hup'.2.mem he)).maintains hmu

/-- In a run in which the invariant's condition holds, so does the invariant. -/
theorem run_inv (h : createNew s = (true, s')) (htr : s.trace = []) {ops : List Op}
    (hskip : ∀ e ∈ (run s' ops).trace, e.SkipsAtMost d) : MapInv d (run s' ops) :=
  (createNew_inv h htr fun e he => hskip e ((run_layout (createNew_layout h) ops).2.mem he)).run hskip

end

end RainWrt.Nmbm
