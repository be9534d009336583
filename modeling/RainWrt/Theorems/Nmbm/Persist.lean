import RainWrt.Theorems.Nmbm.Store
import RainWrt.Theorems.Nmbm.Create

/-! What `nmbm_update_info_table` leaves on the chip. A pass makes one image of the tables and writes it
    up to three times; `nmbm_mark_tables_clean` then says that the tables are stored. A bad block that the
    writes found after the image was made is not in the image, so what a run keeps depends on whether such
    a change is marked clean. -/

namespace RainWrt.Nmbm

/-! ### Changes that an image misses -/

/-- A block state has changed since the last image was made. -/
def changedSince : List Event → Bool
  | [] => false
  | .cacheGenerated :: _ => false
  | .stateChanged _ :: _ => true
  | _ :: es => changedSince es

/-- The tables were never marked clean when a block state had changed since the image was made. -/
def noLostChange : List Event → Bool
  | [] => true
  | .clean :: es => !changedSince es && noLostChange es
  | _ :: es => noLostChange es

theorem noLostChange_append {evs es : List Event} (h : noLostChange (evs ++ es) = true) : noLostChange es = true := by
  induction evs with
  | nil => exact h
  | cons e evs ih =>
    cases e <;> simp only [List.cons_append, noLostChange, Bool.and_eq_true] at h
    case clean => exact ih h.2
    all_goals exact ih h

/-- Writing in a range makes no image. -/
theorem changedSince_append {lo hi : Nat} {ni : Instance} {evs es : List Event} (he : ∀ e ∈ evs, RangeEvent lo hi ni e)
    (h : changedSince (evs ++ es) = false) : (∀ b, .stateChanged b ∉ evs) ∧ changedSince es = false := by
  induction evs with
  | nil => exact ⟨by simp, h⟩
  | cons e evs ih =>
    rcases he e List.mem_cons_self with ⟨b, rfl⟩ | ⟨b, ni', rfl, -⟩
    · simp [changedSince] at h
    · obtain ⟨h1, h2⟩ := ih (fun e h => he e (List.mem_cons_of_mem _ h)) (by simpa [changedSince] using h)
      exact ⟨by simpa using h1, h2⟩

/-! ### Images -/

/-- `img` passes the checks of the loader and holds the tables of `ni`. -/
structure Encodes (ni : Instance) (img : Bytes) : Prop where
  header : checkInfoTableHeader ni img = true
  checksum : checkHeader img ni.chip.infoTableSize = true
  state : imageState ni img = ni.blockState
  mapping : imageMapping ni img = ni.blockMapping

/-- The pieces of `img` lie on blocks of `[lo, hi)`, in order. -/
def OnFlash (lo hi : Nat) (img : Bytes) (s : State) : Prop :=
  ∃ bs, List.Sublist bs (List.range' lo (hi - lo)) ∧ Stored s.nand s.ni.chip bs (pieces s.ni.chip.blkSize img)

/-- A valid table in the management area holds the tables of the instance. -/
def TableOnFlash (s : State) : Prop :=
  ∃ img, img.length = s.ni.chip.infoTableSize ∧ Encodes s.ni img ∧ OnFlash s.ni.mgmtStartBa s.ni.mappingBlocksBa img s

/-- `img` was made in this pass. -/
structure Pass (img : Bytes) (s : State) : Prop where
  cache : s.ni.infoTableCache = img
  length : img.length = s.ni.chip.infoTableSize
  header : checkInfoTableHeader s.ni img = true
  checksum : checkHeader img s.ni.chip.infoTableSize = true
  mapping : imageMapping s.ni img = s.ni.blockMapping
  state : changedSince s.trace = false → imageState s.ni img = s.ni.blockState

/-- The tables have changed since they were marked clean, or `img` holds them. -/
def Settled (img : Bytes) (s : State) : Prop := s.ni.dirty = true ∨ Encodes s.ni img

section
variable {img : Bytes} {s s' : State} {lo hi lo' hi' : Nat}

theorem OnFlash.mono (h : OnFlash lo hi img s) (h1 : lo' ≤ lo) (h2 : hi ≤ hi') : OnFlash lo' hi' img s := by
  obtain ⟨bs, hsub, hst⟩ := h
  refine ⟨bs, hsub.trans ?_, hst⟩
  by_cases hle : lo ≤ hi
  · have h3 : List.range' lo' (hi' - lo') =
        List.range' lo' (lo - lo') ++ (List.range' lo (hi - lo) ++ List.range' hi (hi' - hi)) := by
      rw [show List.range' hi (hi' - hi) = List.range' (lo + 1 * (hi - lo)) (hi' - hi) by rw [Nat.one_mul, Nat.add_sub_cancel' hle],
        List.range'_append,
        show List.range' lo (hi - lo + (hi' - hi)) = List.range' (lo' + 1 * (lo - lo')) (hi - lo + (hi' - hi)) by
          rw [Nat.one_mul, Nat.add_sub_cancel' h1], List.range'_append]
      congr 1
      omega
    rw [h3]
    exact (List.sublist_append_left _ _).trans (List.sublist_append_right _ _)
  · rw [show hi - lo = 0 by omega]
    exact List.nil_sublist _

/-- Writing elsewhere keeps a stored table. -/
theorem OnFlash.write (h : OnFlash lo hi img s) (hw : WriteStep lo' hi' s s') (hd : hi ≤ lo' ∨ hi' ≤ lo) :
    OnFlash lo hi img s' := by
  obtain ⟨bs, hsub, hst⟩ := h
  refine ⟨bs, hsub, ?_⟩
  rw [hw.sameMap.chip]
  refine hst.congr (fun b hb => hw.page b fun h1 h2 => ?_) hw.emptyOk
  have := List.mem_range'_1.mp (hsub.subset hb)
  omega

theorem OnFlash.of_stored (hc : s.ni.chip = s'.ni.chip) (h : Stored s'.nand s.ni.chip (goodBlocks s'.ni lo hi) (pieces s.ni.chip.blkSize img)) :
    OnFlash lo hi img s' := by
  rw [hc] at h
  exact ⟨_, List.filter_sublist, h⟩

theorem OnFlash.clean (h : OnFlash lo hi img s) : OnFlash lo hi img (markTablesClean s) := h

theorem Encodes.of_same {ni ni' : Instance} (h : Encodes ni img) (hc : ni'.chip = ni.chip) (hs : ni'.blockState = ni.blockState)
    (hm : ni'.blockMapping = ni.blockMapping) : Encodes ni' img where
  header := by
    rw [← h.header]
    simp only [checkInfoTableHeader, hc]
  checksum := by rw [hc, h.checksum]
  state := by
    rw [hs, ← h.state]
    simp only [imageState, hc]
  mapping := by
    rw [hm, ← h.mapping]
    simp only [imageMapping, hc]

theorem Settled.write (h : Settled img s) (hw : WriteStep lo hi s s') : Settled img s' := by
  obtain ⟨evs, -, -, hq, hn⟩ := hw.trace
  by_cases hsome : ∃ b, Event.stateChanged b ∈ evs
  · obtain ⟨b, hb⟩ := hsome
    have := hn b hb
    exact .inl (by simp [Instance.dirty]; omega)
  · obtain ⟨h1, h2⟩ := hq fun b hb => hsome ⟨b, hb⟩
    rcases h with h | h
    · left
      rw [← h]
      simp only [Instance.dirty, h2, hw.cache.2.2]
    · exact .inr (h.of_same hw.sameMap.chip h1 hw.sameMap.blockMapping)

theorem Pass.write (h : Pass img s) (hw : WriteStep lo hi s s') : Pass img s' where
  cache := hw.cache.1.trans h.cache
  length := by rw [hw.sameMap.chip, h.length]
  header := by
    rw [← h.header]
    simp only [checkInfoTableHeader, hw.sameMap.chip]
  checksum := by rw [hw.sameMap.chip, h.checksum]
  mapping := by
    rw [hw.sameMap.blockMapping, ← h.mapping]
    simp only [imageMapping, hw.sameMap.chip]
  state hc := by
    obtain ⟨evs, ht, he, hq, -⟩ := hw.trace
    rw [ht] at hc
    obtain ⟨h1, h2⟩ := changedSince_append he hc
    rw [(hq h1).1, ← h.state h2]
    simp only [imageState, hw.sameMap.chip]

/-- Marking the tables clean is right when no change was lost. -/
theorem Pass.clean (h : Pass img s) (hn : noLostChange (markTablesClean s).trace = true) :
    Pass img (markTablesClean s) ∧ Settled img (markTablesClean s) := by
  have hc : changedSince s.trace = false := by
    simp only [markTablesClean, noLostChange, Bool.and_eq_true] at hn
    simpa using hn.1
  exact ⟨⟨h.cache, h.length, h.header, h.checksum, h.mapping, fun _ => h.state hc⟩,
    .inr ⟨h.header, h.checksum, h.state hc, h.mapping⟩⟩

/-- The start of a pass. -/
theorem Pass.generate (hf : Formed s.ni) : Pass (generateInfoTableCache s).2.ni.infoTableCache (generateInfoTableCache s).2 := by
  have hs := stamped_generateHeader s.ni
  obtain ⟨h1, h2⟩ := checkHeader_tableImage hf hs
  have h3 := imageMapping_tableImage hf hs
  have h4 := imageState_tableImage hf hs
  exact ⟨rfl, length_tableImage hf, h1, h2, h3, fun _ => h4⟩

theorem writeInfoTable_onFlash {ba limit st en : Nat} (hp : Pass img s) (h : writeInfoTable s ba limit = (some (st, en), s')) :
    OnFlash st en img s' := by
  have hst := writeInfoTable_stored h (by rw [hp.cache, hp.length])
  have hchip := (writeInfoTable_step s ba limit).sameMap.chip
  rw [h] at hchip
  rw [hp.cache] at hst
  exact .of_stored hchip.symm hst

theorem writeBehind_onFlash {ba st en : Nat} (hp : Pass img s) (h : writeBehind s ba = (some (some (st, en)), s')) :
    OnFlash st en img s' := by
  have hst := writeBehind_stored h (by rw [hp.cache, hp.length])
  have hchip := (writeBehind_step s ba).sameMap.chip
  rw [h] at hchip
  rw [hp.cache] at hst
  exact .of_stored hchip.symm hst

/-- `s'` differs from `s` in where the tables are said to lie only. -/
structure Moved (s s' : State) : Prop where
  nand : s'.nand = s.nand
  trace : s'.trace = s.trace
  chip : s'.ni.chip = s.ni.chip
  blockState : s'.ni.blockState = s.ni.blockState
  blockMapping : s'.ni.blockMapping = s.ni.blockMapping
  dirty : s'.ni.dirty = s.ni.dirty
  cache : s'.ni.infoTableCache = s.ni.infoTableCache

theorem OnFlash.moved (h : OnFlash lo hi img s) (hm : Moved s s') : OnFlash lo hi img s' := by
  unfold OnFlash
  rw [hm.nand, hm.chip]
  exact h

theorem Settled.moved (h : Settled img s) (hm : Moved s s') : Settled img s' := by
  rcases h with h | h
  · exact .inl (hm.dirty.trans h)
  · exact .inr (h.of_same hm.chip hm.blockState hm.blockMapping)

theorem Pass.moved (h : Pass img s) (hm : Moved s s') : Pass img s' where
  cache := hm.cache.trans h.cache
  length := by rw [hm.chip, h.length]
  header := by
    rw [← h.header]
    simp only [checkInfoTableHeader, hm.chip]
  checksum := by rw [hm.chip, h.checksum]
  mapping := by
    rw [hm.blockMapping, ← h.mapping]
    simp only [imageMapping, hm.chip]
  state hc := by
    rw [hm.trace] at hc
    rw [hm.blockState, ← h.state hc]
    simp only [imageState, hm.chip]

/-! ### Procedures -/

/-- The tables have changed, or they are on the chip. -/
def Persisted (s : State) : Prop := s.ni.dirty = true ∨ TableOnFlash s

theorem Persisted.of_onFlash (hF : OnFlash lo hi img s) (hS : Settled img s) (hl : img.length = s.ni.chip.infoTableSize)
    (h1 : s.ni.mgmtStartBa ≤ lo) (h2 : hi ≤ s.ni.mappingBlocksBa) : Persisted s := by
  rcases hS with h | h
  · exact .inl h
  · exact .inr ⟨img, hl, h, hF.mono h1 h2⟩

/-- Writing the backup table behind the main table keeps the main table. -/
theorem rebuildBackup_keeps (hF : OnFlash lo hi img s) (hS : Settled img s) (hp : Pass img s) (hm : s.ni.mappingBlocksBa = hi) :
    OnFlash lo hi img (rebuildBackup s hi) ∧ Settled img (rebuildBackup s hi) ∧ Pass img (rebuildBackup s hi) ∧
      hi ≤ (rebuildBackup s hi).ni.mappingBlocksBa ∧ (rebuildBackup s hi).ni.mgmtStartBa = s.ni.mgmtStartBa := by
  unfold rebuildBackup
  rcases hres : reserveSpare s.ni hi with _ | next <;> dsimp only
  · exact ⟨hF, hS, hp, by omega, rfl⟩
  · have hnext := reserveSpare_some hres
    have hw := writeInfoTable_step s next s.ni.mappingBlocksTopBa
    rcases hr : writeInfoTable s next s.ni.mappingBlocksTopBa with ⟨_ | ⟨st, en⟩, s₁⟩ <;> rw [hr] at hw <;> dsimp only at hw ⊢
    · exact ⟨hF.write hw (.inl hnext), hS.write hw, hp.write hw, by rw [hw.tables.2.2.1]; omega, hw.sameMap.mgmtStartBa⟩
    · obtain ⟨h1, h2, -⟩ := writeInfoTable_eq_some hr
      have hmv : Moved s₁ { s₁ with ni.backupTableBa := st, ni.mappingBlocksBa := en } := ⟨rfl, rfl, rfl, rfl, rfl, rfl, rfl⟩
      have he := eraseRange_step { s₁ with ni.backupTableBa := st, ni.mappingBlocksBa := en } hi st
      refine ⟨((hF.write hw (.inl hnext)).moved hmv).write he (.inl (Nat.le_refl _)), ((hS.write hw).moved hmv).write he,
        ((hp.write hw).moved hmv).write he, ?_, ?_⟩
      · rw [he.tables.2.2.1]
        dsimp only
        omega
      · rw [he.sameMap.mgmtStartBa]
        exact hw.sameMap.mgmtStartBa

theorem rebuildInfoTable_persists (hp : Pass img s) (h : rebuildInfoTable s = (true, s'))
    (hn : noLostChange s'.trace = true) : Persisted s' := by
  unfold rebuildInfoTable at h
  have hm₀ : Moved s { s with ni.mainTableBa := 0, ni.backupTableBa := 0, ni.mappingBlocksBa := s.ni.mappingBlocksTopBa } :=
    ⟨rfl, rfl, rfl, rfl, rfl, rfl, rfl⟩
  have hw := writeInfoTable_step { s with ni.mainTableBa := 0, ni.backupTableBa := 0, ni.mappingBlocksBa := s.ni.mappingBlocksTopBa }
    s.ni.mgmtStartBa s.ni.mappingBlocksTopBa
  dsimp only at h
  split at h
  · cases h
  · rename_i st en s₁ hr
    rw [hr] at hw
    obtain ⟨h1, h2, h3⟩ := writeInfoTable_eq_some hr
    have hp₁ := (hp.moved hm₀).write hw
    have hF₁ := writeInfoTable_onFlash (hp.moved hm₀) hr
    have hm₁ : Moved s₁ { s₁ with ni.mainTableBa := st, ni.mappingBlocksBa := en } := ⟨rfl, rfl, rfl, rfl, rfl, rfl, rfl⟩
    have hs' := (Prod.mk.inj h).2
    have hstart : s₁.ni.mgmtStartBa = s.ni.mgmtStartBa := hw.sameMap.mgmtStartBa
    have htop : s₁.ni.mappingBlocksTopBa = s.ni.mappingBlocksTopBa := hw.sameMap.mappingBlocksTopBa
    have hback : s₁.ni.backupTableBa = 0 := hw.tables.2.1
    -- the backup table is written after the tables were marked clean
    have hmt := rebuildBackup_maintains (s := markTablesClean { s₁ with ni.mainTableBa := st, ni.mappingBlocksBa := en })
      ⟨by show s₁.ni.mgmtStartBa ≤ en; omega, by show en ≤ s₁.ni.mappingBlocksTopBa; omega,
        .inr (by show s₁.ni.mgmtStartBa ≤ st; omega), .inl hback, by show s₁.ni.backupTableBa ≤ en; omega⟩
      en (by show s₁.ni.mgmtStartBa ≤ en; omega)
    obtain ⟨evs, ht, -⟩ := hmt.1.trace
    rw [hs'] at ht
    rw [ht] at hn
    obtain ⟨hp₂, hS₂⟩ := (hp₁.moved hm₁).clean (noLostChange_append hn)
    obtain ⟨hF, hS, hpp, hle, hms⟩ := rebuildBackup_keeps (hF₁.moved hm₁).clean hS₂ hp₂ rfl
    rw [hs'] at hF hS hpp hle hms
    exact .of_onFlash hF hS hpp.length (by rw [hms]; show s₁.ni.mgmtStartBa ≤ st; omega) hle

/-- The main table is written anew while the backup table of this pass lies behind it. -/
theorem rescueMainInfoTable_persists (hp : Pass img s) (hs : s.ni.mgmtStartBa ≤ s.ni.mappingBlocksBa) (hF : OnFlash lo hi img s)
    (hS : Settled img s) (h1 : s.ni.mgmtStartBa ≤ lo) (h2 : hi ≤ s.ni.mappingBlocksBa)
    (hn : noLostChange (rescueMainInfoTable s).trace = true) : Persisted (rescueMainInfoTable s) := by
  unfold rescueMainInfoTable at hn ⊢
  have hw := writeBehind_step s s.ni.mappingBlocksBa
  split at hn
  · rename_i ts te s₁ hr
    rw [hr] at hw
    obtain ⟨h3, h4, h5⟩ := writeBehind_eq_some hr
    have hF₁ := writeBehind_onFlash hp hr
    have hstart₁ : s₁.ni.mgmtStartBa = s.ni.mgmtStartBa := hw.sameMap.mgmtStartBa
    have hm₁ : Moved s₁ { s₁ with ni.mappingBlocksBa := te } := ⟨rfl, rfl, rfl, rfl, rfl, rfl, rfl⟩
    have hp₁ := (hp.write hw).moved hm₁
    have hw₂ := writeInfoTable_step { s₁ with ni.mappingBlocksBa := te } s₁.ni.mgmtStartBa ts
    dsimp only at hn ⊢
    rcases hr₂ : writeInfoTable { s₁ with ni.mappingBlocksBa := te } s₁.ni.mgmtStartBa ts with ⟨_ | ⟨ms, me⟩, s₂⟩ <;>
      rw [hr₂] at hn hw₂ <;> dsimp only at hn hw₂ ⊢
    · -- only the temporary table is there: it becomes the main table
      have hm₂ : Moved s₂ { s₂ with ni.mainTableBa := ts, ni.backupTableBa := 0 } := ⟨rfl, rfl, rfl, rfl, rfl, rfl, rfl⟩
      obtain ⟨hp₃, hS₃⟩ := ((hp₁.write hw₂).moved hm₂).clean hn
      have hF₂ := (((hF₁.moved hm₁).write hw₂ (.inr (Nat.le_refl _))).moved hm₂).clean
      refine .of_onFlash hF₂ hS₃ hp₃.length ?_ ?_
      · show s₂.ni.mgmtStartBa ≤ ts
        rw [hw₂.sameMap.mgmtStartBa]
        dsimp only
        omega
      · show te ≤ s₂.ni.mappingBlocksBa
        exact Nat.le_of_eq hw₂.tables.2.2.1.symm
    · obtain ⟨h6, h7, h8⟩ := writeInfoTable_eq_some hr₂
      have hm₂ : Moved s₂ { s₂ with ni.mainTableBa := ms } := ⟨rfl, rfl, rfl, rfl, rfl, rfl, rfl⟩
      rw [if_pos h8] at hn ⊢
      obtain ⟨hp₃, hS₃⟩ := ((hp₁.write hw₂).moved hm₂).clean hn
      have hF₂ := ((writeInfoTable_onFlash hp₁ hr₂).moved hm₂).clean
      have hm₃ : Moved (markTablesClean { s₂ with ni.mainTableBa := ms })
          { markTablesClean { s₂ with ni.mainTableBa := ms } with ni.backupTableBa := ts } := ⟨rfl, rfl, rfl, rfl, rfl, rfl, rfl⟩
      refine .of_onFlash (hF₂.moved hm₃) (hS₃.moved hm₃) (hp₃.moved hm₃).length ?_ ?_
      · show s₂.ni.mgmtStartBa ≤ ms
        rw [hw₂.sameMap.mgmtStartBa]
        exact h6
      · show me ≤ s₂.ni.mappingBlocksBa
        rw [hw₂.tables.2.2.1]
        dsimp only
        omega
  · rename_i s₁ r hr
    rw [hr] at hw
    have hm₁ : Moved s₁ (promoteBackup s₁) := ⟨rfl, rfl, rfl, rfl, rfl, rfl, rfl⟩
    refine .of_onFlash ((hF.write hw (.inl h2)).moved hm₁) ((hS.write hw).moved hm₁) ((hp.write hw).moved hm₁).length ?_ ?_
    · show s₁.ni.mgmtStartBa ≤ lo
      rw [hw.sameMap.mgmtStartBa]
      exact h1
    · show hi ≤ s₁.ni.mappingBlocksBa
      rw [hw.tables.2.2.1]
      exact h2

/-- After the first half of a pass there is no backup table, or it is the image of this pass. -/
theorem updateBackupTable_persists (hp : Pass img s) (hL : Layout s.ni) (hn : noLostChange (updateBackupTable s).2.trace = true) :
    Pass img (updateBackupTable s).2 ∧ ((updateBackupTable s).2.ni.backupTableBa = 0 ∨
      ∃ hi, OnFlash (updateBackupTable s).1 hi img (updateBackupTable s).2 ∧ Settled img (updateBackupTable s).2 ∧
        s.ni.mgmtStartBa ≤ (updateBackupTable s).1 ∧ (updateBackupTable s).1 ≤ hi ∧
        hi ≤ (updateBackupTable s).2.ni.mappingBlocksBa) := by
  unfold updateBackupTable at hn ⊢
  split at hn
  · rename_i hb
    rw [if_pos hb]
    exact ⟨hp, .inl hb⟩
  · rename_i hb
    rw [if_neg hb]
    have hbs := hL.backup.resolve_left hb
    have hw := writeInfoTable_step s s.ni.backupTableBa s.ni.mappingBlocksTopBa
    rcases hr : writeInfoTable s s.ni.backupTableBa s.ni.mappingBlocksTopBa with ⟨_ | ⟨st, en⟩, s₁⟩ <;> rw [hr] at hw hn <;>
      dsimp only at hw hn ⊢
    · have hm₁ : Moved s₁ { s₁ with ni.mappingBlocksBa := s₁.ni.backupTableBa, ni.backupTableBa := 0 } :=
        ⟨rfl, rfl, rfl, rfl, rfl, rfl, rfl⟩
      exact ⟨(hp.write hw).moved hm₁, .inl rfl⟩
    · obtain ⟨h1, h2, h3⟩ := writeInfoTable_eq_some hr
      have hm₁ : Moved s₁ { s₁ with ni.backupTableBa := st, ni.mappingBlocksBa := en } := ⟨rfl, rfl, rfl, rfl, rfl, rfl, rfl⟩
      obtain ⟨hp₂, hS₂⟩ := ((hp.write hw).moved hm₁).clean hn
      exact ⟨hp₂, .inr ⟨en, ((writeInfoTable_onFlash hp hr).moved hm₁).clean, hS₂, by omega, by omega, Nat.le_refl _⟩⟩

theorem updateMainTable_persists (hp : Pass img s) (hL : Layout s.ni) {limit : Nat}
    (hb : s.ni.backupTableBa = 0 ∨ ∃ hi, OnFlash limit hi img s ∧ Settled img s ∧ s.ni.mgmtStartBa ≤ limit ∧ limit ≤ hi ∧
      hi ≤ s.ni.mappingBlocksBa)
    (h : updateMainTable s limit = (true, s')) (hn : noLostChange s'.trace = true) : Persisted s' := by
  unfold updateMainTable at h
  split at h
  · exact rebuildInfoTable_persists hp h hn
  · rename_i hm
    have hms := hL.main.resolve_left hm
    have hw := writeInfoTable_step s s.ni.mainTableBa limit
    rcases hr : writeInfoTable s s.ni.mainTableBa limit with ⟨_ | ⟨st, en⟩, s₁⟩ <;> rw [hr] at hw h <;> dsimp only at hw h
    · split at h
      · exact rebuildInfoTable_persists (hp.write hw) h hn
      · rename_i hb'
        rw [hw.tables.2.1] at hb'
        obtain ⟨hi, hF, hS, h1, -, h2⟩ := hb.resolve_left hb'
        obtain rfl := (Prod.mk.inj h).2
        refine rescueMainInfoTable_persists (hp.write hw) ?_ (hF.write hw (.inr (Nat.le_refl _))) (hS.write hw) ?_ ?_ hn
        · rw [hw.sameMap.mgmtStartBa, hw.tables.2.2.1]
          exact hL.start_le
        · rw [hw.sameMap.mgmtStartBa]
          exact h1
        · rw [hw.tables.2.2.1]
          exact h2
    · obtain ⟨h1, h2, h3⟩ := writeInfoTable_eq_some hr
      have hF₁ := writeInfoTable_onFlash hp hr
      have hstart : s₁.ni.mgmtStartBa = s.ni.mgmtStartBa := hw.sameMap.mgmtStartBa
      obtain rfl := (Prod.mk.inj h).2
      split at hn
      · rename_i hb'
        have hm₁ : Moved s₁ { s₁ with ni.mainTableBa := st, ni.mappingBlocksBa := en } := ⟨rfl, rfl, rfl, rfl, rfl, rfl, rfl⟩
        obtain ⟨hp₂, hS₂⟩ := ((hp.write hw).moved hm₁).clean hn
        rw [if_pos hb']
        exact .of_onFlash (hF₁.moved hm₁).clean hS₂ hp₂.length (by show s₁.ni.mgmtStartBa ≤ st; omega) (Nat.le_refl _)
      · rename_i hb'
        have hm₁ : Moved s₁ { s₁ with ni.mainTableBa := st } := ⟨rfl, rfl, rfl, rfl, rfl, rfl, rfl⟩
        obtain ⟨hp₂, hS₂⟩ := ((hp.write hw).moved hm₁).clean hn
        rw [if_neg hb']
        refine .of_onFlash (hF₁.moved hm₁).clean hS₂ hp₂.length (by show s₁.ni.mgmtStartBa ≤ st; omega) ?_
        show en ≤ s₁.ni.mappingBlocksBa
        have hb₁ : s.ni.backupTableBa ≠ 0 := by
          rw [← hw.tables.2.1]
          exact hb'
        obtain ⟨hi, -, -, -, h4, h5⟩ := hb.resolve_left hb₁
        rw [hw.tables.2.2.1]
        omega

theorem Formed.mgmt (hf : Formed s.ni) (h : MgmtStep s s') : Formed s'.ni where
  stateOff := by rw [h.same.stateTableOff, h.same.chip, hf.stateOff]
  mappingOff := by rw [h.same.mappingTableOff, h.same.chip, hf.mappingOff]
  state := by rw [h.length, h.same.chip, hf.state]
  mapping := by rw [h.same.blockMapping, h.same.chip, hf.mapping]

theorem updateInfoTableOnce_persists (hf : Formed s.ni) (hL : Layout s.ni) (hd : s.ni.dirty = true)
    (h : updateInfoTableOnce s false = (true, s')) (hn : noLostChange s'.trace = true) : Persisted s' := by
  unfold updateInfoTableOnce at h
  have hp := Pass.generate hf
  have hg := (generate_maintains hL).2
  have hc : (generateInfoTableCache s).1 = true := hd
  rcases hr : generateInfoTableCache s with ⟨changed, s₁⟩
  rw [hr] at h hp hg hc
  dsimp only at h hp hg hc
  rw [hc] at h
  simp only [Bool.not_true, Bool.false_and, Bool.false_eq_true, if_false] at h
  obtain ⟨hb, hl⟩ := updateBackupTable_maintains hg
  have hmain := updateMainTable_maintains hb.2 (updateBackupTable s₁).1 (by rw [hb.ends.2]; exact hl)
  obtain ⟨evs, ht, -⟩ := hmain.1.trace
  rw [h] at ht
  dsimp only at ht
  obtain ⟨hp₂, hback⟩ := updateBackupTable_persists hp hg (noLostChange_append (by rw [← ht]; exact hn))
  refine updateMainTable_persists hp₂ hb.2 ?_ h hn
  rcases hback with h0 | ⟨hi, hF, hS, h1, h2, h3⟩
  · exact .inl h0
  · exact .inr ⟨hi, hF, hS, by rw [hb.ends.1]; exact h1, h2, h3⟩

/-- A pass that fails has given up: the instance is protected. -/
theorem updateInfoTableOnce_false (h : updateInfoTableOnce s false = (false, s')) : s'.ni.protected = true := by
  have hre : ∀ t : State, rebuildInfoTable t = (false, s') → s'.ni.protected = true := by
    intro t ht
    unfold rebuildInfoTable at ht
    dsimp only at ht
    split at ht
    · cases ht
      rfl
    · cases ht
  unfold updateInfoTableOnce at h
  dsimp only at h
  split at h
  · cases h
  · unfold updateMainTable at h
    split at h
    · exact hre _ h
    · split at h
      · split at h
        · exact hre _ h
        · cases h
      · cases h

theorem updateLoop_persists {n : Nat} (hf : Formed s.ni) (hL : Layout s.ni) (hP : Persisted s)
    (hn : noLostChange (updateLoop n s).2.trace = true) :
    ((updateLoop n s).1 = false ∧ (updateLoop n s).2.ni.protected = true) ∨
      (Persisted (updateLoop n s).2 ∧ ((updateLoop n s).1 = true → TableOnFlash (updateLoop n s).2)) := by
  induction n generalizing s with
  | zero => exact .inr ⟨hP, fun h => by cases h⟩
  | succ n ih =>
    unfold updateLoop at hn ⊢
    split at hn
    · rename_i hd
      rw [if_pos hd]
      have hm := updateInfoTableOnce_maintains hL false
      rcases hr : updateInfoTableOnce s false with ⟨_ | _, s₁⟩ <;> rw [hr] at hm hn <;> dsimp only at hm hn ⊢
      · exact .inl ⟨rfl, updateInfoTableOnce_false hr⟩
      · obtain ⟨evs, ht, -⟩ := (updateLoop_maintains hm.2 n).1.trace
        refine ih (hf.mgmt hm.1) hm.2 (updateInfoTableOnce_persists hf hL hd hr ?_) hn
        rw [ht] at hn
        exact noLostChange_append hn
    · rename_i hd
      rw [if_neg hd]
      refine .inr ⟨hP, fun _ => ?_⟩
      rcases hP with h | h
      · exact absurd h hd
      · exact h

/-! ### Operations -/

/-- What a run keeps about the stored tables. -/
structure StoreInv (s : State) : Prop where
  formed : Formed s.ni
  layout : Layout s.ni
  stored : s.ni.protected = true ∨ (noLostChange s.trace = true → Persisted s)

theorem StoreInv.update (h : StoreInv s) : StoreInv (updateInfoTable s).2 ∧
    (s.ni.protected = false → (updateInfoTable s).1 = true → noLostChange (updateInfoTable s).2.trace = true →
      TableOnFlash (updateInfoTable s).2) := by
  unfold updateInfoTable
  split
  · rename_i hp
    refine ⟨h, fun hp' => ?_⟩
    rw [hp] at hp'
    cases hp'
  · rename_i hp
    have hm := updateLoop_maintains h.layout (s.ni.goodCount + 2)
    obtain ⟨evs, ht, -⟩ := hm.1.trace
    have hloop (hn : noLostChange (updateLoop (s.ni.goodCount + 2) s).2.trace = true) :=
      updateLoop_persists h.formed h.layout (h.stored.resolve_left hp (noLostChange_append (by rw [← ht]; exact hn))) hn
    refine ⟨⟨h.formed.mgmt hm.1, hm.2, ?_⟩, fun _ hr hn => ?_⟩
    · by_cases hn : noLostChange (updateLoop (s.ni.goodCount + 2) s).2.trace = true
      · rcases hloop hn with ⟨-, h1⟩ | ⟨h1, -⟩
        · exact .inl h1
        · exact .inr fun _ => h1
      · exact .inr fun h => absurd h hn
    · rcases hloop hn with ⟨h1, -⟩ | ⟨-, h1⟩
      · rw [hr] at h1
        cases h1
      · exact h1 hr

theorem TableOnFlash.of_same (h : TableOnFlash s) (hm : Moved s s') (h1 : s'.ni.mgmtStartBa = s.ni.mgmtStartBa)
    (h2 : s'.ni.mappingBlocksBa = s.ni.mappingBlocksBa) : TableOnFlash s' := by
  obtain ⟨img, hl, he, hF⟩ := h
  refine ⟨img, by rw [hm.chip, hl], he.of_same hm.chip hm.blockState hm.blockMapping, ?_⟩
  rw [h1, h2]
  exact hF.moved hm

theorem Persisted.of_same (h : Persisted s) (hm : Moved s s') (h1 : s'.ni.mgmtStartBa = s.ni.mgmtStartBa)
    (h2 : s'.ni.mappingBlocksBa = s.ni.mappingBlocksBa) : Persisted s' := by
  rcases h with h | h
  · exact .inl (hm.dirty.trans h)
  · exact .inr (h.of_same hm h1 h2)

/-- A new block state is recorded as a change, or it is the old one. -/
theorem setBlockState_change (s : State) (ba : Nat) (st : UInt32) :
    (setBlockState s ba st).ni.dirty = true ∨ setBlockState s ba st = s := by
  unfold setBlockState
  dsimp only
  split
  · exact .inl (by simp [Instance.dirty])
  · rename_i hne
    right
    rw [setBlockStateRaw_of_get (by simpa [getBlockState] using hne)]

theorem StoreInv.setBlockState (h : StoreInv s) (ba : Nat) (st : UInt32) : StoreInv (setBlockState s ba st) := by
  rcases setBlockState_change s ba st with hd | he
  · obtain ⟨k, hk⟩ := setBlockState_ni s ba st
    refine ⟨?_, (setBlockState_layout h.layout ba st).1, .inr fun _ => .inl hd⟩
    rw [hk]
    exact ⟨h.formed.stateOff, h.formed.mappingOff, by rw [← h.formed.state]; simp, h.formed.mapping⟩
  · rw [he]
    exact h

theorem StoreInv.noteMap (h : StoreInv s) : StoreInv (noteMap s) := by
  refine ⟨h.formed, h.layout, ?_⟩
  rcases h.stored with hp | hp
  · exact .inl hp
  · exact .inr fun hn => (hp hn).imp id id

theorem StoreInv.mapBlock_false (h : StoreInv s) {lb : Nat} (hm : mapBlock s lb = (false, s')) : StoreInv s' := by
  rcases mapBlock_cases s lb with ⟨-, hc⟩ | ⟨-, hc⟩ | ⟨pb, -, -, hc⟩ <;> rw [hm] at hc
  · rw [(Prod.mk.inj hc).2]
    exact h.noteMap
  · obtain ⟨hu, -⟩ := h.noteMap.update
    rw [(Prod.mk.inj hc).2]
    refine ⟨⟨hu.formed.stateOff, hu.formed.mappingOff, hu.formed.state, hu.formed.mapping⟩,
      ⟨hu.layout.start_le, Nat.le_refl _, hu.layout.main, hu.layout.backup, hu.layout.backup_le⟩, ?_⟩
    rcases hu.stored with hp | hp
    · exact .inl hp
    · exact .inr fun hn => (hp hn).of_same ⟨rfl, rfl, rfl, rfl, rfl, rfl, rfl⟩ rfl rfl
  · cases hc

/-- A block that was mapped makes the tables dirty, whatever happens to the chip next. -/
theorem StoreInv.mapBlock_true (h : StoreInv s) {lb : Nat} (hm : mapBlock s lb = (true, s')) (n : Nand) (dbc : Nat) :
    StoreInv { s' with nand := n, ni.dataBlockCount := dbc } := by
  have hL := (mapBlock_layout h.layout lb).1
  rw [hm] at hL
  rcases mapBlock_cases s lb with ⟨-, hc⟩ | ⟨-, hc⟩ | ⟨pb, -, -, hc⟩ <;> rw [hm] at hc
  · cases hc
  · cases hc
  · obtain rfl := (Prod.mk.inj hc).2
    refine ⟨⟨h.formed.stateOff, h.formed.mappingOff, h.formed.state, ?_⟩,
      ⟨hL.start_le, hL.le_top, hL.main, hL.backup, hL.backup_le⟩, .inr fun _ => .inl (by simp [Instance.dirty, mapped])⟩
    simp [mapped, h.formed.mapping]

theorem StoreInv.remapBlock (h : StoreInv s) (block mappedBlock copyLen : Nat) :
    StoreInv (remapBlock s block mappedBlock copyLen).2 := by
  have h₁ := h.setBlockState mappedBlock blockStBad
  rcases remapBlock_cases s block mappedBlock copyLen with ⟨-, hr⟩ | ⟨s₁, -, hm, hr⟩ | ⟨s₁, n, -, hm, -, hr⟩ <;> rw [hr]
  · exact h
  · exact h₁.mapBlock_false hm
  · exact (h₁.mapBlock_true hm n s₁.ni.dataBlockCount).update.1

theorem StoreInv.run (h : StoreInv s) (ops : List Op) : StoreInv (run s ops) := by
  induction ops generalizing s with
  | nil => exact h
  | cons op ops ih =>
    cases op with
    | remap block mappedBlock copyLen => exact ih (h.remapBlock block mappedBlock copyLen)
    | update => exact ih h.update.1

/-! ### Creation -/

theorem StoreInv.createMapLoop (h : StoreInv s) (n lb : Nat) : StoreInv (createMapLoop n lb s) := by
  induction n generalizing s lb with
  | zero => exact h
  | succ n ih =>
    unfold Nmbm.createMapLoop
    rcases hr : mapBlock s lb with ⟨_ | _, s₁⟩ <;> dsimp only
    · exact h.mapBlock_false hr
    · exact ih (h.mapBlock_true hr s₁.nand _) (lb + 1)

theorem Formed.states (hf : Formed s.ni) (h : StateStep s s') : Formed s'.ni := by
  have hs := h.sameMap
  exact ⟨by rw [hs.stateTableOff, hs.chip, hf.stateOff], by rw [hs.mappingTableOff, hs.chip, hf.mappingOff],
    by rw [h.length, hs.chip, hf.state], by rw [hs.blockMapping, hs.chip, hf.mapping]⟩

theorem createNew_store (h : createNew s = (true, s')) (hf : Formed s.ni) : StoreInv s' := by
  obtain ⟨ba, top, s₁, s₂, hs, hm, ht, hb, hre, hup⟩ := createNew_top h
  obtain ⟨hP, -⟩ := placed_prepareNew (d := 0) hs hm ht hb
  have hsc := scanned_states s
  have hstart : s₁.ni.mgmtStartBa = createMgmtStart s.ni := hs.sameMap.mgmtStartBa.trans (scanned_same s).2
  have hprep : Formed (prepareNew s).ni := by
    have hfs := Formed.states (s := { s with ni.mgmtStartBa := createMgmtStart s.ni })
      ⟨hf.stateOff, hf.mappingOff, hf.state, hf.mapping⟩ hsc
    refine ⟨hfs.stateOff, hfs.mappingOff, hfs.state, ?_⟩
    have hlen := hP.length
    rw [← hs.sameMap.blockMapping, ← hs.sameMap.chip]
    exact hlen
  have hf₁ := hprep.states hs
  have hmt := rebuildInfoTable_maintains (s := (generateInfoTableCache
    { s₁ with ni.signatureBa := ba, ni.mappingBlocksTopBa := top }).2) (by show s₁.ni.mgmtStartBa ≤ top; omega)
  rw [hre] at hmt
  have hfg : Formed (generateInfoTableCache { s₁ with ni.signatureBa := ba, ni.mappingBlocksTopBa := top }).2.ni :=
    ⟨hf₁.stateOff, hf₁.mappingOff, hf₁.state, hf₁.mapping⟩
  have hp := Pass.generate (s := { s₁ with ni.signatureBa := ba, ni.mappingBlocksTopBa := top })
    ⟨hf₁.stateOff, hf₁.mappingOff, hf₁.state, hf₁.mapping⟩
  have h₂ : StoreInv s₂ := ⟨hfg.mgmt hmt.1, hmt.2, .inr fun hn => rebuildInfoTable_persists hp hre hn⟩
  have h₃ := (h₂.createMapLoop (s₂.ni.mgmtStartBa - s₂.ni.dataBlockCount) s₂.ni.dataBlockCount).update.1
  rwa [hup] at h₃

theorem formed_freshState (c : Chip) (maxRatio maxReservedBlocks : Nat) (emptyPageEccOk forceCreate : Bool) (n : Nand) :
    Formed (freshState c maxRatio maxReservedBlocks emptyPageEccOk forceCreate n).ni := by
  refine ⟨rfl, rfl, ?_, ?_⟩
  · simp [freshState, initStructure, Chip.stateTableSize]
    omega
  · simp [freshState, initStructure]

/-! ### The loop ends -/

/-- The changes since the tables were marked clean, and the good blocks left, are at most `k`. -/
structure Spent (k : Nat) (s : State) : Prop where
  mapping : s.ni.blockMappingChanged = 0
  state : s.ni.blockStateChanged + s.ni.goodCount ≤ k

theorem Spent.write {k : Nat} (h : Spent k s) (hw : WriteStep lo hi s s') : Spent k s' :=
  ⟨hw.cache.2.2.trans h.mapping, Nat.le_trans hw.budget h.state⟩

theorem Spent.clean (s : State) : Spent s.ni.goodCount (markTablesClean s) := by
  refine ⟨rfl, ?_⟩
  show 0 + s.ni.goodCount ≤ s.ni.goodCount
  omega

theorem Spent.mono {k k' : Nat} (h : Spent k s) (hk : k ≤ k') : Spent k' s := ⟨h.mapping, Nat.le_trans h.state hk⟩

theorem rebuildBackup_spent {k e : Nat} (h : Spent k s) : Spent k (rebuildBackup s e) := by
  unfold rebuildBackup
  rcases reserveSpare s.ni e with _ | next <;> dsimp only
  · exact h
  · have hw := h.write (writeInfoTable_step s next s.ni.mappingBlocksTopBa)
    rcases hr : writeInfoTable s next s.ni.mappingBlocksTopBa with ⟨_ | ⟨st, en⟩, s₁⟩ <;> rw [hr] at hw <;> dsimp only at hw ⊢
    · exact hw
    · exact Spent.write (s := { s₁ with ni.backupTableBa := st, ni.mappingBlocksBa := en }) ⟨hw.mapping, hw.state⟩ (eraseRange_step ..)

theorem rebuildInfoTable_spent (h : rebuildInfoTable s = (true, s')) : Spent s.ni.goodCount s' := by
  unfold rebuildInfoTable at h
  have hw := (writeInfoTable_step { s with ni.mainTableBa := 0, ni.backupTableBa := 0, ni.mappingBlocksBa := s.ni.mappingBlocksTopBa }
    s.ni.mgmtStartBa s.ni.mappingBlocksTopBa).goodCount_le
  dsimp only at h
  split at h
  · cases h
  · rename_i st en s₁ hr
    rw [hr] at hw
    rw [← (Prod.mk.inj h).2]
    exact rebuildBackup_spent ((Spent.clean _).mono hw)

theorem rescueMainInfoTable_spent {k : Nat} (h : Spent k s) : Spent k (rescueMainInfoTable s) := by
  have hk : s.ni.goodCount ≤ k := Nat.le_trans (Nat.le_add_left _ _) h.state
  unfold rescueMainInfoTable
  have hw := writeBehind_step s s.ni.mappingBlocksBa
  split
  · rename_i ts te s₁ hr
    rw [hr] at hw
    have hw₂ := writeInfoTable_step { s₁ with ni.mappingBlocksBa := te } s₁.ni.mgmtStartBa ts
    dsimp only
    rcases hr₂ : writeInfoTable { s₁ with ni.mappingBlocksBa := te } s₁.ni.mgmtStartBa ts with ⟨_ | ⟨ms, me⟩, s₂⟩ <;> rw [hr₂] at hw₂ <;> dsimp only
    · exact (Spent.clean _).mono (Nat.le_trans hw₂.goodCount_le (Nat.le_trans hw.goodCount_le hk))
    · rw [if_pos (writeInfoTable_eq_some hr₂).2.2]
      have hc := (Spent.clean { s₂ with ni.mainTableBa := ms }).mono (Nat.le_trans hw₂.goodCount_le (Nat.le_trans hw.goodCount_le hk))
      exact ⟨hc.mapping, hc.state⟩
  · rename_i s₁ r hr
    rw [hr] at hw
    have hs := h.write hw
    exact ⟨hs.mapping, hs.state⟩

/-- A pass that succeeds has marked the tables clean, and each later change has cost a good block. -/
theorem updateInfoTableOnce_spent (hd : s.ni.dirty = true) (h : updateInfoTableOnce s false = (true, s')) :
    Spent s.ni.goodCount s' := by
  unfold updateInfoTableOnce at h
  have hc : (generateInfoTableCache s).1 = true := hd
  have hg : (generateInfoTableCache s).2.ni.goodCount = s.ni.goodCount := rfl
  rcases hr : generateInfoTableCache s with ⟨changed, s₁⟩
  rw [hr] at h hc hg
  dsimp only at h hc hg
  rw [hc] at h
  simp only [Bool.not_true, Bool.false_and, Bool.false_eq_true, if_false] at h
  -- the backup table was marked clean in this pass if it is there
  have hback : (updateBackupTable s₁).2.ni.goodCount ≤ s.ni.goodCount ∧
      ((updateBackupTable s₁).2.ni.backupTableBa = 0 ∨ Spent s.ni.goodCount (updateBackupTable s₁).2) := by
    unfold updateBackupTable
    split
    · rename_i hb
      exact ⟨Nat.le_of_eq hg, .inl hb⟩
    · have hw := (writeInfoTable_step s₁ s₁.ni.backupTableBa s₁.ni.mappingBlocksTopBa).goodCount_le
      rcases hr : writeInfoTable s₁ s₁.ni.backupTableBa s₁.ni.mappingBlocksTopBa with ⟨_ | ⟨st, en⟩, s₂⟩ <;> rw [hr] at hw <;>
        dsimp only at hw ⊢
      · exact ⟨Nat.le_trans hw (Nat.le_of_eq hg), .inl rfl⟩
      · exact ⟨Nat.le_trans hw (Nat.le_of_eq hg), .inr ((Spent.clean _).mono (Nat.le_trans hw (Nat.le_of_eq hg)))⟩
  obtain ⟨hle, hback⟩ := hback
  generalize hr₂ : (updateBackupTable s₁).2 = s₂ at h hle hback
  generalize (updateBackupTable s₁).1 = limit at h
  unfold updateMainTable at h
  split at h
  · exact (rebuildInfoTable_spent h).mono hle
  · have hw := writeInfoTable_step s₂ s₂.ni.mainTableBa limit
    rcases hr₃ : writeInfoTable s₂ s₂.ni.mainTableBa limit with ⟨_ | ⟨st, en⟩, s₃⟩ <;> rw [hr₃] at hw h <;> dsimp only at hw h
    · have hle₃ := Nat.le_trans hw.goodCount_le hle
      split at h
      · exact (rebuildInfoTable_spent h).mono hle₃
      · rename_i hb
        rw [hw.tables.2.1] at hb
        rw [← (Prod.mk.inj h).2]
        exact rescueMainInfoTable_spent ((hback.resolve_left hb).write hw)
    · rw [← (Prod.mk.inj h).2]
      refine (Spent.clean _).mono (Nat.le_trans ?_ (Nat.le_trans hw.goodCount_le hle))
      split <;> exact Nat.le_refl _

/-- The loop of `nmbm_update_info_table` ends after some passes, with a result. -/
inductive Ends : State → Nat → Bool × State → Prop where
  | clean {s : State} (h : s.ni.dirty = false) : Ends s 0 (true, s)
  | failed {s s' : State} (h : s.ni.dirty = true) (hr : updateInfoTableOnce s false = (false, s')) : Ends s 1 (false, s')
  | again {s s' : State} {n : Nat} {r : Bool × State} (h : s.ni.dirty = true) (hr : updateInfoTableOnce s false = (true, s')) (hn : Ends s' n r) :
      Ends s (n + 1) r

/-- Once the changes of the mapping are stored, each further pass costs a good block. -/
theorem ends_of_spent {n : Nat} (hm : s.ni.blockMappingChanged = 0) (hb : s.ni.blockStateChanged + s.ni.goodCount + 1 ≤ n) :
    ∃ k ≤ n, Ends s k (updateLoop n s) := by
  induction n generalizing s with
  | zero => omega
  | succ n ih =>
    rw [updateLoop]
    split
    · rename_i hd
      have hpos : 0 < s.ni.blockStateChanged := by
        simp [Instance.dirty, hm] at hd
        omega
      rcases hr : updateInfoTableOnce s false with ⟨_ | _, s₁⟩ <;> dsimp only
      · exact ⟨1, by omega, .failed hd hr⟩
      · have hs := updateInfoTableOnce_spent hd hr
        obtain ⟨k, hk, he⟩ := ih hs.mapping (by have := hs.state; omega)
        exact ⟨k + 1, by omega, .again hd hr he⟩
    · rename_i hd
      exact ⟨0, Nat.zero_le _, .clean (by simpa using hd)⟩

/-- Whatever fails on the chip, an update ends, after no more passes than there are good blocks and two. -/
theorem updateLoop_ends (s : State) : ∃ n ≤ s.ni.goodCount + 2, Ends s n (updateLoop (s.ni.goodCount + 2) s) := by
  rw [updateLoop]
  split
  · rename_i hd
    rcases hr : updateInfoTableOnce s false with ⟨_ | _, s₁⟩ <;> dsimp only
    · exact ⟨1, by omega, .failed hd hr⟩
    · have hs := updateInfoTableOnce_spent hd hr
      obtain ⟨k, hk, he⟩ := ends_of_spent (n := s.ni.goodCount + 1) hs.mapping (by have := hs.state; omega)
      exact ⟨k + 1, by omega, .again hd hr he⟩
  · rename_i hd
    exact ⟨0, Nat.zero_le _, .clean (by simpa using hd)⟩

end

end RainWrt.Nmbm
