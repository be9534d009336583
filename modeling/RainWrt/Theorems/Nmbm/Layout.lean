import RainWrt.Theorems.Nmbm.Mgmt

/-! The layout of the management area. The tables lie between `mgmt_start_ba` and `mapping_blocks_ba`,
    and every procedure that writes tables works below `mapping_blocks_top_ba`, whatever fails. -/

namespace RainWrt.Nmbm

/-- The two bounds of the spare region enclose what the tables may use. -/
structure Layout (ni : Instance) : Prop where
  start_le : ni.mgmtStartBa ≤ ni.mappingBlocksBa
  le_top : ni.mappingBlocksBa ≤ ni.mappingBlocksTopBa
  main : ni.mainTableBa = 0 ∨ ni.mgmtStartBa ≤ ni.mainTableBa
  backup : ni.backupTableBa = 0 ∨ ni.mgmtStartBa ≤ ni.backupTableBa
  backup_le : ni.backupTableBa ≤ ni.mappingBlocksBa

/-- An event of maintaining the tables. -/
def UpdateEvent (ni : Instance) (e : Event) : Prop :=
  RangeEvent ni.mgmtStartBa ni.mappingBlocksTopBa ni e ∨ e = .clean ∨ e = .cacheGenerated

/-- `s'` comes from `s` by maintaining the tables: the mapping and both ends of the management area stay,
    and only good blocks of that area are written. -/
structure MgmtStep (s s' : State) : Prop where
  same : SameMap s.ni s'.ni
  good : ∀ b, s'.ni.good b = true → s.ni.good b = true
  length : s'.ni.blockState.length = s.ni.blockState.length
  page : ∀ b, (s.ni.mgmtStartBa ≤ b → b < s.ni.mappingBlocksTopBa → s.ni.good b = false) →
    s'.nand.page b = s.nand.page b
  bad : ∀ b, (s.ni.mgmtStartBa ≤ b → b < s.ni.mappingBlocksTopBa → s.ni.good b = false) →
    s'.nand.bad b = s.nand.bad b
  fault : s'.nand.fault = s.nand.fault
  emptyOk : s'.nand.emptyOk = s.nand.emptyOk
  trace : ∃ evs, s'.trace = evs ++ s.trace ∧ ∀ e ∈ evs, UpdateEvent s.ni e

theorem UpdateEvent.of_same {a b : Instance} {e : Event} (h : SameMap a b) (he : UpdateEvent b e) : UpdateEvent a e := by
  rcases he with (hs | ⟨x, ni', rfl, h1, h2, hsame⟩) | he
  · exact .inl (.inl hs)
  · rw [h.mgmtStartBa] at h1
    rw [h.mappingBlocksTopBa] at h2
    exact .inl (.inr ⟨x, ni', rfl, h1, h2, h.trans hsame⟩)
  · exact .inr he

namespace MgmtStep
variable {s s' s'' : State}

theorem not_good (h : MgmtStep s s') {b : Nat} (hb : s.ni.good b = false) : s'.ni.good b = false := by
  by_contra hc
  rw [h.good b (by simpa using hc)] at hb
  cases hb

theorem trans (h : MgmtStep s s') (h' : MgmtStep s' s'') : MgmtStep s s'' where
  same := h.same.trans h'.same
  good b hb := h.good b (h'.good b hb)
  length := h'.length.trans h.length
  page b hb := by
    refine (h'.page b fun h1 h2 => ?_).trans (h.page b hb)
    rw [h.same.mgmtStartBa] at h1
    rw [h.same.mappingBlocksTopBa] at h2
    exact h.not_good (hb h1 h2)
  bad b hb := by
    refine (h'.bad b fun h1 h2 => ?_).trans (h.bad b hb)
    rw [h.same.mgmtStartBa] at h1
    rw [h.same.mappingBlocksTopBa] at h2
    exact h.not_good (hb h1 h2)
  fault := h'.fault.trans h.fault
  emptyOk := h'.emptyOk.trans h.emptyOk
  trace := by
    obtain ⟨evs, ht, he⟩ := h.trace
    obtain ⟨evs', ht', he'⟩ := h'.trace
    refine ⟨evs' ++ evs, by rw [ht', ht, List.append_assoc], fun e hm => ?_⟩
    rcases List.mem_append.mp hm with hm | hm
    · exact (he' e hm).of_same h.same
    · exact he e hm

theorem of_write {lo hi : Nat} (h : WriteStep lo hi s s') (hlo : s.ni.mgmtStartBa ≤ lo) (hhi : hi ≤ s.ni.mappingBlocksTopBa) :
    MgmtStep s s' := by
  have hm := h.mono s.ni.mgmtStartBa s.ni.mappingBlocksTopBa fun b _ _ => ⟨by omega, by omega⟩
  obtain ⟨evs, ht, he, -⟩ := hm.trace
  exact ⟨hm.sameMap, hm.good, hm.length, hm.page, hm.bad, hm.fault, hm.emptyOk, evs, ht, fun e h => .inl (he e h)⟩

/-- An update of the other fields of the instance, with events that say so. -/
theorem of_fields (hsame : SameMap s.ni s'.ni) (hbs : s'.ni.blockState = s.ni.blockState) (hn : s'.nand = s.nand)
    (ht : ∃ evs, s'.trace = evs ++ s.trace ∧ ∀ e ∈ evs, e = .clean ∨ e = .cacheGenerated) : MgmtStep s s' where
  same := hsame
  good b hb := by
    rw [← hb]
    simp only [Instance.good, getBlockState, hbs]
  length := by rw [hbs]
  page _ _ := by rw [hn]
  bad _ _ := by rw [hn]
  fault := by rw [hn]
  emptyOk := by rw [hn]
  trace := by
    obtain ⟨evs, ht, he⟩ := ht
    exact ⟨evs, ht, fun e hm => .inr (he e hm)⟩

theorem clean (s : State) : MgmtStep s (markTablesClean s) :=
  of_fields ⟨rfl, rfl, rfl, rfl, rfl, rfl, rfl, rfl, rfl, rfl⟩ rfl rfl ⟨[.clean], rfl, by simp⟩

theorem generate (s : State) : MgmtStep s (generateInfoTableCache s).2 :=
  of_fields ⟨rfl, rfl, rfl, rfl, rfl, rfl, rfl, rfl, rfl, rfl⟩ rfl rfl ⟨[.cacheGenerated], rfl, by simp⟩

end MgmtStep

theorem WriteStep.layout {lo hi : Nat} {s s' : State} (h : WriteStep lo hi s s') (hL : Layout s.ni) : Layout s'.ni := by
  rw [h.ni]
  exact ⟨hL.start_le, hL.le_top, hL.main, hL.backup, hL.backup_le⟩

/-! ### Procedures -/

/-- `s'` comes from `s` by maintaining the tables, and the layout still holds. -/
def Maintains (s s' : State) : Prop := MgmtStep s s' ∧ Layout s'.ni

theorem Maintains.refl {s : State} (hL : Layout s.ni) : Maintains s s :=
  ⟨.of_fields (.refl _) rfl rfl ⟨[], rfl, by simp⟩, hL⟩

/-- Both ends of the management area stay. -/
theorem Maintains.ends {s s' : State} (h : Maintains s s') :
    s'.ni.mgmtStartBa = s.ni.mgmtStartBa ∧ s'.ni.mappingBlocksTopBa = s.ni.mappingBlocksTopBa :=
  ⟨h.1.same.mgmtStartBa, h.1.same.mappingBlocksTopBa⟩

theorem Maintains.trans {s s' s'' : State} (h : Maintains s s') (h' : Maintains s' s'') : Maintains s s'' :=
  ⟨h.1.trans h'.1, h'.2⟩

section
variable {s : State}

/-- A table written inside the management area. -/
theorem writeInfoTable_maintains (hL : Layout s.ni) (ba limit : Nat) (hlo : s.ni.mgmtStartBa ≤ ba)
    (hhi : limit ≤ s.ni.mappingBlocksTopBa) : Maintains s (writeInfoTable s ba limit).2 :=
  ⟨.of_write (writeInfoTable_step s ba limit) hlo hhi, (writeInfoTable_step s ba limit).layout hL⟩

theorem eraseRange_maintains (hL : Layout s.ni) {ba limit : Nat} (hlo : s.ni.mgmtStartBa ≤ ba)
    (hhi : limit ≤ s.ni.mappingBlocksTopBa) : Maintains s (eraseRange s ba limit) :=
  ⟨.of_write (eraseRange_step s ba limit) hlo hhi, (eraseRange_step s ba limit).layout hL⟩

/-- New places of the tables, and `mapping_blocks_ba` behind them. -/
theorem maintains_fields (s : State) (main backup mba : Nat) (prot : Bool)
    (hs : s.ni.mgmtStartBa ≤ mba) (ht : mba ≤ s.ni.mappingBlocksTopBa)
    (hm : main = 0 ∨ s.ni.mgmtStartBa ≤ main) (hb : backup = 0 ∨ s.ni.mgmtStartBa ≤ backup) (hbm : backup ≤ mba) :
    Maintains s { s with ni.mainTableBa := main, ni.backupTableBa := backup, ni.mappingBlocksBa := mba, ni.protected := prot } :=
  ⟨.of_fields ⟨rfl, rfl, rfl, rfl, rfl, rfl, rfl, rfl, rfl, rfl⟩ rfl rfl ⟨[], rfl, by simp⟩, ⟨hs, ht, hm, hb, hbm⟩⟩

theorem clean_maintains (hL : Layout s.ni) : Maintains s (markTablesClean s) :=
  ⟨.clean s, ⟨hL.start_le, hL.le_top, hL.main, hL.backup, hL.backup_le⟩⟩

theorem generate_maintains (hL : Layout s.ni) : Maintains s (generateInfoTableCache s).2 :=
  ⟨.generate s, ⟨hL.start_le, hL.le_top, hL.main, hL.backup, hL.backup_le⟩⟩

theorem reserveSpare_some {ba r : Nat} (h : reserveSpare s.ni ba = some r) : ba ≤ r :=
  (tryReserveBlocks_some h).1

theorem rebuildBackup_maintains (hL : Layout s.ni) (mainEnd : Nat) (hm : s.ni.mgmtStartBa ≤ mainEnd) :
    Maintains s (rebuildBackup s mainEnd) := by
  unfold rebuildBackup
  rcases hres : reserveSpare s.ni mainEnd with _ | next <;> dsimp only
  · exact .refl hL
  · have hnext := reserveSpare_some hres
    have hw := writeInfoTable_maintains hL next s.ni.mappingBlocksTopBa (by omega) (Nat.le_refl _)
    rcases hr : writeInfoTable s next s.ni.mappingBlocksTopBa with ⟨_ | ⟨st, en⟩, s₁⟩ <;> rw [hr] at hw <;> dsimp only at hw ⊢
    · exact hw
    · obtain ⟨h1, h2, h3⟩ := writeInfoTable_eq_some hr
      obtain ⟨e1, e2⟩ := hw.ends
      have hf := maintains_fields s₁ s₁.ni.mainTableBa st en s₁.ni.protected
        (by omega) (by omega) hw.2.main (.inr (by omega)) (by omega)
      exact (hw.trans hf).trans (eraseRange_maintains hf.2 (by dsimp only; omega) (by dsimp only; omega))

/-- A rebuild starts from nothing but the two ends of the management area. -/
theorem rebuildInfoTable_maintains (hst : s.ni.mgmtStartBa ≤ s.ni.mappingBlocksTopBa) :
    Maintains s (rebuildInfoTable s).2 := by
  unfold rebuildInfoTable
  have hi := maintains_fields s 0 0 s.ni.mappingBlocksTopBa s.ni.protected
    hst (Nat.le_refl _) (.inl rfl) (.inl rfl) (Nat.zero_le _)
  have hw := hi.trans (writeInfoTable_maintains hi.2 s.ni.mgmtStartBa s.ni.mappingBlocksTopBa
    (Nat.le_refl _) (Nat.le_refl _))
  have ht := (writeInfoTable_step { s with ni.mainTableBa := 0, ni.backupTableBa := 0, ni.mappingBlocksBa := s.ni.mappingBlocksTopBa }
    s.ni.mgmtStartBa s.ni.mappingBlocksTopBa).tables
  obtain ⟨e1, e2⟩ := hw.ends
  dsimp only at hw ht e1 e2 ⊢
  split
  · rename_i s₁ hr
    rw [hr] at hw
    exact hw.trans (maintains_fields s₁ _ _ _ _ hw.2.start_le hw.2.le_top hw.2.main hw.2.backup hw.2.backup_le)
  · rename_i st en s₁ hr
    rw [hr] at hw ht e1 e2
    obtain ⟨h1, h2, h3⟩ := writeInfoTable_eq_some hr
    obtain ⟨-, hb, -⟩ := ht
    dsimp only at hb e1 e2 h1 h3
    have hf := maintains_fields s₁ st s₁.ni.backupTableBa en s₁.ni.protected
      (by omega) (by omega) (.inr (by omega)) (.inl hb) (by omega)
    have hc := (hw.trans hf).trans (clean_maintains hf.2)
    exact hc.trans (rebuildBackup_maintains hc.2 en (by show s₁.ni.mgmtStartBa ≤ en; omega))

theorem writeBehind_maintains (hL : Layout s.ni) (lo : Nat) (hlo : s.ni.mgmtStartBa ≤ lo) :
    Maintains s (writeBehind s lo).2 :=
  ⟨.of_write (writeBehind_step s lo) hlo (Nat.le_refl _), (writeBehind_step s lo).layout hL⟩

theorem rescueMainInfoTable_maintains (hL : Layout s.ni) : Maintains s (rescueMainInfoTable s) := by
  unfold rescueMainInfoTable
  have hw := writeBehind_maintains hL s.ni.mappingBlocksBa hL.start_le
  have ht := (writeBehind_step s s.ni.mappingBlocksBa).tables
  obtain ⟨e1, e2⟩ := hw.ends
  split
  · rename_i ts te s₁ hr
    rw [hr] at hw ht e1 e2
    obtain ⟨h1, h2, h3⟩ := writeBehind_eq_some hr
    have hs := hL.start_le
    dsimp only at hw ht e1 e2 ⊢
    have hf := hw.trans (maintains_fields s₁ s₁.ni.mainTableBa s₁.ni.backupTableBa te s₁.ni.protected
      (by omega) (by omega) hw.2.main hw.2.backup (by have := hL.backup_le; omega))
    have hm := hf.trans (writeInfoTable_maintains hf.2 s₁.ni.mgmtStartBa ts (Nat.le_refl _) (by dsimp only; omega))
    have ht' := (writeInfoTable_step { s₁ with ni.mappingBlocksBa := te } s₁.ni.mgmtStartBa ts).tables
    obtain ⟨e3, e4⟩ := hm.ends
    split
    · rename_i s₂ hr₂
      rw [hr₂] at hm ht' e3 e4
      dsimp only at hm ht' e3 e4
      have hg := maintains_fields s₂ ts 0 s₂.ni.mappingBlocksBa s₂.ni.protected
        hm.2.start_le hm.2.le_top (.inr (by omega)) (.inl rfl) (Nat.zero_le _)
      exact (hm.trans hg).trans (clean_maintains hg.2)
    · rename_i ms me s₂ hr₂
      rw [hr₂] at hm ht' e3 e4
      obtain ⟨h4, h5, h6⟩ := writeInfoTable_eq_some hr₂
      dsimp only at hm ht' e3 e4 h4
      have hg := maintains_fields s₂ ms s₂.ni.backupTableBa s₂.ni.mappingBlocksBa s₂.ni.protected
        hm.2.start_le hm.2.le_top (.inr (by omega)) hm.2.backup hm.2.backup_le
      have hc := (hm.trans hg).trans (clean_maintains hg.2)
      rw [if_pos h6]
      exact hc.trans (maintains_fields (markTablesClean _) _ _ _ _ hc.2.start_le hc.2.le_top hc.2.main
        (.inr (by show s₂.ni.mgmtStartBa ≤ ts; omega)) (by show ts ≤ s₂.ni.mappingBlocksBa; omega))
  · rename_i s₁ _ hr
    rw [hr] at hw
    exact hw.trans (maintains_fields s₁ _ _ _ _ hw.2.start_le hw.2.le_top hw.2.backup (.inl rfl) (Nat.zero_le _))

theorem updateBackupTable_maintains (hL : Layout s.ni) :
    Maintains s (updateBackupTable s).2 ∧ (updateBackupTable s).1 ≤ s.ni.mappingBlocksTopBa := by
  unfold updateBackupTable
  split
  · exact ⟨.refl hL, Nat.le_refl _⟩
  · rename_i hb
    have hbs : s.ni.mgmtStartBa ≤ s.ni.backupTableBa := hL.backup.resolve_left hb
    have hw := writeInfoTable_maintains hL s.ni.backupTableBa s.ni.mappingBlocksTopBa hbs (Nat.le_refl _)
    have ht := (writeInfoTable_step s s.ni.backupTableBa s.ni.mappingBlocksTopBa).tables
    obtain ⟨e1, e2⟩ := hw.ends
    have hble := hL.backup_le
    have htop := hL.le_top
    rcases hr : writeInfoTable s s.ni.backupTableBa s.ni.mappingBlocksTopBa with ⟨_ | ⟨st, en⟩, s₁⟩ <;>
      rw [hr] at hw ht e1 e2 <;> dsimp only at hw ht e1 e2 ⊢
    · refine ⟨hw.trans (maintains_fields s₁ _ _ _ _ (by omega) (by omega) hw.2.main (.inl rfl) (Nat.zero_le _)), by omega⟩
    · obtain ⟨h1, h2, h3⟩ := writeInfoTable_eq_some hr
      have hf := maintains_fields s₁ s₁.ni.mainTableBa st en s₁.ni.protected
        (by omega) (by omega) hw.2.main (.inr (by omega)) (by omega)
      exact ⟨(hw.trans hf).trans (clean_maintains hf.2), by omega⟩

theorem updateMainTable_maintains (hL : Layout s.ni) (limit : Nat) (hl : limit ≤ s.ni.mappingBlocksTopBa) :
    Maintains s (updateMainTable s limit).2 := by
  unfold updateMainTable
  split
  · exact rebuildInfoTable_maintains (Nat.le_trans hL.start_le hL.le_top)
  · rename_i hm
    have hms : s.ni.mgmtStartBa ≤ s.ni.mainTableBa := hL.main.resolve_left hm
    have hw := writeInfoTable_maintains hL s.ni.mainTableBa limit hms hl
    obtain ⟨e1, e2⟩ := hw.ends
    rcases hr : writeInfoTable s s.ni.mainTableBa limit with ⟨_ | ⟨st, en⟩, s₁⟩ <;>
      rw [hr] at hw e1 e2 <;> dsimp only at hw e1 e2 ⊢
    · split
      · exact hw.trans (rebuildInfoTable_maintains (Nat.le_trans hw.2.start_le hw.2.le_top))
      · exact hw.trans (rescueMainInfoTable_maintains hw.2)
    · obtain ⟨h1, h2, h3⟩ := writeInfoTable_eq_some hr
      split
      · rename_i hb
        have hf := maintains_fields s₁ st s₁.ni.backupTableBa en s₁.ni.protected
          (by omega) (by omega) (.inr (by omega)) hw.2.backup (by omega)
        exact (hw.trans hf).trans (clean_maintains hf.2)
      · have hf := maintains_fields s₁ st s₁.ni.backupTableBa s₁.ni.mappingBlocksBa s₁.ni.protected
          hw.2.start_le hw.2.le_top (.inr (by omega)) hw.2.backup hw.2.backup_le
        exact (hw.trans hf).trans (clean_maintains hf.2)

theorem updateInfoTableOnce_maintains (hL : Layout s.ni) (force : Bool) : Maintains s (updateInfoTableOnce s force).2 := by
  unfold updateInfoTableOnce
  have hg := generate_maintains hL
  rcases hr : generateInfoTableCache s with ⟨changed, s₁⟩
  rw [hr] at hg
  dsimp only
  split
  · exact hg
  · obtain ⟨hb, hl⟩ := updateBackupTable_maintains hg.2
    rcases hr₂ : updateBackupTable s₁ with ⟨limit, s₂⟩
    rw [hr₂] at hb hl
    dsimp only at hb hl ⊢
    exact (hg.trans hb).trans (updateMainTable_maintains hb.2 limit (by rw [hb.ends.2]; exact hl))

theorem updateLoop_maintains (hL : Layout s.ni) (n : Nat) : Maintains s (updateLoop n s).2 := by
  induction n generalizing s with
  | zero => exact .refl hL
  | succ n ih =>
    unfold updateLoop
    split
    · have h := updateInfoTableOnce_maintains hL false
      rcases hr : updateInfoTableOnce s false with ⟨_ | _, s₁⟩ <;> rw [hr] at h <;> dsimp only
      · exact h
      · exact h.trans (ih h.2)
    · exact .refl hL

/-- `nmbm_update_info_table` keeps the mapping and works between the two bounds, whatever fails. -/
theorem updateInfoTable_maintains (hL : Layout s.ni) : Maintains s (updateInfoTable s).2 := by
  unfold updateInfoTable
  split
  · exact .refl hL
  · exact updateLoop_maintains hL _

theorem updateInfoTable_layout (hL : Layout s.ni) :
    Layout (updateInfoTable s).2.ni ∧ s.trace <:+ (updateInfoTable s).2.trace := by
  have hm := updateInfoTable_maintains hL
  obtain ⟨evs, ht, -⟩ := hm.1.trace
  refine ⟨hm.2, ?_⟩
  rw [ht]
  exact List.suffix_append _ _

end

end RainWrt.Nmbm
