import RainWrt.Theorems.En75.Boot

/-! Which blocks the EN75 driver may remap: the ranges that the start builds from the device tree, and the check
    against them. -/

namespace RainWrt.En75

/-! ### The device tree -/

/-- A node of a fixed partition. -/
structure Partition where
  enableRemap : Bool
  /-- The start and the size, in bytes. -/
  reg : Nat × Nat

/-- The node of the device with its partitions. -/
structure Tree where
  node : DeviceNode
  parts : List Partition

/-- What the driver reads of it: of a partition, no more than where it is. -/
def Tree.deviceNode (tree : Tree) : DeviceNode := { tree.node with partitions := tree.parts.map Partition.reg }

/-- The block lies in the partition. -/
def Partition.Contains (part : Partition) (blkSize u : Nat) : Prop := part.reg.1 ≤ u * blkSize ∧ (u + 1) * blkSize ≤ part.reg.1 + part.reg.2

/-- The tree says that the block may be remapped. -/
def Tree.Enables (tree : Tree) (blkSize u : Nat) : Prop :=
  tree.node.enableRemap = true ∨ ∃ part ∈ tree.parts, part.enableRemap = true ∧ part.Contains blkSize u

/-- The check of `pub_remap_block`. -/
def Ctx.Permits (ctx : Ctx) (u : Nat) : Prop := ctx.canRemapRanges.any (fun r => r.1 ≤ u && u < r.2) = true

/-! ### What the start leaves alone -/

/-- The ranges and the reserve area stay. -/
structure Gated (ctx ctx' : Ctx) : Prop where
  ranges : ctx'.canRemapRanges = ctx.canRemapRanges
  reserve : ctx'.reserveAreaBegin = ctx.reserveAreaBegin

theorem Gated.trans {ctx ctx' ctx'' : Ctx} (h : Gated ctx ctx') (h' : Gated ctx' ctx'') : Gated ctx ctx'' :=
  ⟨h'.ranges.trans h.ranges, h'.reserve.trans h.reserve⟩

section
variable {np : DeviceNode} {ctx ctx' : Ctx} {t : Trace} {ret : Int}

theorem gated_reconstructBmt {count : Nat} (h : Proc.Runs (reconstructBmt count ctx) t ctx') : Gated ctx ctx' := by
  induction count generalizing ctx t with
  | zero =>
    obtain ⟨-, rfl⟩ := Proc.runs_pure.mp h
    exact ⟨rfl, rfl⟩
  | succ count ih =>
    obtain ⟨t₁, t₂, r, rfl, -, k⟩ := Proc.runs_bind.mp h
    cases r with
    | error e => exact ih k
    | ok r =>
      dsimp only at k
      split at k
      · exact ih k
      · obtain ⟨h1, h2⟩ := ih k
        exact ⟨h1, h2⟩

theorem gated_rReconstructBmt (h : Proc.Runs (rReconstructBmt ctx) t ctx') : Gated ctx ctx' := by
  obtain ⟨h1, h2⟩ := gated_reconstructBmt h
  exact ⟨h1, h2⟩

theorem gated_rReconstructBbt (h : Proc.Runs (rReconstructBbt ctx) t (ctx', ret)) : Gated ctx ctx' := by
  unfold rReconstructBbt at h
  split at h
  · obtain ⟨-, h0⟩ := Proc.runs_pure.mp h
    cases h0
    exact ⟨rfl, rfl⟩
  · obtain ⟨t₁, t₂, bbt, rfl, -, k⟩ := Proc.runs_bind.mp h
    obtain ⟨-, h0⟩ := Proc.runs_pure.mp k
    cases h0
    exact ⟨rfl, rfl⟩

theorem gated_ensureTables (h : Proc.Runs (ensureTables np ctx) t (ctx', ret)) : Gated ctx ctx' := by
  have hsame : ∀ {ret₀ : Int}, Proc.Runs (pure (ctx, ret₀) : Fl (Ctx × Int)) t (ctx', ret) → Gated ctx ctx' := by
    intro ret₀ h
    obtain ⟨-, h0⟩ := Proc.runs_pure.mp h
    cases h0
    exact ⟨rfl, rfl⟩
  have hbmt : Proc.Runs (do
      let ctx ← rReconstructBmt ctx
      pure (ctx, (0 : Int))) t (ctx', ret) → Gated ctx ctx' := by
    intro h
    obtain ⟨t₁, t₂, ctx₁, rfl, h1, k⟩ := Proc.runs_bind.mp h
    obtain ⟨-, h0⟩ := Proc.runs_pure.mp k
    cases h0
    exact gated_rReconstructBmt h1
  unfold ensureTables at h
  split at h
  · split at h
    · exact hbmt h
    · exact hsame h
  · split at h
    · exact hsame h
    · split at h
      · split at h
        · exact hbmt h
        · exact hsame h
      · split at h
        · exact gated_rReconstructBbt h
        · obtain ⟨t₁, t₂, ctx₁, rfl, h1, h2⟩ := Proc.runs_bind.mp h
          exact (gated_rReconstructBmt h1).trans (gated_rReconstructBbt h2)

theorem gated_clearBbt {blocks : List UInt32} {i : Nat} (h : Proc.Runs (clearBbt blocks i ctx) t ctx') : Gated ctx ctx' := by
  induction i generalizing ctx t with
  | zero =>
    obtain ⟨-, rfl⟩ := Proc.runs_pure.mp h
    exact ⟨rfl, rfl⟩
  | succ i ih =>
    unfold clearBbt at h
    dsimp only at h
    split at h
    · obtain ⟨h1, h2⟩ := ih h
      exact ⟨h1, h2⟩
    · obtain ⟨t₁, t₂, r, rfl, -, k⟩ := Proc.runs_bind.mp h
      obtain ⟨h1, h2⟩ := ih k
      exact ⟨h1, h2⟩

theorem gated_unmapFactory {blocks : List UInt32} (h : Proc.Runs (unmapFactory blocks ctx) t ctx') : Gated ctx ctx' := by
  induction blocks generalizing ctx t with
  | nil =>
    obtain ⟨-, rfl⟩ := Proc.runs_pure.mp h
    exact ⟨rfl, rfl⟩
  | cons block blocks ih =>
    unfold unmapFactory at h
    split at h
    · exact ih h
    · split at h
      · exact ih h
      · obtain ⟨t₁, t₂, ⟨ctx₁, r⟩, rfl, h1, k⟩ := Proc.runs_bind.mp h
        refine Gated.trans ?_ (ih k)
        unfold wUnmapBlock at h1
        split at h1
        · obtain ⟨-, h0⟩ := Proc.runs_pure.mp h1
          cases h0
          exact ⟨rfl, rfl⟩
        · split at h1
          · obtain ⟨-, h0⟩ := Proc.runs_pure.mp h1
            cases h0
            exact ⟨rfl, rfl⟩
          · rw [if_pos rfl] at h1
            obtain ⟨-, h0⟩ := Proc.runs_pure.mp h1
            cases h0
            exact ⟨rfl, rfl⟩

theorem gated_addFactory {blocks : List UInt32} (h : Proc.Runs (addFactory blocks ctx) t ctx') : Gated ctx ctx' := by
  induction blocks generalizing ctx t with
  | nil =>
    obtain ⟨-, rfl⟩ := Proc.runs_pure.mp h
    exact ⟨rfl, rfl⟩
  | cons block blocks ih =>
    unfold addFactory at h
    split at h
    · exact ih h
    · obtain ⟨t₁, t₂, r, rfl, -, k⟩ := Proc.runs_bind.mp h
      obtain ⟨h1, h2⟩ := ih k
      exact ⟨h1, h2⟩

theorem gated_checkFactory (h : Proc.Runs (checkFactory np ctx) t (ctx', ret)) : Gated ctx ctx' := by
  have hsame : ∀ {ret₀ : Int}, Proc.Runs (pure (ctx, ret₀) : Fl (Ctx × Int)) t (ctx', ret) → Gated ctx ctx' := by
    intro ret₀ h
    obtain ⟨-, h0⟩ := Proc.runs_pure.mp h
    cases h0
    exact ⟨rfl, rfl⟩
  unfold checkFactory at h
  split at h
  · unfold wFactoryBadblocks at h
    split at h
    · exact hsame h
    split at h
    · exact hsame h
    split at h
    · exact hsame h
    split at h
    · exact hsame h
    split at h
    · exact hsame h
    · obtain ⟨t₁, t₂, ctx₁, rfl, h1, k⟩ := Proc.runs_bind.mp h
      obtain ⟨-, h0⟩ := Proc.runs_pure.mp k
      cases h0
      obtain ⟨t₃, t₄, ctx₂, rfl, h3, k₃⟩ := Proc.runs_bind.mp h1
      obtain ⟨t₅, t₆, ctx₃, rfl, h5, k₅⟩ := Proc.runs_bind.mp k₃
      obtain ⟨t₇, t₈, ctx₄, rfl, h7, k₇⟩ := Proc.runs_bind.mp k₅
      obtain ⟨-, rfl⟩ := Proc.runs_pure.mp k₇
      obtain ⟨hr, hb⟩ := ((gated_clearBbt h3).trans (gated_unmapFactory h5)).trans (gated_addFactory h7)
      exact ⟨hr, hb⟩
  · exact hsame h

/-! ### The ranges -/

/-- The whole user area, or nothing: the property of a partition is never read. -/
theorem ranges_configure (np : DeviceNode) (ctx : Ctx) (h : ctx.canRemapRanges = []) :
    (configure np ctx).canRemapRanges = if np.enableRemap then [(0, ctx.reserveAreaBegin)] else [] := by
  unfold configure addRemapRanges
  by_cases hn : np.enableRemap = true
  · rw [if_pos hn, if_pos hn]
    unfold addRemapRange
    rw [if_neg (by simp), h, Nat.zero_add]
    rfl
  · rw [if_neg hn, if_neg hn, foldl_addPartition (by simpa using hn)]
    exact h

theorem rScanReserve_ranges {ctx : Ctx} (h : Proc.Runs (rScanReserve ctx) t (ctx', ret)) : ctx'.canRemapRanges = ctx.canRemapRanges := by
  have hscan : ∀ {cursor good stop : Nat} {ctx ctx' : Ctx} {t : Trace}, Proc.Runs (scanFrom cursor good ctx) t (ctx', stop) →
      ctx'.canRemapRanges = ctx.canRemapRanges := by
    intro cursor
    induction cursor with
    | zero =>
      intro good stop ctx ctx' t h
      obtain ⟨-, h0⟩ := Proc.runs_pure.mp h
      cases h0
      rfl
    | succ cursor ih =>
      intro good stop ctx ctx' t h
      obtain ⟨t₁, t₂, r, rfl, -, k⟩ := Proc.runs_bind.mp h
      have hrec : ((classify r).record ctx (cursor + 1)).canRemapRanges = ctx.canRemapRanges := by
        cases classify r <;> rfl
      dsimp only at k
      split at k
      · obtain ⟨-, h0⟩ := Proc.runs_pure.mp k
        cases h0
        exact hrec
      · exact (ih k).trans hrec
  obtain ⟨t₁, t₂, ⟨ctx₁, stop⟩, rfl, h1, k⟩ := Proc.runs_bind.mp h
  have h1' := hscan h1
  dsimp only at k
  split at k
  · obtain ⟨-, h0⟩ := Proc.runs_pure.mp k
    cases h0
    exact h1'
  · obtain ⟨-, h0⟩ := Proc.runs_pure.mp k
    cases h0
    exact h1'

theorem ranges_wInit {ctx₀ : Ctx} (h0 : ctx₀.canRemapRanges = []) (h : Proc.Runs (wInit np ctx₀) t (ctx, 0)) :
    ctx.canRemapRanges = if np.enableRemap then [(0, ctx.reserveAreaBegin)] else [] := by
  obtain ⟨t₁, u₁, ⟨ctx₁, ret₁⟩, rfl, h1, k₁⟩ := Proc.runs_bind.mp h
  have hscan := (rScanReserve_ranges h1).trans h0
  dsimp only at k₁
  split at k₁
  · rename_i hne
    obtain ⟨-, heq⟩ := Proc.runs_pure.mp k₁
    cases heq
    exact absurd rfl hne
  · split at k₁
    · obtain ⟨-, heq⟩ := Proc.runs_pure.mp k₁
      cases heq
    · obtain ⟨t₂, u₂, ⟨ctx₂, ret₂⟩, rfl, h2, k₂⟩ := Proc.runs_bind.mp k₁
      have hconf := ranges_configure np ctx₁ hscan
      have hg₂ := gated_ensureTables h2
      have hres : (configure np ctx₁).reserveAreaBegin = ctx₁.reserveAreaBegin := by
        obtain ⟨l, hl⟩ := configure_eq np ctx₁
        have := hl ctx₁.bmt ctx₁.rblocks
        change configure np ctx₁ = _ at this
        rw [this]
      dsimp only at k₂
      split at k₂
      · rename_i hne
        obtain ⟨-, heq⟩ := Proc.runs_pure.mp k₂
        cases heq
        exact absurd rfl hne
      · have hg := hg₂.trans (gated_checkFactory k₂)
        rw [hg.ranges, hg.reserve, hconf, hres]

/-- Outside the ranges nothing happens. -/
theorem pubRemapBlock_refused {u m : Nat} {copyLen : Int} {r : Ctx × Bool} (hno : ¬ctx.Permits u)
    (h : Proc.Runs (pubRemapBlock ctx u m copyLen) t r) : t = [] ∧ r = (ctx, false) := by
  unfold pubRemapBlock at h
  rw [if_pos (by simpa [Ctx.Permits] using hno)] at h
  exact Proc.runs_pure.mp h

/-- A block may be remapped as the tree says exactly if the device enables remapping, or no partition that does
    holds the block; and what may not be remapped is left alone. -/
theorem permits_iff_enables {tree : Tree} {totalBlks pgSize blkPages : Nat}
    (h : Proc.Runs (wInit tree.deviceNode { totalBlks := totalBlks, pgSize := pgSize, blkPages := blkPages }) t (ctx, 0)) :
    (∀ u < ctx.userBlocks, (ctx.Permits u ↔ tree.Enables (blkPages * pgSize) u) ↔
      tree.node.enableRemap = true ∨ ∀ part ∈ tree.parts, part.enableRemap = true → ¬part.Contains (blkPages * pgSize) u) ∧
    ∀ (ctx : Ctx) (u m : Nat) (copyLen : Int) (t : Trace) (r : Ctx × Bool), ¬ctx.Permits u → Proc.Runs (pubRemapBlock ctx u m copyLen) t r →
      t = [] ∧ r = (ctx, false) := by
  refine ⟨fun u hu => ?_, fun ctx u m copyLen t r hno hr => pubRemapBlock_refused hno hr⟩
  have hranges := ranges_wInit rfl h
  change ctx.canRemapRanges = if tree.node.enableRemap = true then [(0, ctx.reserveAreaBegin)] else [] at hranges
  unfold Ctx.userBlocks at hu
  by_cases hn : tree.node.enableRemap = true
  · rw [if_pos hn] at hranges
    have hpermits : ctx.Permits u := by
      rw [Ctx.Permits, hranges]
      simp only [List.any_cons, List.any_nil, Bool.or_false, Nat.zero_le, decide_true, Bool.true_and, decide_eq_true_eq]
      omega
    exact iff_of_true (iff_of_true hpermits (.inl hn)) (.inl hn)
  · rw [if_neg hn] at hranges
    have hno : ¬ctx.Permits u := by
      rw [Ctx.Permits, hranges]
      simp
    constructor
    · intro hiff
      right
      intro part hpart hen hc
      exact hno (hiff.mpr (.inr ⟨part, hpart, hen, hc⟩))
    · rintro (h' | hnone)
      · exact absurd h' hn
      · refine iff_of_false hno ?_
        rintro (h' | ⟨part, hpart, hen, hc⟩)
        · exact hn h'
        · exact hnone part hpart hen hc

end

/-- Ten blocks of 2048 bytes a page and 64 pages a block may be remapped. -/
def partTree : Tree where
  node := { canWriteFactoryBbt := true }
  parts := [⟨true, (0, 10 * 131072)⟩]

/-- Every block is erased and nothing fails. -/
def erasedAnswers : (q : Op) → Answer q
  | .erase _ => (0 : Int)
  | .program _ _ _ _ => (0 : Int)
  | .read _ _ => .ok ([], [0xff, 0xff, 0xff, 0xff])
  | .overrun => { totalBlks := 0, pgSize := 0, blkPages := 0 }

theorem runs_wInit_partTree : ∃ t ctx, Proc.Runs (wInit partTree.deviceNode { totalBlks := 25, pgSize := 2048, blkPages := 64 }) t (ctx, 0) ∧
    ctx.userBlocks = 23 := by
  have h := Proc.runs_follow erasedAnswers (wInit partTree.deviceNode { totalBlks := 25, pgSize := 2048, blkPages := 64 })
  generalize hr : Proc.follow erasedAnswers (wInit partTree.deviceNode { totalBlks := 25, pgSize := 2048, blkPages := 64 }) = r at h
  have h0 : r.2.2 = 0 := by
    rw [← hr]
    decide
  have hu : r.2.1.userBlocks = 23 := by
    rw [← hr]
    decide
  obtain ⟨t, ctx, ret⟩ := r
  obtain rfl : ret = 0 := h0
  exact ⟨t, ctx, h, hu⟩

theorem permits_iff_enables_part : ∃ t ctx, Proc.Runs (wInit partTree.deviceNode { totalBlks := 25, pgSize := 2048, blkPages := 64 }) t (ctx, 0) ∧
    ((ctx.Permits 12 ↔ partTree.Enables (64 * 2048) 12) ↔
      partTree.node.enableRemap = true ∨ ∀ part ∈ partTree.parts, part.enableRemap = true → ¬part.Contains (64 * 2048) 12) := by
  obtain ⟨t, ctx, h, hu⟩ := runs_wInit_partTree
  exact ⟨t, ctx, h, (permits_iff_enables h).1 12 (by omega)⟩

/-- A partition that enables remapping is not remapped. -/
theorem not_permits_of_enables : ∃ (tree : Tree) (totalBlks pgSize blkPages u : Nat) (t : Trace) (ctx : Ctx),
    Proc.Runs (wInit tree.deviceNode { totalBlks := totalBlks, pgSize := pgSize, blkPages := blkPages }) t (ctx, 0) ∧ u < ctx.userBlocks ∧
      tree.Enables (blkPages * pgSize) u ∧ ¬ctx.Permits u := by
  obtain ⟨t, ctx, h, hu⟩ := runs_wInit_partTree
  refine ⟨partTree, 25, 2048, 64, 3, t, ctx, h, by omega, .inr ⟨_, List.mem_singleton_self _, rfl, by unfold Partition.Contains; decide⟩, ?_⟩
  have hranges : ctx.canRemapRanges = [] := ranges_wInit rfl h
  rw [Ctx.Permits, hranges]
  simp

end RainWrt.En75
