import RainWrt.Theorems.En75.Factory
import RainWrt.Theorems.En75.Invariant

/-! Sequences of calls of the EN75 driver, with any pattern of failures. -/

namespace RainWrt.En75

section
variable {ctx ctx' : Ctx} {block : Nat} {t : Trace}

/-- The reserve block that a call hands to `w_remap_block` is the current place of the block. -/
def Current (ctx : Ctx) (block : Nat) (maybeMappedBlock : Option Nat) : Prop :=
  match maybeMappedBlock with
  | none => ctx.bmt.indexOf block = none
  | some j => ∃ k e y, ctx.bmt.indexOf block = some k ∧ ctx.bmt.entries[k]? = some e ∧ ctx.rblocks[j]? = some y ∧ y.index = e.dst.toNat

theorem moves_enterMapping {maybe : Option Nat} {i : Nat} {x : BlockInfo} {ret : Int} (hs : ctx.Shaped) (hi : ctx.Inv) (hx : ctx.rblocks[i]? = some x)
    (hav : x.status = .available) (hb : block < ctx.reserveAreaBegin) (hfull : ctx.bmt.size ≠ 0xff) (hcur : Current ctx block maybe)
    (h : Proc.Runs (enterMapping ctx block i maybe) t (ctx', ret)) : Moves ctx ctx' block := by
  obtain ⟨t₁, t₂, r, rfl, -, k⟩ := Proc.runs_bind.mp h
  rw [rblockIndex_eq hx] at k
  obtain ⟨-, h0⟩ := Proc.runs_pure.mp k
  cases h0
  rcases maybe with _ | j
  · exact moves_add hs hi hx hav hb hcur hfull _
  · obtain ⟨k', e, y, hk, he, hy, hyd⟩ := hcur
    exact moves_change hs hi hx hav hk he hy hyd _

theorem moves_wRemapBlock {maybe : Option Nat} {copyLen ret : Int} (hs : ctx.Shaped) (hi : ctx.Inv) (hb : block < ctx.reserveAreaBegin)
    (hcur : Current ctx block maybe) (h : Proc.Runs (wRemapBlock ctx block maybe copyLen) t (ctx', ret)) : Moves ctx ctx' block := by
  unfold wRemapBlock at h
  split at h
  · obtain ⟨-, h0⟩ := Proc.runs_pure.mp h
    cases h0
    exact (Quiet.refl ctx).moves hs hi block
  · rename_i hfull
    split at h
    · obtain ⟨-, h0⟩ := Proc.runs_pure.mp h
      cases h0
      exact (Quiet.refl ctx).moves hs hi block
    · rename_i i hf
      obtain ⟨x, hx, hav⟩ := findAvailableBlock_eq_some hf
      obtain ⟨t₁, t₂, r, rfl, -, k⟩ := Proc.runs_bind.mp h
      split at k
      · obtain ⟨-, h0⟩ := Proc.runs_pure.mp k
        cases h0
        exact (quiet_setStatus hs hx (by rw [hav]; decide)).moves hs hi block
      · obtain ⟨t₃, t₄, c, rfl, -, k'⟩ := Proc.runs_bind.mp k
        exact moves_enterMapping hs hi hx hav hb hfull hcur k'

theorem moves_wUnmapBlock {ue : UnmapErase} {ret : Int} (hs : ctx.Shaped) (hi : ctx.Inv) (h : Proc.Runs (wUnmapBlock ctx block ue) t (ctx', ret)) :
    Moves ctx ctx' block := by
  have hquiet := (Quiet.refl ctx).moves hs hi block
  unfold wUnmapBlock at h
  split at h
  · obtain ⟨-, h0⟩ := Proc.runs_pure.mp h
    cases h0
    exact hquiet
  · rename_i k hk
    obtain ⟨e, he, hsrc⟩ := indexOf_eq_some hk
    split at h
    · obtain ⟨-, h0⟩ := Proc.runs_pure.mp h
      cases h0
      exact hquiet
    · rename_i j hj
      obtain ⟨hlt, hp, -⟩ := List.findIdx?_eq_some_iff_getElem.mp hj
      have hget : (ctx.bmt.table.getD k .zero) = e := by
        have hk' := (List.getElem?_eq_some_iff.mp he).1
        rw [length_entries] at hk'
        rw [BmtTable.entries, List.getElem?_take_of_lt hk'] at he
        rw [List.getD_eq_getElem?_getD, he]
        rfl
      have hyd : ctx.rblocks[j].index = e.dst.toNat := by
        rw [hget] at hp
        simpa using hp
      have hmoves := moves_remove hs hi hk he (List.getElem?_eq_getElem hlt) hyd (ctx.bmtDirty + 1)
      dsimp only at h
      split at h
      · obtain ⟨-, h0⟩ := Proc.runs_pure.mp h
        cases h0
        exact hmoves
      · obtain ⟨t₁, t₂, r, rfl, -, k'⟩ := Proc.runs_bind.mp h
        split at k'
        · obtain ⟨-, h0⟩ := Proc.runs_pure.mp k'
          cases h0
          exact hquiet
        · obtain ⟨-, h0⟩ := Proc.runs_pure.mp k'
          cases h0
          exact hmoves

/-- The block of `rblocks` that a remap is called with is the current place. -/
theorem current_of_mapping {u m : Nat} (hs : ctx.Shaped) (hi : ctx.Inv) (hu : ctx.getMappingBlockBbt u = some block) (hm : ctx.getMappingBlock u = some m) :
    (m = block ∧ Current ctx block none) ∨ (m ≠ block ∧ ∃ j, ctx.rblocks.findIdx? (·.index = m) = some j ∧ Current ctx block (some j)) := by
  have hb := (getMappingBlockBbt_eq_some.mp hu).2
  rcases hk : ctx.bmt.indexOf block with _ | k
  · left
    refine ⟨?_, hk⟩
    rw [getMappingBlock_of_forall hu (indexOf_eq_none hk)] at hm
    exact (Option.some.inj hm).symm
  · right
    obtain ⟨e, he, hsrc⟩ := indexOf_eq_some hk
    have hem := List.mem_of_getElem? he
    rw [getMappingBlock_of_mem hi hu hem hsrc] at hm
    obtain rfl := Option.some.inj hm
    have hd := hi.dst_mapped e hem
    have harea := (hs.area _ hd).1
    dsimp only at harea
    refine ⟨by omega, ?_⟩
    obtain ⟨j, hj⟩ : ∃ j, ctx.rblocks.findIdx? (·.index = e.dst.toNat) = some j := by
      rw [List.findIdx?_eq_some_of_exists ⟨_, hd, by simp⟩]
      exact ⟨_, rfl⟩
    obtain ⟨hlt, hp, -⟩ := List.findIdx?_eq_some_iff_getElem.mp hj
    exact ⟨j, hj, k, e, _, hk, he, List.getElem?_eq_getElem hlt, by simpa using hp⟩

end

/-! ### Calls -/

inductive Call where
  | remap (userBlock mappedBlockIdx : Nat) (copyLen : Int)
  | unmap (userBlock : Nat)

namespace Call

def userBlock : Call → Nat
  | remap u _ _ => u
  | unmap u => u

/-- The call on a state of the driver. -/
def prog (ctx : Ctx) : Call → Fl Ctx
  | remap u m copyLen => do
    let (ctx, _) ← pubRemapBlock ctx u m copyLen
    pure ctx
  | unmap u => pubUnmapBlock ctx u

/-- A block inside the device is remapped, away from where it is. -/
def Admissible (ctx : Ctx) : Call → Prop
  | remap u m _ => u < ctx.userBlocks ∧ ctx.getMappingBlock u = some m
  | unmap _ => True

end Call

/-- What one call keeps: the invariant, and where every other user block is. -/
structure Kept (ctx ctx' : Ctx) (u : Nat) : Prop where
  shaped : ctx'.Shaped
  inv : ctx'.Inv
  fits : ctx'.Fits
  others : ∀ v, v ≠ u → ctx'.getMappingBlock v = ctx.getMappingBlock v

section
variable {ctx ctx' : Ctx} {t : Trace}

theorem kept_of_moves {u block : Nat} (hi : ctx.Inv) (hf : ctx.Fits) (hu : ctx.getMappingBlockBbt u = some block) (h : Moves ctx ctx' block) : Kept ctx ctx' u :=
  ⟨h.shaped, h.inv, h.fits hf, fun _ hv => h.getMappingBlock hi hu hv⟩

theorem kept_refl {u : Nat} (hs : ctx.Shaped) (hi : ctx.Inv) (hf : ctx.Fits) : Kept ctx ctx u := ⟨hs, hi, hf, fun _ _ => rfl⟩

theorem kept_pubRemapBlock {u m : Nat} {copyLen : Int} {r : Bool} (hs : ctx.Shaped) (hi : ctx.Inv) (hf : ctx.Fits) (hu : u < ctx.userBlocks)
    (hm : ctx.getMappingBlock u = some m) (h : Proc.Runs (pubRemapBlock ctx u m copyLen) t (ctx', r)) : Kept ctx ctx' u := by
  obtain ⟨block, hb⟩ := getMappingBlockBbt_isSome hu
  unfold pubRemapBlock at h
  split at h
  · obtain ⟨-, h0⟩ := Proc.runs_pure.mp h
    cases h0
    exact kept_refl hs hi hf
  · rw [hb, Option.getD_some] at h
    dsimp only at h
    split at h
    · obtain ⟨-, h0⟩ := Proc.runs_pure.mp h
      cases h0
      exact kept_refl hs hi hf
    · split at h
      · obtain ⟨-, h0⟩ := Proc.runs_pure.mp h
        cases h0
        exact kept_refl hs hi hf
      · obtain ⟨t₁, t₂, ⟨ctx₁, ret⟩, rfl, h1, k₁⟩ := Proc.runs_bind.mp h
        obtain ⟨t₃, t₄, ⟨ctx₂, ret'⟩, rfl, h2, k₂⟩ := Proc.runs_bind.mp k₁
        obtain ⟨-, h0⟩ := Proc.runs_pure.mp k₂
        cases h0
        have hcur : Current ctx block (if m ≠ block then ctx.rblocks.findIdx? (·.index = m) else none) := by
          rcases current_of_mapping hs hi hb hm with ⟨rfl, hc⟩ | ⟨hne, j, hj, hc⟩
          · rw [if_neg (by simp)]
            exact hc
          · rw [if_pos hne, hj]
            exact hc
        have hmoves := moves_wRemapBlock hs hi (getMappingBlockBbt_eq_some.mp hb).2 hcur h1
        exact kept_of_moves hi hf hb (hmoves.quiet (quiet_wSyncTables hmoves.shaped (hmoves.fits hf) h2))

theorem kept_pubUnmapBlock {u : Nat} (hs : ctx.Shaped) (hi : ctx.Inv) (hf : ctx.Fits) (h : Proc.Runs (pubUnmapBlock ctx u) t ctx') : Kept ctx ctx' u := by
  unfold pubUnmapBlock at h
  split at h
  · obtain ⟨-, rfl⟩ := Proc.runs_pure.mp h
    exact kept_refl hs hi hf
  · rename_i block hb
    split at h
    · obtain ⟨-, rfl⟩ := Proc.runs_pure.mp h
      exact kept_refl hs hi hf
    · obtain ⟨t₁, t₂, ⟨ctx₁, ret⟩, rfl, h1, k₁⟩ := Proc.runs_bind.mp h
      obtain ⟨t₃, t₄, ⟨ctx₂, ret'⟩, rfl, h2, k₂⟩ := Proc.runs_bind.mp k₁
      obtain ⟨-, rfl⟩ := Proc.runs_pure.mp k₂
      have hmoves := moves_wUnmapBlock hs hi h1
      exact kept_of_moves hi hf hb (hmoves.quiet (quiet_wSyncTables hmoves.shaped (hmoves.fits hf) h2))

/-- One call, whatever fails. -/
theorem Call.kept {c : Call} (hs : ctx.Shaped) (hi : ctx.Inv) (hf : ctx.Fits) (hc : c.Admissible ctx) (h : Proc.Runs (c.prog ctx) t ctx') :
    Kept ctx ctx' c.userBlock := by
  cases c with
  | remap u m copyLen =>
    obtain ⟨t₁, t₂, ⟨ctx₁, r⟩, rfl, h1, k⟩ := Proc.runs_bind.mp h
    obtain ⟨-, rfl⟩ := Proc.runs_pure.mp k
    exact kept_pubRemapBlock hs hi hf hc.1 hc.2 h1
  | unmap u => exact kept_pubUnmapBlock hs hi hf h

end

/-! ### Runs -/

/-- A sequence of calls, each ending in the state from which the next one starts. -/
inductive Run : Ctx → List Call → Ctx → Prop where
  | nil (ctx : Ctx) : Run ctx [] ctx
  | snoc {ctx ctx' ctx'' : Ctx} {cs : List Call} {c : Call} {t : Trace} (h : Run ctx cs ctx') (hc : c.Admissible ctx')
      (hr : Proc.Runs (c.prog ctx') t ctx'') : Run ctx (cs ++ [c]) ctx''

/-- The state that the driver must be in after every call. -/
structure Ctx.Sane (ctx : Ctx) : Prop where
  inv : ctx.Inv
  /-- A block that is up for another use is no place of a mapped block. -/
  free : ∀ e ∈ ctx.bmt.entries, ∀ rb ∈ ctx.rblocks, rb.index = e.dst.toNat →
    rb.status ≠ .available ∧ rb.status ≠ .needErase ∧ rb.status ≠ .bmt ∧ rb.status ≠ .bbt

section
variable {ctx ctx' : Ctx} {cs : List Call}

theorem sane_of_inv (hs : ctx.Shaped) (hi : ctx.Inv) : ctx.Sane := by
  refine ⟨hi, fun e he rb hm hd => ?_⟩
  rw [hs.eq hm (hi.dst_mapped e he) hd]
  exact ⟨nofun, nofun, nofun, nofun⟩

theorem Run.keeps (hs : ctx.Shaped) (hi : ctx.Inv) (hf : ctx.Fits) (h : Run ctx cs ctx') : ctx'.Shaped ∧ ctx'.Inv ∧ ctx'.Fits := by
  induction h with
  | nil => exact ⟨hs, hi, hf⟩
  | snoc _ hc hr ih =>
    obtain ⟨hs', hi', hf'⟩ := ih
    have hk := Call.kept hs' hi' hf' hc hr
    exact ⟨hk.shaped, hk.inv, hk.fits⟩

/-- As long as the reserve area is no larger than the table, every run keeps the driver sane, and every
    call of it moves no user block but its own. -/
theorem Run.sane (hs : ctx.Shaped) (hi : ctx.Inv) (hf : ctx.reserveBlockCount ≤ maxBmtSize) (h : Run ctx cs ctx') :
    ctx'.Sane ∧ ∀ (c : Call) (t : Trace) (ctx'' : Ctx), c.Admissible ctx' → Proc.Runs (c.prog ctx') t ctx'' →
      ctx''.Sane ∧ ∀ v, v ≠ c.userBlock → ctx''.getMappingBlock v = ctx'.getMappingBlock v := by
  obtain ⟨hs', hi', hf'⟩ := h.keeps hs hi hf
  refine ⟨sane_of_inv hs' hi', fun c t ctx'' hc hr => ?_⟩
  have hk := Call.kept hs' hi' hf' hc hr
  exact ⟨sane_of_inv hk.shaped hk.inv, hk.others⟩

end

/-- A chip with no bad blocks, whose reserve area is free from end to end. -/
def freshCtx (totalBlks reserveAreaBegin : Nat) : Ctx where
  totalBlks := totalBlks
  pgSize := 2048
  blkPages := 64
  bbt := .fresh
  bmt := BmtTable.blank.reset
  rblocks := (List.range (totalBlks - reserveAreaBegin)).map fun i => ⟨totalBlks - 1 - i, .available⟩
  reserveAreaBegin := reserveAreaBegin
  canRemapRanges := [(0, reserveAreaBegin)]

theorem shaped_freshCtx {totalBlks reserveAreaBegin : Nat} (ht : totalBlks < 65536) (hr : reserveAreaBegin ≤ totalBlks) : (freshCtx totalBlks reserveAreaBegin).Shaped := by
  refine ⟨ht, hr, fun rb hm => ?_, ?_⟩
  · obtain ⟨i, hi, rfl⟩ := List.mem_map.mp hm
    have := List.mem_range.mp hi
    simp only [freshCtx]
    omega
  · rw [freshCtx, List.map_map, List.nodup_map_iff_inj_on List.nodup_range]
    intro i hi j hj he
    have h1 := List.mem_range.mp hi
    have h2 := List.mem_range.mp hj
    simp only [Function.comp_apply] at he
    omega

theorem inv_freshCtx (totalBlks reserveAreaBegin : Nat) : (freshCtx totalBlks reserveAreaBegin).Inv :=
  ⟨List.nodup_nil, fun _ he => (nomatch he), List.nodup_nil, fun _ he => (nomatch he)⟩

/-- Memory that nothing has been read into is reset without going over its entries. -/
theorem blank_reset :
    BmtTable.blank.reset = { BmtTable.blank with signature := BmtTable.bmtSignature, signature_length := rfl, version := 1 } := by
  have htable : BmtTable.blank.reset.table = BmtTable.blank.table :=
    List.ext_getElem (by simp [BmtTable.reset]) fun i h1 h2 => by simp [BmtTable.reset, BmtTable.blank]
  calc BmtTable.blank.reset = { BmtTable.blank.reset with table := BmtTable.blank.table, table_length := BmtTable.blank.table_length } := by
        simp only [← htable]
    _ = _ := rfl

theorem freshCtx_eq (totalBlks reserveAreaBegin : Nat) : freshCtx totalBlks reserveAreaBegin =
    { freshCtx totalBlks reserveAreaBegin with
      bmt := { BmtTable.blank with signature := BmtTable.bmtSignature, signature_length := rfl, version := 1 } } := by
  rw [← blank_reset]
  rfl

theorem Run.sane_remap : ∃ ctx', Run (freshCtx 100 92) [.remap 3 3 2048] ctx' ∧ ctx'.getMappingBlock 3 = some 92 ∧ ctx'.Sane := by
  have hrun : Run (freshCtx 100 92) [.remap 3 3 2048] _ :=
    .snoc (.nil _) ⟨by decide, by decide⟩ (Proc.runs_follow (allWell (freshCtx 100 92)) _)
  have hmapped : (Proc.follow (allWell (freshCtx 100 92)) (Call.prog (freshCtx 100 92) (.remap 3 3 2048))).2.getMappingBlock 3 = some 92 := by
    rw [freshCtx_eq 100 92]
    decide +kernel
  exact ⟨_, hrun, hmapped, (Run.sane (shaped_freshCtx (by decide) (by decide)) (inv_freshCtx _ _) (by decide) hrun).1⟩

/-- The state that an overrun into the pointer behind the table leaves. -/
def nullCtx : Ctx :=
  { freshCtx 3213 2956 with bmt := BmtTable.blank.reset.assign 3 2956, bmtDirty := 1, rblocks := [] }

/-- With 257 blocks in reserve a remap clears one entry too many. -/
theorem remap_overruns : ∃ ctx ctx' t, ctx.Shaped ∧ ctx.Inv ∧ Call.Admissible ctx (.remap 3 3 0) ∧ Proc.Runs (Call.prog ctx (.remap 3 3 0)) t ctx' ∧ ¬ctx'.Sane := by
  have hmem : (⟨3, 2956⟩ : BmtEntry) ∈ (Proc.follow (allWell nullCtx) (Call.prog (freshCtx 3213 2956) (.remap 3 3 0))).2.bmt.entries := by decide +kernel
  have hnone : (Proc.follow (allWell nullCtx) (Call.prog (freshCtx 3213 2956) (.remap 3 3 0))).2.rblocks = [] := by decide +kernel
  refine ⟨freshCtx 3213 2956, _, _, shaped_freshCtx (by decide) (by decide), inv_freshCtx _ _, ⟨by decide, by decide⟩,
    Proc.runs_follow (allWell nullCtx) _, fun h => ?_⟩
  have := h.inv.dst_mapped _ hmem
  rw [hnone] at this
  cases this

end RainWrt.En75
