import RainWrt.Theorems.En75.Chip
import RainWrt.Theorems.En75.Mapping

/-! What holds of the EN75 driver while it runs, whatever fails on the chip: no block is mapped twice, no
    replacement is used twice, and a replacement is never up for another use. A call is either quiet,
    which means that the mapping and the mapped blocks stay, or it moves one block. -/

namespace RainWrt.En75

/-! ### Invariant -/

/-- `rblocks` lists blocks of the reserve area, each once. -/
structure Ctx.Shaped (ctx : Ctx) : Prop where
  total : ctx.totalBlks < 65536
  begin : ctx.reserveAreaBegin ≤ ctx.totalBlks
  area : ∀ rb ∈ ctx.rblocks, ctx.reserveAreaBegin ≤ rb.index ∧ rb.index < ctx.totalBlks
  distinct : (ctx.rblocks.map BlockInfo.index).Nodup

/-- The mapped blocks are distinct user blocks, their places distinct reserve blocks of status `mapped`. -/
structure Ctx.Inv (ctx : Ctx) : Prop where
  src_nodup : ctx.bmt.SrcNodup
  src_user : ∀ e ∈ ctx.bmt.entries, e.src.toNat < ctx.reserveAreaBegin
  dst_nodup : (ctx.bmt.entries.map BmtEntry.dst).Nodup
  dst_mapped : ∀ e ∈ ctx.bmt.entries, ⟨e.dst.toNat, .mapped⟩ ∈ ctx.rblocks

section
variable {ctx ctx' ctx'' : Ctx}

theorem Ctx.Shaped.eq (h : ctx.Shaped) {x y : BlockInfo} (hx : x ∈ ctx.rblocks) (hy : y ∈ ctx.rblocks) (he : x.index = y.index) : x = y :=
  List.inj_on_of_nodup_map h.distinct hx hy he

/-- A block of another status than `mapped` is no place of a mapped block. -/
theorem Ctx.Inv.dst_ne (hi : ctx.Inv) (hs : ctx.Shaped) {rb : BlockInfo} (hm : rb ∈ ctx.rblocks) (hst : rb.status ≠ .mapped) :
    ∀ e ∈ ctx.bmt.entries, e.dst.toNat ≠ rb.index := by
  intro e he hd
  exact hst (by rw [← hs.eq (hi.dst_mapped e he) hm hd])

/-! ### Quiet changes -/

/-- The mapping and the mapped blocks stay. -/
structure Quiet (ctx ctx' : Ctx) : Prop where
  entries : ctx'.bmt.entries = ctx.bmt.entries
  blocks : ctx'.bbt.blocks = ctx.bbt.blocks
  userBlocks : ctx'.bbt.size = ctx.bbt.size
  reserve : ctx'.reserveAreaBegin = ctx.reserveAreaBegin
  total : ctx'.totalBlks = ctx.totalBlks
  index : ctx'.rblocks.map BlockInfo.index = ctx.rblocks.map BlockInfo.index
  mapped : ∀ rb ∈ ctx.rblocks, rb.status = .mapped → rb ∈ ctx'.rblocks

theorem Quiet.refl (ctx : Ctx) : Quiet ctx ctx := ⟨rfl, rfl, rfl, rfl, rfl, rfl, fun _ h _ => h⟩

theorem Quiet.trans (h : Quiet ctx ctx') (h' : Quiet ctx' ctx'') : Quiet ctx ctx'' :=
  ⟨h'.entries.trans h.entries, h'.blocks.trans h.blocks, h'.userBlocks.trans h.userBlocks, h'.reserve.trans h.reserve, h'.total.trans h.total,
    h'.index.trans h.index, fun rb hm hst => h'.mapped rb (h.mapped rb hm hst) hst⟩

theorem shaped_of_index (hs : ctx.Shaped) (hr : ctx'.reserveAreaBegin = ctx.reserveAreaBegin) (ht : ctx'.totalBlks = ctx.totalBlks)
    (hi : ctx'.rblocks.map BlockInfo.index = ctx.rblocks.map BlockInfo.index) : ctx'.Shaped := by
  refine ⟨by rw [ht]; exact hs.total, by rw [ht, hr]; exact hs.begin, fun rb hm => ?_, by rw [hi]; exact hs.distinct⟩
  have : rb.index ∈ ctx.rblocks.map BlockInfo.index := by
    rw [← hi]
    exact List.mem_map_of_mem hm
  obtain ⟨rb', hm', he⟩ := List.mem_map.mp this
  rw [hr, ht, ← he]
  exact hs.area rb' hm'

theorem Quiet.shaped (h : Quiet ctx ctx') (hs : ctx.Shaped) : ctx'.Shaped := shaped_of_index hs h.reserve h.total h.index

theorem Quiet.inv (h : Quiet ctx ctx') (hi : ctx.Inv) : ctx'.Inv := by
  refine ⟨?_, ?_, by rw [h.entries]; exact hi.dst_nodup, ?_⟩
  · unfold BmtTable.SrcNodup
    rw [h.entries]
    exact hi.src_nodup
  · rw [h.entries, h.reserve]
    exact hi.src_user
  · rw [h.entries]
    exact fun e he => h.mapped _ (hi.dst_mapped e he) rfl

theorem getMappingBlockBbt_congr (hb : ctx'.bbt.blocks = ctx.bbt.blocks) (hr : ctx'.reserveAreaBegin = ctx.reserveAreaBegin) (u : Nat) :
    ctx'.getMappingBlockBbt u = ctx.getMappingBlockBbt u := by
  unfold Ctx.getMappingBlockBbt
  rw [hb, hr]

/-! ### Statuses -/

theorem map_index_setStatus (ctx : Ctx) (i : Nat) (st : BlockStatus) : (ctx.setStatus i st).rblocks.map BlockInfo.index = ctx.rblocks.map BlockInfo.index := by
  apply List.ext_getElem?
  intro j
  simp only [Ctx.setStatus, List.getElem?_map, List.getElem?_modify]
  rcases ctx.rblocks[j]? with _ | x
  · rfl
  · by_cases hij : i = j
    · simp [hij]
    · simp [hij]

theorem mem_setStatus_of_ne {i : Nat} {st : BlockStatus} {x rb : BlockInfo} (hx : ctx.rblocks[i]? = some x) (hm : rb ∈ ctx.rblocks)
    (hne : rb.index ≠ x.index) : rb ∈ (ctx.setStatus i st).rblocks := by
  obtain ⟨j, hj⟩ := List.mem_iff_getElem?.mp hm
  refine List.mem_iff_getElem?.mpr ⟨j, ?_⟩
  have hij : i ≠ j := by
    rintro rfl
    rw [hx] at hj
    cases hj
    exact hne rfl
  rw [Ctx.setStatus, List.getElem?_modify_ne _ _ hij]
  exact hj

theorem getElem?_setStatus_self {i : Nat} {st : BlockStatus} {x : BlockInfo} (hx : ctx.rblocks[i]? = some x) :
    (ctx.setStatus i st).rblocks[i]? = some ⟨x.index, st⟩ := by
  rw [Ctx.setStatus, List.getElem?_modify_eq, hx]
  rfl

theorem mem_setStatus_self {i : Nat} {st : BlockStatus} {x : BlockInfo} (hx : ctx.rblocks[i]? = some x) : ⟨x.index, st⟩ ∈ (ctx.setStatus i st).rblocks :=
  List.mem_of_getElem? (getElem?_setStatus_self hx)

/-- Only a block that is not mapped changes its status. -/
theorem quiet_setStatus {i : Nat} {st : BlockStatus} {x : BlockInfo} (hs : ctx.Shaped) (hx : ctx.rblocks[i]? = some x) (hst : x.status ≠ .mapped) :
    Quiet ctx (ctx.setStatus i st) := by
  refine ⟨rfl, rfl, rfl, rfl, rfl, map_index_setStatus ctx i st, fun rb hm hmap => mem_setStatus_of_ne hx hm fun he => ?_⟩
  exact hst (by rw [← hs.eq hm (List.mem_of_getElem? hx) he]; exact hmap)

theorem quiet_markForErasure {st : BlockStatus} (hst : st ≠ .mapped) : Quiet ctx (ctx.markForErasure st) := by
  refine ⟨rfl, rfl, rfl, rfl, rfl, ?_, fun rb hm hmap => ?_⟩
  · rw [Ctx.markForErasure, List.map_map]
    refine List.map_congr_left fun x _ => ?_
    rw [Function.comp_apply]
    split <;> rfl
  · refine List.mem_map.mpr ⟨rb, hm, if_neg ?_⟩
    rw [hmap]
    exact fun h => hst h.symm

theorem findAvailableBlock_eq_some {b : Bool} {i : Nat} (h : ctx.findAvailableBlock b = some i) :
    ∃ x, ctx.rblocks[i]? = some x ∧ x.status = .available := by
  unfold Ctx.findAvailableBlock at h
  split at h
  · obtain ⟨hi, hp, -⟩ := List.findIdx?_eq_some_iff_getElem.mp h
    exact ⟨_, List.getElem?_eq_getElem hi, by simpa using hp⟩
  · obtain ⟨j, hj, rfl⟩ := Option.map_eq_some_iff.mp h
    obtain ⟨hj', hp, -⟩ := List.findIdx?_eq_some_iff_getElem.mp hj
    rw [List.getElem_reverse] at hp
    exact ⟨_, List.getElem?_eq_getElem _, by simpa using hp⟩

theorem rblockIndex_eq {i : Nat} {x : BlockInfo} (hx : ctx.rblocks[i]? = some x) : ctx.rblockIndex i = x.index := by
  rw [Ctx.rblockIndex, hx]
  rfl

/-! ### Tables and pending erasures -/

/-- A block whose erasure is pending gets another status. -/
def Erased (rb rb' : BlockInfo) : Prop := rb' = rb ∨ (rb.status = .needErase ∧ rb'.index = rb.index)

theorem Erased.index {rb rb' : BlockInfo} (h : Erased rb rb') : rb'.index = rb.index := by
  rcases h with rfl | ⟨-, h0⟩
  · rfl
  · exact h0

theorem map_index_of_erased {l l' : List BlockInfo} (h : List.Forall₂ Erased l l') : l'.map BlockInfo.index = l.map BlockInfo.index := by
  induction h with
  | nil => rfl
  | cons hr _ ih => rw [List.map_cons, List.map_cons, ih, hr.index]

theorem mem_of_erased {l l' : List BlockInfo} (h : List.Forall₂ Erased l l') {rb : BlockInfo} (hm : rb ∈ l) (hst : rb.status ≠ .needErase) : rb ∈ l' := by
  induction h with
  | nil => cases hm
  | cons hr _ ih =>
    rcases List.mem_cons.mp hm with rfl | hm
    · rcases hr with rfl | ⟨h0, -⟩
      · exact List.mem_cons_self
      · exact absurd h0 hst
    · exact List.mem_cons_of_mem _ (ih hm)

theorem erasePending_cases {rb rb' : BlockInfo} {t : Trace} (h : Proc.Runs (erasePending ctx rb) t rb') : Erased rb rb' := by
  unfold erasePending at h
  by_cases hst : rb.status = .needErase
  · right
    rw [if_neg (by simp [hst])] at h
    obtain ⟨t₁, t₂, ret, rfl, -, k⟩ := Proc.runs_bind.mp h
    split at k
    · obtain ⟨-, rfl⟩ := Proc.runs_pure.mp k
      exact ⟨hst, rfl⟩
    · split at k
      · obtain ⟨-, rfl⟩ := Proc.runs_pure.mp k
        exact ⟨hst, rfl⟩
      · obtain ⟨t₃, t₄, r, rfl, -, k'⟩ := Proc.runs_bind.mp k
        obtain ⟨-, rfl⟩ := Proc.runs_pure.mp k'
        exact ⟨hst, rfl⟩
  · left
    rw [if_pos (by simpa using hst)] at h
    exact (Proc.runs_pure.mp h).2

theorem erasePendings_forall₂ {l l' : List BlockInfo} {t : Trace} (h : Proc.Runs (erasePendings ctx l) t l') : List.Forall₂ Erased l l' := by
  induction l generalizing l' t with
  | nil =>
    obtain ⟨-, rfl⟩ := Proc.runs_pure.mp h
    exact .nil
  | cons rb l ih =>
    obtain ⟨t₁, t₂, rb₁, rfl, h1, k⟩ := Proc.runs_bind.mp h
    obtain ⟨t₃, t₄, l₁, rfl, h2, k'⟩ := Proc.runs_bind.mp k
    obtain ⟨-, rfl⟩ := Proc.runs_pure.mp k'
    exact .cons (erasePending_cases h1) (ih h2)

theorem quiet_wErasePending {t : Trace} (h : Proc.Runs (wErasePending ctx) t ctx') : Quiet ctx ctx' := by
  obtain ⟨t₁, t₂, l, rfl, h1, k⟩ := Proc.runs_bind.mp h
  obtain ⟨-, rfl⟩ := Proc.runs_pure.mp k
  have hall := erasePendings_forall₂ h1
  exact ⟨rfl, rfl, rfl, rfl, rfl, map_index_of_erased hall, fun rb hm hst => mem_of_erased hall hm (by rw [hst]; decide)⟩

theorem quiet_updateTable {b : Bool} {data : Bytes} {tries : Nat} {t : Trace} {res : Except Int Nat} (hs : ctx.Shaped)
    (h : Proc.Runs (updateTable b data tries ctx) t (ctx', res)) :
    Quiet ctx ctx' ∧ ∀ i, res = .ok i → ∃ x, ctx'.rblocks[i]? = some x ∧ x.status = .available := by
  induction tries generalizing ctx t with
  | zero =>
    obtain ⟨-, h0⟩ := Proc.runs_pure.mp h
    cases h0
    exact ⟨.refl _, fun i h => by cases h⟩
  | succ tries ih =>
    unfold updateTable at h
    split at h
    · obtain ⟨-, h0⟩ := Proc.runs_pure.mp h
      cases h0
      exact ⟨.refl _, fun i h => by cases h⟩
    · rename_i i hf
      obtain ⟨x, hx, hst⟩ := findAvailableBlock_eq_some hf
      obtain ⟨t₁, t₂, ret, rfl, -, k⟩ := Proc.runs_bind.mp h
      split at k
      · obtain ⟨-, h0⟩ := Proc.runs_pure.mp k
        cases h0
        exact ⟨.refl _, fun j hj => by cases hj; exact ⟨x, hx, hst⟩⟩
      · have hq := @quiet_setStatus ctx i .needErase x hs hx (by rw [hst]; decide)
        obtain ⟨hq', hres⟩ := ih (hq.shaped hs) k
        exact ⟨hq.trans hq', hres⟩

theorem quiet_newTable {i : Nat} {x : BlockInfo} {st : BlockStatus} (hs : ctx.Shaped) (hx : ctx.rblocks[i]? = some x) (hav : x.status = .available)
    (hst : st ≠ .mapped) : Quiet ctx (ctx.newTable i st) := by
  have hq := @quiet_markForErasure ctx st hst
  have hx' : (ctx.markForErasure st).rblocks[i]? = some (if x.status = st then { x with status := .needErase } else x) := by
    rw [Ctx.markForErasure, List.getElem?_map, hx]
    rfl
  refine hq.trans (quiet_setStatus (hq.shaped hs) hx' ?_)
  split
  · exact nofun
  · rw [hav]
    exact nofun

/-! ### `w_sync_tables` -/

theorem entries_clearFrom (b : BmtTable) (n : Nat) : (b.clearFrom n).entries = b.entries := by
  apply List.ext_getElem?
  intro j
  simp only [BmtTable.entries, BmtTable.clearFrom, List.getElem?_take, List.getElem?_mapIdx]
  split
  · rename_i hj
    rcases b.table[j]? with _ | e
    · rfl
    · rw [Option.map_some, if_neg (by omega)]
  · rfl

theorem blocks_withChecksum (b : BbtTable) : b.withChecksum.blocks = b.blocks := by
  have hlen := length_blocks b
  change (b.blocks ++ List.replicate (maxBbtSize - b.size.toNat) 0).take b.size.toNat = b.blocks
  rw [List.take_left' hlen]

/-- The reserve area is no larger than the table. -/
def Ctx.Fits (ctx : Ctx) : Prop := ctx.reserveBlockCount ≤ maxBmtSize

theorem Quiet.fits (h : Quiet ctx ctx') (hf : ctx.Fits) : ctx'.Fits := by
  unfold Ctx.Fits Ctx.reserveBlockCount
  rw [h.total, h.reserve]
  exact hf

theorem quiet_syncBmt {t : Trace} {ret : Int} (hs : ctx.Shaped) (hf : ctx.Fits) (h : Proc.Runs (syncBmt ctx) t (ctx', ret)) : Quiet ctx ctx' := by
  unfold syncBmt at h
  split at h
  · obtain ⟨-, h0⟩ := Proc.runs_pure.mp h
    cases h0
    exact .refl _
  · obtain ⟨t₁, t₂, ctx₁, rfl, h1, k⟩ := Proc.runs_bind.mp h
    obtain ⟨t₃, t₄, ⟨ctx₂, res⟩, rfl, h2, k'⟩ := Proc.runs_bind.mp k
    unfold clearBmt at h1
    dsimp only at h1
    rw [if_pos (show ctx.reserveBlockCount ≤ maxBmtSize from hf)] at h1
    obtain ⟨-, rfl⟩ := Proc.runs_pure.mp h1
    have hq : Quiet ctx { ctx with bmt := (ctx.bmt.clearFrom ctx.reserveBlockCount).withChecksum } :=
      ⟨entries_clearFrom ctx.bmt ctx.reserveBlockCount, rfl, rfl, rfl, rfl, rfl, fun _ h _ => h⟩
    obtain ⟨hq', hres⟩ := quiet_updateTable (hq.shaped hs) h2
    have hq₂ := hq.trans hq'
    rcases res with e | i
    · obtain ⟨-, h0⟩ := Proc.runs_pure.mp k'
      cases h0
      exact hq₂
    · obtain ⟨-, h0⟩ := Proc.runs_pure.mp k'
      cases h0
      obtain ⟨x, hx, hav⟩ := hres i rfl
      have hn := @quiet_newTable ctx₂ i x .bmt (hq₂.shaped hs) hx hav (by decide)
      exact hq₂.trans ⟨hn.entries, hn.blocks, hn.userBlocks, hn.reserve, hn.total, hn.index, hn.mapped⟩

theorem quiet_syncBbt {t : Trace} {ret : Int} (hs : ctx.Shaped) (h : Proc.Runs (syncBbt ctx) t (ctx', ret)) : Quiet ctx ctx' := by
  unfold syncBbt at h
  split at h
  · obtain ⟨-, h0⟩ := Proc.runs_pure.mp h
    cases h0
    exact .refl _
  · obtain ⟨t₃, t₄, ⟨ctx₂, res⟩, rfl, h2, k'⟩ := Proc.runs_bind.mp h
    have hq : Quiet ctx { ctx with bbt := ctx.bbt.withChecksum } := ⟨rfl, blocks_withChecksum _, rfl, rfl, rfl, rfl, fun _ h _ => h⟩
    obtain ⟨hq', hres⟩ := quiet_updateTable (hq.shaped hs) h2
    have hq₂ := hq.trans hq'
    rcases res with e | i
    · obtain ⟨-, h0⟩ := Proc.runs_pure.mp k'
      cases h0
      exact hq₂
    · obtain ⟨-, h0⟩ := Proc.runs_pure.mp k'
      cases h0
      obtain ⟨x, hx, hav⟩ := hres i rfl
      have hn := @quiet_newTable ctx₂ i x .bbt (hq₂.shaped hs) hx hav (by decide)
      exact hq₂.trans ⟨hn.entries, hn.blocks, hn.userBlocks, hn.reserve, hn.total, hn.index, hn.mapped⟩

theorem quiet_wSyncTables {t : Trace} {ret : Int} (hs : ctx.Shaped) (hf : ctx.Fits) (h : Proc.Runs (wSyncTables ctx) t (ctx', ret)) : Quiet ctx ctx' := by
  obtain ⟨t₁, u₁, ctx₁, rfl, h1, k₁⟩ := Proc.runs_bind.mp h
  have hq₁ := quiet_wErasePending h1
  obtain ⟨t₂, u₂, ⟨ctx₂, ret₂⟩, rfl, h2, k₂⟩ := Proc.runs_bind.mp k₁
  have hq₂ := hq₁.trans (quiet_syncBmt (hq₁.shaped hs) (hq₁.fits hf) h2)
  dsimp only at k₂
  split at k₂
  · obtain ⟨-, h0⟩ := Proc.runs_pure.mp k₂
    cases h0
    exact hq₂
  · obtain ⟨t₃, u₃, ⟨ctx₃, ret₃⟩, rfl, h3, k₃⟩ := Proc.runs_bind.mp k₂
    have hq₃ := hq₂.trans (quiet_syncBbt (hq₂.shaped hs) h3)
    dsimp only at k₃
    split at k₃
    · obtain ⟨-, h0⟩ := Proc.runs_pure.mp k₃
      cases h0
      exact hq₃
    · obtain ⟨t₄, u₄, ctx₄, rfl, h4, k₄⟩ := Proc.runs_bind.mp k₃
      obtain ⟨-, h0⟩ := Proc.runs_pure.mp k₄
      cases h0
      exact hq₃.trans (quiet_wErasePending h4)

/-! ### Remap -/

/-- A user block moves: its entry is set, the others stay. -/
structure Moves (ctx ctx' : Ctx) (block : Nat) : Prop where
  shaped : ctx'.Shaped
  inv : ctx'.Inv
  others : ∀ e : BmtEntry, e.src.toNat ≠ block → (e ∈ ctx'.bmt.entries ↔ e ∈ ctx.bmt.entries)
  blocks : ctx'.bbt.blocks = ctx.bbt.blocks
  userBlocks : ctx'.bbt.size = ctx.bbt.size
  reserve : ctx'.reserveAreaBegin = ctx.reserveAreaBegin
  total : ctx'.totalBlks = ctx.totalBlks

theorem Quiet.moves (h : Quiet ctx ctx') (hs : ctx.Shaped) (hi : ctx.Inv) (block : Nat) : Moves ctx ctx' block :=
  ⟨h.shaped hs, h.inv hi, fun e _ => by rw [h.entries], h.blocks, h.userBlocks, h.reserve, h.total⟩

theorem Moves.quiet {block : Nat} (h : Moves ctx ctx' block) (h' : Quiet ctx' ctx'') : Moves ctx ctx'' block :=
  ⟨h'.shaped h.shaped, h'.inv h.inv, fun e he => by rw [h'.entries]; exact h.others e he, h'.blocks.trans h.blocks,
    h'.userBlocks.trans h.userBlocks, h'.reserve.trans h.reserve, h'.total.trans h.total⟩

theorem Moves.fits {block : Nat} (h : Moves ctx ctx' block) (hf : ctx.Fits) : ctx'.Fits := by
  unfold Ctx.Fits Ctx.reserveBlockCount
  rw [h.total, h.reserve]
  exact hf

/-- No other user block is mapped elsewhere. -/
theorem Moves.getMappingBlock {block u v : Nat} (h : Moves ctx ctx' block) (hi : ctx.Inv) (hu : ctx.getMappingBlockBbt u = some block) (hv : v ≠ u) :
    ctx'.getMappingBlock v = ctx.getMappingBlock v := by
  unfold Ctx.getMappingBlock
  rw [getMappingBlockBbt_congr h.blocks h.reserve]
  rcases hb : ctx.getMappingBlockBbt v with _ | b
  · rfl
  · dsimp only
    have hne : b ≠ block := by
      rintro rfl
      exact hv (getMappingBlockBbt_inj hb hu)
    rw [find_reverse_congr hi.src_nodup h.inv.src_nodup fun e he => h.others e (by rw [he]; exact hne)]

/-- The place of a block that has an entry. -/
theorem getMappingBlock_of_mem {u b : Nat} {e : BmtEntry} (hi : ctx.Inv) (hb : ctx.getMappingBlockBbt u = some b) (he : e ∈ ctx.bmt.entries)
    (hs : e.src.toNat = b) : ctx.getMappingBlock u = some e.dst.toNat := by
  unfold Ctx.getMappingBlock
  rw [hb]
  dsimp only
  rw [(find_reverse_eq_some hi.src_nodup).mpr ⟨he, hs⟩]

theorem getMappingBlock_of_forall {u b : Nat} (hb : ctx.getMappingBlockBbt u = some b) (hn : ∀ e ∈ ctx.bmt.entries, e.src.toNat ≠ b) :
    ctx.getMappingBlock u = some b := by
  unfold Ctx.getMappingBlock
  rw [hb]
  dsimp only
  rw [List.find?_eq_none.mpr fun e he => by simpa using hn e (List.mem_reverse.mp he)]

section
variable {block i j : Nat} {x y : BlockInfo} {e : BmtEntry}

/-- A new mapping: a free block becomes the place of a block that is not mapped yet. -/
theorem moves_add (hs : ctx.Shaped) (hi : ctx.Inv) (hx : ctx.rblocks[i]? = some x) (hav : x.status = .available) (hb : block < ctx.reserveAreaBegin)
    (hnone : ctx.bmt.indexOf block = none) (hfull : ctx.bmt.size ≠ 0xff) (d : Int8) :
    Moves ctx (Ctx.setStatus { ctx with bmt := ctx.bmt.assign block x.index, bmtDirty := d } i .mapped) block := by
  have hent := @entries_assign_none _ _ x.index hnone hfull
  have htot := hs.total
  have hbeg := hs.begin
  have hxm := List.mem_of_getElem? hx
  have hxi := (hs.area x hxm).2
  have hsrc : (UInt16.ofNat block).toNat = block := UInt16.toNat_ofNat_of_lt' (show _ < 65536 by omega)
  have hdst : (UInt16.ofNat x.index).toNat = x.index := UInt16.toNat_ofNat_of_lt' (show _ < 65536 by omega)
  have hfresh := hi.dst_ne hs hxm (by rw [hav]; decide)
  have hshape : Ctx.Shaped (Ctx.setStatus { ctx with bmt := ctx.bmt.assign block x.index, bmtDirty := d } i .mapped) :=
    shaped_of_index hs rfl rfl (map_index_setStatus _ i .mapped)
  have hbt : (Ctx.setStatus { ctx with bmt := ctx.bmt.assign block x.index, bmtDirty := d } i .mapped).bbt = ctx.bbt := rfl
  refine ⟨hshape, ⟨?_, ?_, ?_, ?_⟩, ?_, rfl, rfl, rfl, rfl⟩
  · change ((ctx.bmt.assign block x.index).entries.map BmtEntry.src).Nodup
    rw [hent, List.map_append, List.nodup_append]
    refine ⟨hi.src_nodup, by simp, fun a ha c hc he => ?_⟩
    obtain ⟨e, hem, rfl⟩ := List.mem_map.mp ha
    rw [List.map_singleton, List.mem_singleton] at hc
    exact indexOf_eq_none hnone e hem (by rw [he, hc, hsrc])
  · change ∀ e ∈ (ctx.bmt.assign block x.index).entries, e.src.toNat < ctx.reserveAreaBegin
    rw [hent]
    intro e he
    rcases List.mem_append.mp he with he | he
    · exact hi.src_user e he
    · rw [List.mem_singleton.mp he, hsrc]
      exact hb
  · change ((ctx.bmt.assign block x.index).entries.map BmtEntry.dst).Nodup
    rw [hent, List.map_append, List.nodup_append]
    refine ⟨hi.dst_nodup, by simp, fun a ha c hc he => ?_⟩
    obtain ⟨e, hem, rfl⟩ := List.mem_map.mp ha
    rw [List.map_singleton, List.mem_singleton] at hc
    exact hfresh e hem (by rw [he, hc, hdst])
  · change ∀ e ∈ (ctx.bmt.assign block x.index).entries, _
    rw [hent]
    intro e he
    rcases List.mem_append.mp he with he | he
    · exact mem_setStatus_of_ne hx (hi.dst_mapped e he) (hfresh e he)
    · rw [List.mem_singleton.mp he, hdst]
      exact mem_setStatus_self hx
  · intro e he
    change e ∈ (ctx.bmt.assign block x.index).entries ↔ _
    rw [hent, List.mem_append, List.mem_singleton]
    refine ⟨fun h => h.resolve_right ?_, .inl⟩
    rintro rfl
    exact he hsrc

/-- The entry at a place of the table, and the others. -/
theorem mem_modify_entries {l : List BmtEntry} {f : BmtEntry → BmtEntry} {e a : BmtEntry} (hi : l[i]? = some e) (hn : (l.map BmtEntry.src).Nodup)
    (hm : a ∈ l.modify i f) : a = f e ∨ (a ∈ l ∧ a.src ≠ e.src) := by
  obtain ⟨k, hk⟩ := List.mem_iff_getElem?.mp hm
  by_cases hik : i = k
  · subst hik
    rw [List.getElem?_modify_eq, hi] at hk
    exact .inl (Option.some.inj hk).symm
  · rw [List.getElem?_modify_ne _ _ hik] at hk
    refine .inr ⟨List.mem_of_getElem? hk, fun he => hik ?_⟩
    have h1 : (l.map BmtEntry.src)[i]? = some e.src := by rw [List.getElem?_map, hi]; rfl
    have h2 : (l.map BmtEntry.src)[k]? = some e.src := by rw [List.getElem?_map, hk, ← he]; rfl
    exact (List.getElem?_inj (List.getElem?_eq_some_iff.mp h1).1 hn).mp (h1.trans h2.symm)

theorem mem_modify_of_ne {l : List BmtEntry} {f : BmtEntry → BmtEntry} {e a : BmtEntry} (hi : l[i]? = some e) (hm : a ∈ l) (hne : a ≠ e) : a ∈ l.modify i f := by
  obtain ⟨k, hk⟩ := List.mem_iff_getElem?.mp hm
  refine List.mem_iff_getElem?.mpr ⟨k, ?_⟩
  rw [List.getElem?_modify_ne _ _ fun hik => hne ?_]
  · exact hk
  · rw [hik] at hi
    rw [hi] at hk
    exact (Option.some.inj hk).symm

/-- A mapping is changed: the old place is to be erased. -/
theorem moves_change (hs : ctx.Shaped) (hi : ctx.Inv) (hx : ctx.rblocks[i]? = some x) (hav : x.status = .available) {k : Nat}
    (hsome : ctx.bmt.indexOf block = some k) (he : ctx.bmt.entries[k]? = some e) (hy : ctx.rblocks[j]? = some y) (hyd : y.index = e.dst.toNat)
    (d : Int8) : Moves ctx (Ctx.setStatus (Ctx.setStatus { ctx with bmt := ctx.bmt.assign block x.index, bmtDirty := d } i .mapped) j .needErase) block := by
  have hent := @entries_assign_some _ _ x.index _ hsome
  obtain ⟨e', he', hsrc⟩ := indexOf_eq_some hsome
  obtain rfl : e' = e := Option.some.inj (he'.symm.trans he)
  have htot := hs.total
  have hxm := List.mem_of_getElem? hx
  have hym := List.mem_of_getElem? hy
  have hem := List.mem_of_getElem? he
  have hxi := (hs.area x hxm).2
  have hdst : (UInt16.ofNat x.index).toNat = x.index := UInt16.toNat_ofNat_of_lt' (show _ < 65536 by omega)
  have hfresh := hi.dst_ne hs hxm (by rw [hav]; decide)
  have hxy : x.index ≠ y.index := fun h => hfresh e' hem (by rw [← hyd, ← h])
  have hkeep : ∀ {a : BmtEntry}, a ∈ ctx.bmt.entries → a.src ≠ e'.src → a.dst.toNat ≠ y.index := by
    intro a ha hne hd
    exact hne (by rw [List.inj_on_of_nodup_map hi.dst_nodup ha hem (UInt16.toNat_inj.mp (hd.trans hyd))])
  have hmid : Ctx.Shaped (Ctx.setStatus { ctx with bmt := ctx.bmt.assign block x.index, bmtDirty := d } i .mapped) :=
    shaped_of_index hs rfl rfl (map_index_setStatus _ i .mapped)
  have hy' : (Ctx.setStatus { ctx with bmt := ctx.bmt.assign block x.index, bmtDirty := d } i .mapped).rblocks[j]? = some y := by
    have hij : i ≠ j := by
      rintro rfl
      rw [hx] at hy
      exact hxy (by rw [Option.some.inj hy])
    rw [Ctx.setStatus, List.getElem?_modify_ne _ _ hij]
    exact hy
  refine ⟨shaped_of_index hmid rfl rfl (map_index_setStatus _ j .needErase), ⟨?_, ?_, ?_, ?_⟩, ?_, rfl, rfl, rfl, rfl⟩
  · change ((ctx.bmt.assign block x.index).entries.map BmtEntry.src).Nodup
    have hmap : (ctx.bmt.assign block x.index).entries.map BmtEntry.src = ctx.bmt.entries.map BmtEntry.src := by
      rw [hent]
      apply List.ext_getElem?
      intro n
      rw [List.getElem?_map, List.getElem?_map, List.getElem?_modify]
      rcases ctx.bmt.entries[n]? with _ | a
      · rfl
      · by_cases hkn : k = n
        · simp [hkn]
        · simp [hkn]
    rw [hmap]
    exact hi.src_nodup
  · change ∀ a ∈ (ctx.bmt.assign block x.index).entries, a.src.toNat < ctx.reserveAreaBegin
    rw [hent]
    intro a ha
    rcases mem_modify_entries he hi.src_nodup ha with rfl | ⟨ha, -⟩
    · exact hi.src_user e' hem
    · exact hi.src_user a ha
  · change ((ctx.bmt.assign block x.index).entries.map BmtEntry.dst).Nodup
    have hlt := (List.getElem?_eq_some_iff.mp he).1
    have hmap : (ctx.bmt.assign block x.index).entries.map BmtEntry.dst = (ctx.bmt.entries.map BmtEntry.dst).set k (.ofNat x.index) := by
      rw [hent]
      apply List.ext_getElem?
      intro n
      rw [List.getElem?_map, List.getElem?_modify, List.getElem?_set, List.length_map, List.getElem?_map]
      by_cases hkn : k = n
      · subst hkn
        simp [hlt]
      · simp [hkn]
    rw [hmap]
    refine hi.dst_nodup.set fun hm => ?_
    obtain ⟨a, ha, had⟩ := List.mem_map.mp hm
    exact hfresh a ha (by rw [had, hdst])
  · change ∀ a ∈ (ctx.bmt.assign block x.index).entries, _
    rw [hent]
    intro a ha
    rcases mem_modify_entries he hi.src_nodup ha with rfl | ⟨ha, hne⟩
    · refine mem_setStatus_of_ne hy' ?_ ?_
      · change (⟨(UInt16.ofNat x.index).toNat, .mapped⟩ : BlockInfo) ∈ _
        rw [hdst]
        exact mem_setStatus_self hx
      · change (UInt16.ofNat x.index).toNat ≠ y.index
        rw [hdst]
        exact hxy
    · exact mem_setStatus_of_ne hy' (mem_setStatus_of_ne hx (hi.dst_mapped a ha) (hfresh a ha)) (hkeep ha hne)
  · intro a ha
    change a ∈ (ctx.bmt.assign block x.index).entries ↔ _
    rw [hent]
    constructor
    · intro hm
      rcases mem_modify_entries he hi.src_nodup hm with rfl | ⟨hm, -⟩
      · exact absurd hsrc ha
      · exact hm
    · exact fun hm => mem_modify_of_ne he hm fun h => ha (by rw [h, hsrc])

/-- A mapping is removed, and its place is to be erased. -/
theorem moves_remove (hs : ctx.Shaped) (hi : ctx.Inv) {k : Nat} (hsome : ctx.bmt.indexOf block = some k) (he : ctx.bmt.entries[k]? = some e)
    (hy : ctx.rblocks[j]? = some y) (hyd : y.index = e.dst.toNat) (d : Int8) :
    Moves ctx (Ctx.setStatus { ctx with bmt := ctx.bmt.remove k, bmtDirty := d } j .needErase) block := by
  obtain ⟨e', he', hsrc⟩ := indexOf_eq_some hsome
  obtain rfl : e' = e := Option.some.inj (he'.symm.trans he)
  have hem := List.mem_of_getElem? he
  obtain ⟨hlt, hget⟩ := List.getElem?_eq_some_iff.mp he
  have hperm := @entries_remove ctx.bmt k (by rw [← length_entries]; exact hlt)
  have hcons : (e' :: ctx.bmt.entries.eraseIdx k).Perm ctx.bmt.entries := by
    rw [← hget]
    exact List.getElem_cons_eraseIdx_perm hlt
  have hnd := (hcons.map BmtEntry.src).nodup_iff.mpr hi.src_nodup
  have hnd' := (hcons.map BmtEntry.dst).nodup_iff.mpr hi.dst_nodup
  rw [List.map_cons, List.nodup_cons] at hnd hnd'
  have hmem : ∀ {a : BmtEntry}, a ∈ (ctx.bmt.remove k).entries → a ∈ ctx.bmt.entries ∧ a.dst ≠ e'.dst := by
    intro a ha
    have ha' := hperm.mem_iff.mp ha
    exact ⟨hcons.mem_iff.mp (List.mem_cons_of_mem _ ha'), fun h => hnd'.1 (List.mem_map.mpr ⟨a, ha', h⟩)⟩
  refine ⟨shaped_of_index hs rfl rfl (map_index_setStatus _ j .needErase), ⟨?_, ?_, ?_, ?_⟩, ?_, rfl, rfl, rfl, rfl⟩
  · exact (hperm.map BmtEntry.src).nodup_iff.mpr hnd.2
  · exact fun a ha => hi.src_user a (hmem ha).1
  · exact (hperm.map BmtEntry.dst).nodup_iff.mpr hnd'.2
  · intro a ha
    obtain ⟨ha, hne⟩ := hmem ha
    refine mem_setStatus_of_ne hy (hi.dst_mapped a ha) fun h => hne ?_
    exact UInt16.toNat_inj.mp (h.trans hyd)
  · intro a ha
    refine ⟨fun h => (hmem h).1, fun h => hperm.mem_iff.mpr ?_⟩
    rcases List.mem_cons.mp (hcons.mem_iff.mpr h) with rfl | h
    · exact absurd hsrc ha
    · exact h

end

end

end RainWrt.En75
