import RainWrt.Theorems.En75.Survive

/-! A power loss while a block is remapped, on a chip on which nothing fails. The operations of a remap
    come in a fixed order, so the points at which it can be cut off are the initial segments of one
    sequence. -/

namespace RainWrt.En75

def eraseEvent (b : Nat) : Proc.Event Op Answer := ⟨.erase b, (0 : Int)⟩

def programEvent (b page : Nat) (data oob : Bytes) : Proc.Event Op Answer := ⟨.program b page data oob, (0 : Int)⟩

section
variable {np : DeviceNode} {c : Chip} {ctx ctx' : Ctx} {t : Trace} {ret : Int}

theorem blockIndexIsSane_reserve {b : Nat} (h1 : ctx.reserveAreaBegin ≤ b) (h2 : b < ctx.totalBlks) : ctx.blockIndexIsSane b false = true := by
  unfold Ctx.blockIndexIsSane
  rw [if_neg (by omega), if_neg (by simp), if_neg (by simpa using h1)]

theorem blockIndexIsSane_user {b : Nat} (h1 : b < ctx.reserveAreaBegin) (h2 : ctx.reserveAreaBegin < ctx.totalBlks) : ctx.blockIndexIsSane b true = true := by
  unfold Ctx.blockIndexIsSane
  rw [if_neg (by omega), if_neg (by simpa using h1), if_neg (by simp)]

/-! ### The copy -/

/-- The operations of a copy, and what it leaves. -/
structure Copied (c : Chip) (ctx : Ctx) (x b : Nat) (len : Int) (t : Trace) : Prop where
  ops : ∀ e ∈ t, (∃ p, e.1 = .read b p) ∨ ∃ p d, e.1 = .program x p d []
  data : ∀ p < ctx.blkPages, ((p * ctx.pgSize : Nat) : Int) < len → (c.run t x p).data = overlay (c x p).data (c.peek ctx.pgSize b p).1

theorem copyPages_faultless {x b : Nat} {len : Int} (hxb : b ≠ x) {pages page : Nat} (h : Proc.Runs (copyPages ctx x b len page pages) t ret)
    (hf : c.Faultless ctx.pgSize t) : ret = 0 ∧ (∀ e ∈ t, (∃ p, e.1 = .read b p) ∨ ∃ p d, e.1 = .program x p d []) ∧
      (∀ p < page, c.run t x p = c x p) ∧
      ∀ p, page ≤ p → p < page + pages → ((p * ctx.pgSize : Nat) : Int) < len → (c.run t x p).data = overlay (c x p).data (c.peek ctx.pgSize b p).1 := by
  induction pages generalizing page t c with
  | zero =>
    obtain ⟨rfl, rfl⟩ := Proc.runs_pure.mp h
    exact ⟨rfl, by simp, fun _ _ => rfl, fun p h1 h2 => absurd h2 (by omega)⟩
  | succ pages ih =>
    unfold copyPages at h
    split at h
    · rename_i hend
      obtain ⟨rfl, rfl⟩ := Proc.runs_pure.mp h
      refine ⟨rfl, by simp, fun _ _ => rfl, fun p h1 _ h3 => ?_⟩
      have : page * ctx.pgSize ≤ p * ctx.pgSize := Nat.mul_le_mul_right _ h1
      omega
    · obtain ⟨t₁, t₂, r, rfl, h1, k⟩ := Proc.runs_bind.mp h
      obtain rfl := Proc.runs_ask.mp h1
      obtain rfl : r = .ok (c.peek ctx.pgSize b page) := hf.1
      obtain ⟨t₃, t₄, w, rfl, h3, k'⟩ := Proc.runs_bind.mp k
      have hf' := (Chip.faultless_append.mp (show c.Faultless ctx.pgSize (t₃ ++ t₄) from hf.2))
      obtain ⟨rfl, rfl⟩ := program_faultless h3 hf'.1
      rw [if_neg (by simp)] at k'
      obtain ⟨hret, hops, hbelow, hdata⟩ := ih k' hf'.2
      have hrun : ∀ p, (c.run (⟨.read b page, .ok (c.peek ctx.pgSize b page)⟩ :: ([⟨.program x page (c.peek ctx.pgSize b page).1 [], (0 : Int)⟩] ++ t₄))) x p =
          ((c.program x page (c.peek ctx.pgSize b page).1 []).run t₄) x p := fun p => rfl
      refine ⟨hret, fun e he => ?_, fun p hp => ?_, fun p h1 h2 h3 => ?_⟩
      · rcases List.mem_append.mp he with he | he
        · rw [List.mem_singleton.mp he]
          exact .inl ⟨page, rfl⟩
        · rcases List.mem_cons.mp he with rfl | he
          · exact .inr ⟨_, _, rfl⟩
          · exact hops e he
      · refine (hrun p).trans ((hbelow p (by omega)).trans ?_)
        exact if_neg fun hp' => by omega
      · refine (congrArg PageBytes.data (hrun p)).trans ?_
        rcases Nat.lt_or_ge page p with hp | hp
        · refine (hdata p hp (by omega) h3).trans ?_
          have h4 : (c.program x page (c.peek ctx.pgSize b page).1 []) x p = c x p := if_neg fun hp' => by omega
          have h5 : (c.program x page (c.peek ctx.pgSize b page).1 []).peek ctx.pgSize b p = c.peek ctx.pgSize b p := by
            unfold Chip.peek
            rw [Chip.program_of_ne hxb]
          change overlay ((c.program x page (c.peek ctx.pgSize b page).1 []) x p).data ((c.program x page (c.peek ctx.pgSize b page).1 []).peek ctx.pgSize b p).1 = _
          rw [h4, h5]
        · obtain rfl : p = page := by omega
          refine (congrArg PageBytes.data (hbelow p (by omega))).trans ?_
          exact congrArg PageBytes.data (if_pos ⟨rfl, rfl⟩)

theorem copyBlock_faultless {x b : Nat} {len : Int} (hxb : b ≠ x) (h : Proc.Runs (copyBlock ctx x b len) t ret) (hf : c.Faultless ctx.pgSize t) :
    Copied c ctx x b (if len = 0 then 0 else len) t := by
  unfold copyBlock at h
  split at h
  · rename_i h0
    obtain ⟨rfl, -⟩ := Proc.runs_pure.mp h
    rw [if_pos h0]
    exact ⟨by simp, fun p _ hp => by omega⟩
  · rename_i h0
    rw [if_neg h0]
    obtain ⟨h1, -⟩ := retry_faultless (by decide) (fun t r hr hf => (copyPages_faultless hxb hr hf).1) h hf
    obtain ⟨-, hops, -, hdata⟩ := copyPages_faultless hxb h1 hf
    exact ⟨hops, fun p hp => hdata p (Nat.zero_le p) (by omega)⟩

/-! ### The remap -/

/-- The mark beside the replacement. -/
def markBytes (block : Nat) : Bytes := [0xff, 0xff] ++ be16 (.ofNat block)

def wornBytes : Bytes := [blockWornMark, 0xff, 0xff, 0xff]

/-- The state after `w_remap_block`. -/
def Ctx.remapped (ctx : Ctx) (block i x : Nat) : Ctx :=
  Ctx.setStatus { ctx with bmt := ctx.bmt.assign block x, bmtDirty := ctx.bmtDirty + 1 } i .mapped

theorem wRemapBlock_faultless {block i : Nat} {x : BlockInfo} {len : Int} {maybe : Option Nat} (hs : ctx.Shaped) (hr : ctx.reserveAreaBegin < ctx.totalBlks)
    (hb : block < ctx.reserveAreaBegin) (hsize : ctx.bmt.size ≠ 0xff) (hi : ctx.findAvailableBlock false = some i) (hx : ctx.rblocks[i]? = some x)
    (hfrom : ∀ m, maybe = some m → ctx.rblockIndex m ≠ x.index)
    (h : Proc.Runs (wRemapBlock ctx block maybe len) t (ctx', ret)) (hf : c.Faultless ctx.pgSize t) :
    ∃ tc, t = programEvent x.index 0 [] (markBytes block) :: (tc ++ [programEvent block 0 [] wornBytes]) ∧
      Copied (c.program x.index 0 [] (markBytes block)) ctx x.index ((maybe.map ctx.rblockIndex).getD block) len tc ∧ ret = 0 ∧
      ctx' = (ctx.remapped block i x.index).release maybe := by
  obtain ⟨hx1, hx2⟩ := hs.area x (List.mem_of_getElem? hx)
  unfold wRemapBlock at h
  rw [if_neg hsize, hi] at h
  dsimp only at h
  rw [rblockIndex_eq hx] at h
  obtain ⟨t₁, u₁, r₁, rfl, h1, k₁⟩ := Proc.runs_bind.mp h
  obtain ⟨hf₁, hf₁'⟩ := Chip.faultless_append.mp hf
  unfold wMakeMapping at h1
  rw [if_neg (by omega), if_neg (by simp)] at h1
  obtain ⟨rfl, rfl⟩ := wWrite_faultless (blockIndexIsSane_reserve hx1 hx2) h1 hf₁
  rw [if_neg (by simp)] at k₁
  obtain ⟨tc, u₂, r₂, rfl, h2, k₂⟩ := Proc.runs_bind.mp k₁
  obtain ⟨hf₂, hf₂'⟩ := Chip.faultless_append.mp hf₁'
  have hne : (maybe.map ctx.rblockIndex).getD block ≠ x.index := by
    rcases maybe with _ | m
    · exact fun h0 => absurd h0 (show block ≠ x.index by omega)
    · exact hfrom m rfl
  have hcopy := copyBlock_faultless hne h2 hf₂
  have hlen : (if len = 0 then 0 else len) = len := by
    split
    · rename_i h0
      exact h0.symm
    · rfl
  rw [hlen] at hcopy
  obtain ⟨t₃, u₃, r₃, rfl, h3, k₃⟩ := Proc.runs_bind.mp k₂
  obtain ⟨hf₃, -⟩ := Chip.faultless_append.mp hf₂'
  obtain ⟨rfl, rfl⟩ := wWrite_faultless (blockIndexIsSane_user hb hr) h3 hf₃
  rw [rblockIndex_eq hx] at k₃
  obtain ⟨rfl, h0⟩ := Proc.runs_pure.mp k₃
  cases h0
  exact ⟨tc, by simp [programEvent, markBytes, wornBytes], hcopy, rfl, rfl⟩

/-! ### The tables -/

theorem erasePendings_faultless {l l' : List BlockInfo} (hl : ∀ rb ∈ l, ctx.blockIndexIsSane rb.index false = true)
    (h : Proc.Runs (erasePendings ctx l) t l') (hf : c.Faultless ctx.pgSize t) :
    t = (l.filter (·.status = .needErase)).map fun rb => eraseEvent rb.index := by
  induction l generalizing l' t c with
  | nil => exact (Proc.runs_pure.mp h).1
  | cons rb l ih =>
    obtain ⟨t₁, t₂, rb₁, rfl, h1, k⟩ := Proc.runs_bind.mp h
    obtain ⟨t₃, t₄, l₁, rfl, h2, k'⟩ := Proc.runs_bind.mp k
    obtain ⟨rfl, rfl⟩ := Proc.runs_pure.mp k'
    obtain ⟨hf₁, hf₂⟩ := Chip.faultless_append.mp hf
    rw [List.append_nil] at hf₂ ⊢
    rw [ih (fun rb hm => hl rb (List.mem_cons_of_mem _ hm)) h2 hf₂]
    unfold erasePending at h1
    by_cases hst : rb.status = .needErase
    · rw [if_neg (by simp [hst])] at h1
      obtain ⟨t₅, t₆, r, rfl, h5, k₅⟩ := Proc.runs_bind.mp h1
      obtain ⟨hf₅, -⟩ := Chip.faultless_append.mp hf₁
      obtain ⟨rfl, rfl⟩ := wEraseOne_faultless (hl rb List.mem_cons_self) h5 hf₅
      rw [if_pos rfl] at k₅
      obtain ⟨rfl, -⟩ := Proc.runs_pure.mp k₅
      rw [List.filter_cons_of_pos (by simp [hst])]
      rfl
    · rw [if_pos (by simpa using hst)] at h1
      obtain ⟨rfl, -⟩ := Proc.runs_pure.mp h1
      rw [List.filter_cons_of_neg (by simp [hst])]
      rfl

theorem wErasePending_faultless (hs : ctx.Shaped) (h : Proc.Runs (wErasePending ctx) t ctx') (hf : c.Faultless ctx.pgSize t) :
    t = (ctx.rblocks.filter (·.status = .needErase)).map fun rb => eraseEvent rb.index := by
  obtain ⟨t₁, t₂, l, rfl, h1, k⟩ := Proc.runs_bind.mp h
  obtain ⟨rfl, -⟩ := Proc.runs_pure.mp k
  rw [List.append_nil] at hf ⊢
  refine erasePendings_faultless (fun rb hm => ?_) h1 hf
  obtain ⟨h1, h2⟩ := hs.area rb hm
  exact blockIndexIsSane_reserve h1 h2

/-- The table that `w_sync_tables` writes. -/
def Ctx.syncedBmt (ctx : Ctx) : BmtTable := (ctx.bmt.clearFrom ctx.reserveBlockCount).withChecksum

/-- Statuses that only say something else than `needErase` in both, and the same blocks. -/
theorem filter_index_congr {l l' : List BlockInfo} {p q : BlockInfo → Bool} (h : List.Forall₂ (fun x y => x.index = y.index ∧ p x = q y) l l') :
    (l.filter p).map BlockInfo.index = (l'.filter q).map BlockInfo.index := by
  induction h with
  | nil => rfl
  | @cons x y l l' hxy _ ih =>
    rw [List.filter_cons, List.filter_cons, hxy.2]
    split
    · rw [List.map_cons, List.map_cons, hxy.1, ih]
    · exact ih

theorem forall₂_of_getElem? {α β : Type} {R : α → β → Prop} {l : List α} {l' : List β} (hlen : l.length = l'.length)
    (h : ∀ (j : Nat) (x : α) (y : β), l[j]? = some x → l'[j]? = some y → R x y) : List.Forall₂ R l l' := by
  refine List.forall₂_iff_get.mpr ⟨hlen, fun j h1 h2 => h j _ _ ?_ ?_⟩
  · exact List.getElem?_eq_getElem h1
  · exact List.getElem?_eq_getElem h2

/-- The blocks with the old table are the ones that are erased behind the new one. -/
theorem needErase_newTable {n : Nat} {y : BlockInfo} (hp : ∀ rb ∈ ctx.rblocks, rb.status ≠ .needErase) (hy : ctx.rblocks[n]? = some y)
    (hav : y.status = .available) : ((ctx.newTable n .bmt).rblocks.filter (·.status = .needErase)).map BlockInfo.index =
      (ctx.rblocks.filter (·.status = .bmt)).map BlockInfo.index := by
  refine filter_index_congr (forall₂_of_getElem? ?_ fun j x z hx hz => ?_)
  · simp [Ctx.newTable, Ctx.setStatus, Ctx.markForErasure]
  · have hz' := hp z (List.mem_of_getElem? hz)
    simp only [Ctx.newTable, Ctx.setStatus, Ctx.markForErasure, List.getElem?_modify, List.getElem?_map, hz, Option.map_some] at hx
    by_cases hn : n = j
    · subst hn
      rw [hy] at hz
      obtain rfl := Option.some.inj hz
      simp [hav] at hx
      simp [← hx, hav]
    · simp [hn] at hx
      by_cases hb : z.status = .bmt
      · rw [if_pos hb] at hx
        simp [← hx, hb]
      · rw [if_neg hb] at hx
        simp [← hx, hb, hz']

/-- The first part of `w_sync_tables` is over: what is pending has been erased. -/
theorem wSyncTables_faultless (hs : ctx.Shaped) (hp : ∀ rb ∈ ctx.rblocks, rb.status ≠ .needErase) (hf : ctx.Fits) (hbmt : ctx.bmtDirty ≠ 0)
    (hbbt : ctx.bbtDirty = 0) (h : Proc.Runs (wSyncTables ctx) t (ctx', ret)) (hfl : c.Faultless ctx.pgSize t) :
    t = [] ∨ ∃ (n : Nat) (y : BlockInfo), ctx.rblocks[n]? = some y ∧ y.status = .available ∧
      t = programEvent y.index 0 ctx.syncedBmt.bytes [] :: (ctx.rblocks.filter (·.status = .bmt)).map fun rb => eraseEvent rb.index := by
  obtain ⟨t₁, u₁, ctx₁, rfl, h1, k₁⟩ := Proc.runs_bind.mp h
  obtain ⟨rfl, rfl⟩ := wErasePending_idle hp h1
  obtain ⟨t₂, u₂, ⟨ctx₂, ret₂⟩, rfl, h2, k₂⟩ := Proc.runs_bind.mp k₁
  rw [List.nil_append] at hfl ⊢
  obtain ⟨hf₂, hf₂'⟩ := Chip.faultless_append.mp hfl
  unfold syncBmt at h2
  rw [if_neg hbmt] at h2
  obtain ⟨t₃, u₃, ctx₃, rfl, h3, k₃⟩ := Proc.runs_bind.mp h2
  unfold clearBmt at h3
  dsimp only at h3
  rw [if_pos (show ctx₁.reserveBlockCount ≤ maxBmtSize from hf)] at h3
  obtain ⟨rfl, rfl⟩ := Proc.runs_pure.mp h3
  obtain ⟨t₄, u₄, ⟨ctx₄, res⟩, rfl, h4, k₄⟩ := Proc.runs_bind.mp k₃
  rw [List.nil_append] at hf₂ ⊢
  obtain ⟨hf₄, -⟩ := Chip.faultless_append.mp hf₂
  unfold wUpdateTable updateTableTries updateTable at h4
  split at h4
  · obtain ⟨rfl, h0⟩ := Proc.runs_pure.mp h4
    cases h0
    obtain ⟨rfl, h0⟩ := Proc.runs_pure.mp k₄
    cases h0
    dsimp only at k₂
    rw [if_pos (by decide)] at k₂
    obtain ⟨rfl, -⟩ := Proc.runs_pure.mp k₂
    exact .inl rfl
  · rename_i n hn
    obtain ⟨y, hy₀, hav⟩ := findAvailableBlock_eq_some hn
    have hy : ctx₁.rblocks[n]? = some y := hy₀
    obtain ⟨t₅, u₅, r₅, rfl, h5, k₅⟩ := Proc.runs_bind.mp h4
    obtain ⟨hf₅, -⟩ := Chip.faultless_append.mp hf₄
    rw [rblockIndex_eq hy₀] at h5
    obtain ⟨hy1, hy2⟩ := hs.area y (List.mem_of_getElem? hy)
    obtain ⟨rfl, rfl⟩ := wWrite_faultless (blockIndexIsSane_reserve hy1 hy2) h5 hf₅
    rw [if_pos rfl] at k₅
    obtain ⟨rfl, h0⟩ := Proc.runs_pure.mp k₅
    cases h0
    obtain ⟨rfl, h0⟩ := Proc.runs_pure.mp k₄
    cases h0
    refine .inr ⟨n, y, hy, hav, ?_⟩
    dsimp only at k₂
    rw [if_neg (by simp)] at k₂
    obtain ⟨t₆, u₆, ⟨ctx₆, ret₆⟩, rfl, h6, k₆⟩ := Proc.runs_bind.mp k₂
    unfold syncBbt at h6
    rw [if_pos (.inl hbbt)] at h6
    obtain ⟨rfl, h0⟩ := Proc.runs_pure.mp h6
    cases h0
    dsimp only at k₆
    rw [if_neg (by simp)] at k₆
    obtain ⟨t₇, u₇, ctx₇, rfl, h7, k₇⟩ := Proc.runs_bind.mp k₆
    obtain ⟨rfl, -⟩ := Proc.runs_pure.mp k₇
    have hshape : Ctx.Shaped { Ctx.newTable { ctx₁ with bmt := (ctx₁.bmt.clearFrom ctx₁.reserveBlockCount).withChecksum } n .bmt with bmtDirty := 0 } := by
      have hq : Quiet ctx₁ (ctx₁.newTable n .bmt) := quiet_newTable hs hy hav (by decide)
      exact shaped_of_index hs rfl rfl hq.index
    obtain ⟨-, hf₆⟩ := Chip.faultless_append.mp hf₂'
    obtain ⟨hf₇, -⟩ := Chip.faultless_append.mp hf₆
    have h7' := wErasePending_faultless hshape h7 hf₇
    have hmap : t₇ = (((ctx₁.newTable n .bmt).rblocks.filter (·.status = .needErase)).map BlockInfo.index).map eraseEvent := by
      rw [h7', List.map_map]
      rfl
    rw [needErase_newTable hp hy hav, List.map_map] at hmap
    rw [hmap]
    simp only [List.nil_append, List.append_nil]
    rfl

end

end RainWrt.En75
