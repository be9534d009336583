import RainWrt.Theorems.En75.PowerLoss

/-! Power losses during a remap, on a chip on which nothing fails: a block that is remapped for the first
    time is safe at every point, a block that already was remapped is lost if the power goes off behind
    the first erasure. -/

namespace RainWrt.En75

section
variable {np : DeviceNode} {c : Chip} {ctx : Ctx} {t : Trace} {u m block : Nat} {len : Int}

theorem lt_reserve_of_userBlocks (hu : u < ctx.userBlocks) : u < ctx.reserveAreaBegin := by
  unfold Ctx.userBlocks at hu
  omega

/-- A call that is refused does nothing. -/
theorem runs_refused {r : Ctx × Bool} (h : Consistent np c ctx) (hno : ¬Proceeds ctx u) (hr : Proc.Runs (pubRemapBlock ctx u m len) t r) : t = [] := by
  unfold pubRemapBlock at hr
  by_cases hrange : ctx.canRemapRanges.any (fun r => r.1 ≤ u && u < r.2) = true
  · rw [if_neg (by simp [hrange])] at hr
    dsimp only at hr
    split at hr
    · exact (Proc.runs_pure.mp hr).1
    · split at hr
      · exact (Proc.runs_pure.mp hr).1
      · obtain ⟨t₁, t₂, ⟨ctx₁, ret₁⟩, rfl, h1, k₁⟩ := Proc.runs_bind.mp hr
        have hidle : t₁ = [] ∧ ctx₁ = ctx := by
          unfold wRemapBlock at h1
          split at h1
          · obtain ⟨rfl, h0⟩ := Proc.runs_pure.mp h1
            cases h0
            exact ⟨rfl, rfl⟩
          · rename_i hroom
            split at h1
            · obtain ⟨rfl, h0⟩ := Proc.runs_pure.mp h1
              cases h0
              exact ⟨rfl, rfl⟩
            · rename_i i hi
              exact absurd ⟨hrange, hroom, by rw [hi]; simp⟩ hno
        obtain ⟨rfl, rfl⟩ := hidle
        obtain ⟨t₃, t₄, ⟨ctx₂, ret₂⟩, rfl, h2, k₂⟩ := Proc.runs_bind.mp k₁
        obtain ⟨rfl, -⟩ := wSyncTables_idle h.pending h.fields.bmtDirty h.fields.bbtDirty h2
        obtain ⟨rfl, -⟩ := Proc.runs_pure.mp k₂
        rfl
  · rw [if_pos (by simpa using hrange)] at hr
    exact (Proc.runs_pure.mp hr).1

/-- The operations of a remap: up to the mark of the worn block, and the tables. -/
structure Course (c : Chip) (ctx : Ctx) (block i : Nat) (x : BlockInfo) (maybe : Option Nat) (len : Int) (s t₂ : Trace) : Prop where
  copying : ∀ e ∈ s, Copying x.index block e
  copy : ∀ page < ctx.blkPages, ((page * ctx.pgSize : Nat) : Int) < len → ∀ k < ctx.pgSize,
    (c.run (programEvent x.index 0 [] (markBytes block) :: s) x.index page).data k = (c ((maybe.map ctx.rblockIndex).getD block) page).data k
  tables : ∃ r, Proc.Runs (wSyncTables ((ctx.remapped block i x.index).release maybe)) t₂ r

theorem copied_data {x : BlockInfo} {b : Nat} {tc : Trace} (h : Consistent np c ctx) (hx : x ∈ ctx.rblocks) (hav : x.status = .available) (hb : b ≠ x.index)
    (hcopy : Copied (c.program x.index 0 [] (markBytes block)) ctx x.index b len tc) {page : Nat} (hp : page < ctx.blkPages)
    (hlen : ((page * ctx.pgSize : Nat) : Int) < len) {k : Nat} (hk : k < ctx.pgSize) :
    ((c.program x.index 0 [] (markBytes block)).run tc x.index page).data k = (c b page).data k := by
  rw [hcopy.data page hp hlen]
  have hfree : (c.program x.index 0 [] (markBytes block) x.index page).data = fun _ => 0xff := by
    unfold Chip.program
    split
    · rw [h.free x hx hav page]
      exact Chip.overlay_nil _
    · rw [h.free x hx hav page]
      rfl
  have hpeek : (c.program x.index 0 [] (markBytes block)).peek ctx.pgSize b page = c.peek ctx.pgSize b page := by
    unfold Chip.peek
    rw [Chip.program_of_ne hb]
  rw [hfree, Chip.overlay_erased, hpeek]
  unfold Chip.peek
  rw [List.getD_eq_getElem _ _ (by simpa using hk), List.getElem_map, List.getElem_range]

/-- A call that is not refused, on the block where it is. -/
theorem exists_course (h : Consistent np c ctx) (hu : u < ctx.userBlocks) (hb : ctx.getMappingBlockBbt u = some block) (hm : ctx.getMappingBlock u = some m)
    (hgo : Proceeds ctx u) : ∃ i x maybe, ctx.rblocks[i]? = some x ∧ x.status = .available ∧ maybe.map ctx.rblockIndex = (if m = block then none else some m) ∧
      Current ctx block maybe ∧ ∃ s t₂ r, Proc.Runs (pubRemapBlock ctx u m len) (programEvent x.index 0 [] (markBytes block) :: s ++ t₂) r ∧
        c.Faultless ctx.pgSize (programEvent x.index 0 [] (markBytes block) :: s ++ t₂) ∧ Course c ctx block i x maybe len s t₂ := by
  obtain ⟨T, r, hrun, hfl⟩ := Chip.exists_faultless ctx (pubRemapBlock ctx u m len) c ctx.pgSize
  obtain ⟨i, hi⟩ := Option.ne_none_iff_exists'.mp hgo.free
  obtain ⟨x, hx, hav⟩ := findAvailableBlock_eq_some hi
  have hlt := (getMappingBlockBbt_eq_some.mp hb).2
  have hxm := List.mem_of_getElem? hx
  have hxr := (h.shaped.area x hxm).1
  obtain ⟨maybe, hmaybe, hidx, hcur⟩ : ∃ maybe, (if m ≠ block then ctx.rblocks.findIdx? (·.index = m) else none) = maybe ∧
      maybe.map ctx.rblockIndex = (if m = block then none else some m) ∧ Current ctx block maybe := by
    rcases current_of_mapping h.shaped h.inv hb hm with ⟨rfl, hc⟩ | ⟨hne, j, hj, hc⟩
    · exact ⟨none, if_neg (by simp), by rw [if_pos rfl]; rfl, hc⟩
    · obtain ⟨hjl, hp, -⟩ := List.findIdx?_eq_some_iff_getElem.mp hj
      refine ⟨some j, (if_pos hne).trans hj, ?_, hc⟩
      rw [if_neg hne, Option.map_some, rblockIndex_eq (List.getElem?_eq_getElem hjl)]
      simpa using hp
  have hfrom : (maybe.map ctx.rblockIndex).getD block ≠ x.index ∧ ∀ j, maybe = some j → ctx.rblockIndex j ≠ x.index := by
    rcases maybe with _ | j
    · refine ⟨?_, nofun⟩
      change block ≠ x.index
      omega
    · have hj : ctx.rblockIndex j ≠ x.index := by
        obtain ⟨k, e, y, -, he, hy, hye⟩ := hcur
        rw [rblockIndex_eq hy]
        intro heq
        have hd := h.inv.dst_mapped e (List.mem_of_getElem? he)
        have := h.shaped.eq hd hxm (by rw [← heq, hye])
        rw [← this] at hav
        cases hav
      refine ⟨hj, fun j' hj' => ?_⟩
      obtain rfl := Option.some.inj hj'
      exact hj
  have hwhole := hrun
  unfold pubRemapBlock at hrun
  rw [if_neg (by simp [hgo.range]), hb, Option.getD_some] at hrun
  dsimp only at hrun
  rw [if_neg (by have := lt_reserve_of_userBlocks hu; omega), hmaybe] at hrun
  have hfound : ¬(m ≠ block ∧ ctx.rblocks.findIdx? (·.index = m) = none) := by
    rintro ⟨hne, hnone⟩
    rw [if_pos hne, hnone] at hmaybe
    rw [← hmaybe, if_neg hne] at hidx
    cases hidx
  rw [if_neg hfound] at hrun
  obtain ⟨t₁, t₂, ⟨ctx₁, ret₁⟩, rfl, h1, k₁⟩ := Proc.runs_bind.mp hrun
  obtain ⟨hf₁, hf₂⟩ := Chip.faultless_append.mp hfl
  obtain ⟨tc, rfl, hcopy, rfl, rfl⟩ := wRemapBlock_faultless h.shaped h.reserve_lt hlt hgo.room hi hx hfrom.2 h1 hf₁
  obtain ⟨t₃, t₄, ⟨ctx₂, ret₂⟩, rfl, h2, k₂⟩ := Proc.runs_bind.mp k₁
  obtain ⟨rfl, -⟩ := Proc.runs_pure.mp k₂
  refine ⟨i, x, maybe, hx, hav, hidx, hcur, tc ++ [programEvent block 0 [] wornBytes], t₃, r, ?_, ?_, ?_, ?_, ⟨_, h2⟩⟩
  · rw [List.append_nil] at hwhole
    exact hwhole
  · rw [List.append_nil] at hfl
    exact hfl
  · intro e he
    rcases List.mem_append.mp he with he | he
    · rcases hcopy.ops e he with ⟨p, hp⟩ | hp
      · exact .inl ⟨_, p, hp⟩
      · exact .inr (.inl hp)
    · rw [List.mem_singleton.mp he]
      exact .inr (.inr rfl)
  · intro page hp hlen k hk
    change (((c.program x.index 0 [] (markBytes block)).run (tc ++ [programEvent block 0 [] wornBytes])) x.index page).data k = _
    rw [Chip.run_append]
    refine Eq.trans ?_ (copied_data h hxm hav hfrom.1 hcopy hp hlen hk)
    exact congrArg (fun q => PageBytes.data q k) (Chip.program_of_ne (by omega) page 0 [] wornBytes)

/-- The tables behind a first remap: nothing, or the new table and the erasure of the old ones. -/
theorem Course.tables_first {i : Nat} {x : BlockInfo} {s t₂ : Trace} (hc : Course c ctx block i x none len s t₂) (h : Consistent np c ctx) (hf : ctx.Fits)
    (hb : block < ctx.reserveAreaBegin) (hnone : ctx.bmt.indexOf block = none) (hfull : ctx.bmt.size ≠ 0xff) (hx : ctx.rblocks[i]? = some x)
    (hav : x.status = .available) {c₁ : Chip} (hfl : c₁.Faultless ctx.pgSize t₂) : t₂ = [] ∨ ∃ y ∈ ctx.rblocks, y.status = .available ∧ y.index ≠ x.index ∧
      t₂ = programEvent y.index 0 (ctx.remapped block i x.index).syncedBmt.bytes [] :: (ctx.area.filter fun b => ((c.found ctx.pgSize b).bmt?).isSome).map eraseEvent := by
  obtain ⟨⟨ctx', ret⟩, hr⟩ := hc.tables
  have hmoves : Moves ctx (ctx.remapped block i x.index) block := moves_add h.shaped h.inv hx hav hb hnone hfull (ctx.bmtDirty + 1)
  have hget : ∀ j, (ctx.remapped block i x.index).rblocks[j]? = if i = j then some ⟨x.index, .mapped⟩ else ctx.rblocks[j]? := by
    intro j
    change (ctx.rblocks.modify i fun b => { b with status := .mapped })[j]? = _
    rw [List.getElem?_modify]
    split
    · rename_i hij
      rw [← hij, hx]
      rfl
    · simp
  have hpending : ∀ rb ∈ (ctx.remapped block i x.index).rblocks, rb.status ≠ .needErase := by
    intro rb hm
    obtain ⟨j, hj⟩ := List.mem_iff_getElem?.mp hm
    rw [hget] at hj
    split at hj
    · rw [← Option.some.inj hj]
      exact nofun
    · exact h.pending rb (List.mem_of_getElem? hj)
  have hdirty : (ctx.remapped block i x.index).bmtDirty ≠ 0 := by
    change ctx.bmtDirty + 1 ≠ 0
    rw [h.fields.bmtDirty]
    decide
  have hbmts : ((ctx.remapped block i x.index).rblocks.filter (·.status = .bmt)).map BlockInfo.index = (ctx.rblocks.filter (·.status = .bmt)).map BlockInfo.index := by
    refine filter_index_congr (forall₂_of_getElem? ?_ fun j y z hy hz => ?_)
    · exact List.length_modify _ _ _
    · rw [hget] at hy
      split at hy
      · rename_i hij
        rw [← hij, hx] at hz
        obtain rfl := Option.some.inj hz
        rw [← Option.some.inj hy]
        simp [hav]
      · rw [hy] at hz
        rw [Option.some.inj hz]
        exact ⟨rfl, rfl⟩
  rcases wSyncTables_faultless hmoves.shaped hpending (hmoves.fits hf) hdirty h.fields.bbtDirty hr hfl with hnil | ⟨n, y, hy, hyav, ht⟩
  · exact .inl hnil
  · right
    rw [hget] at hy
    split at hy
    · rw [← Option.some.inj hy] at hyav
      cases hyav
    · rename_i hij
      have hym := List.mem_of_getElem? hy
      refine ⟨y, hym, hyav, fun hidx => hij ?_, ?_⟩
      · have heq := h.shaped.eq hym (List.mem_of_getElem? hx) hidx
        rw [heq] at hy
        exact (List.getElem?_inj (List.getElem?_eq_some_iff.mp hx).1 (List.Nodup.of_map _ h.shaped.distinct)).mp (hx.trans hy.symm)
      · rw [← h.bmt_blocks, ← hbmts, List.map_map]
        exact ht

/-- Where an initial segment of two parts ends. -/
theorem prefix_append_cases {α : Type} {t a b : List α} (h : t <+: a ++ b) : t <+: a ∨ ∃ s, t = a ++ s ∧ s <+: b := by
  rcases List.prefix_or_prefix_of_prefix h (List.prefix_append a b) with h1 | ⟨s, rfl⟩
  · exact .inl h1
  · exact .inr ⟨s, rfl, (List.prefix_append_right_inj a).mp h⟩

/-- Cut off before the new table is written. -/
theorem recovered_copying {i : Nat} {x : BlockInfo} {s t' : Trace} {ctx' : Ctx} {ret : Int} (h : Consistent np c ctx) (hf : ctx.Fits)
    (hb : ctx.getMappingBlockBbt u = some block) (hm : ctx.getMappingBlock u = some block) (hx : ctx.rblocks[i]? = some x) (hav : x.status = .available)
    (hs : ∀ e ∈ s, Copying x.index block e) (ht : t <+: programEvent x.index 0 [] (markBytes block) :: s)
    (hr : Proc.Runs (pubInit np ctx.totalBlks ctx.pgSize ctx.blkPages) t' (ctx', ret)) (hfl : (c.run t).Faultless ctx.pgSize t') :
    ret = 0 ∧ Recovered c ctx u block len (t ++ t') ctx' := by
  have hlt := (getMappingBlockBbt_eq_some.mp hb).2
  have hxm := List.mem_of_getElem? hx
  have hxr := (h.shaped.area x hxm).1
  rcases List.prefix_cons_iff.mp ht with rfl | ⟨s', rfl, hs'⟩
  · exact recovered_old h hf (fun b _ => .inl rfl) hm (by simp) (fun _ => rfl) hr hfl
  · have hcopying : ∀ e ∈ s', Copying x.index block e := fun e he => hs e (hs'.subset he)
    have hxa : (⟨x.index, .available⟩ : BlockInfo) ∈ ctx.rblocks := by rw [← hav]; exact hxm
    have hst := (h.mem_rblocks.mp hxa).2
    have hworn : ∀ e ∈ programEvent x.index 0 [] (markBytes block) :: s', e.1 ≠ .erase block ∧ ∀ p d o, e.1 = .program block p d o → d = [] := by
      intro e he
      rcases List.mem_cons.mp he with rfl | he
      · refine ⟨nofun, fun p d o hq => ?_⟩
        injection hq with _ _ h3 _
        exact h3.symm
      · exact (hcopying e he).worn (by omega)
    refine recovered_old h hf (fun b hb => ?_) hm (fun e he => (hworn e he).1) (fun page => run_data hworn page) hr hfl
    rw [found_copying h hxa hlt hcopying hb]
    split
    · rename_i hbx
      subst hbx
      exact .inr ⟨hst.symm, rfl⟩
    · exact .inl rfl

/-- Cut off behind the new table. -/
theorem Course.written {i : Nat} {x y : BlockInfo} {s t₂ : Trace} {gone : List Nat} (hc : Course c ctx block i x none len s t₂) (h : Consistent np c ctx)
    (hb : block < ctx.reserveAreaBegin) (hx : ctx.rblocks[i]? = some x) (hav : x.status = .available) (hy : y ∈ ctx.rblocks) (hyav : y.status = .available)
    (hxy : y.index ≠ x.index) (hgone : gone <+: ctx.area.filter fun b => ((c.found ctx.pgSize b).bmt?).isSome) :
    Written c ctx block i x len (programEvent x.index 0 [] (markBytes block) :: s ++
      programEvent y.index 0 (ctx.remapped block i x.index).syncedBmt.bytes [] :: gone.map eraseEvent) := by
  have hxm := List.mem_of_getElem? hx
  have hxr := h.shaped.area x hxm
  have hyr := h.shaped.area y hy
  have hxa : (⟨x.index, .available⟩ : BlockInfo) ∈ ctx.rblocks := by rw [← hav]; exact hxm
  have hya : (⟨y.index, .available⟩ : BlockInfo) ∈ ctx.rblocks := by rw [← hyav]; exact hy
  have hgst : ∀ g ∈ gone, g ∈ ctx.area ∧ (c.found ctx.pgSize g).status = .bmt := by
    intro g hg
    obtain ⟨harea, hsome⟩ := List.mem_filter.mp (hgone.subset hg)
    refine ⟨harea, ?_⟩
    by_contra hne
    rw [bmt?_of_status hne] at hsome
    cases hsome
  have hxg : x.index ∉ gone := fun hg => absurd ((h.mem_rblocks.mp hxa).2.trans (hgst _ hg).2) nofun
  have hbg : block ∉ gone := fun hg => by
    have := h.mem_area.mp (hgst _ hg).1
    omega
  have hheader := header_remapped ctx block i x.index
  refine ⟨⟨y.index, (h.mem_rblocks.mp hya).1, (h.mem_rblocks.mp hya).2.symm, hxy, gone, hgone, fun b hba => ?_⟩, fun e he => ?_, fun page => ?_, fun page hp hlen k hk => ?_⟩
  · exact found_writing h hxa hya hxy hb hc.copying (hheader.1.trans h.signature.1) rfl (fun g hg => (hgst g hg).2) hba
  · rcases List.mem_append.mp he with he | he
    · rcases List.mem_cons.mp he with rfl | he
      · exact ⟨nofun, nofun⟩
      · exact ⟨((hc.copying e he).worn (by omega)).1, ((hc.copying e he).replacement (by omega)).1⟩
    · rcases List.mem_cons.mp he with rfl | he
      · exact ⟨nofun, nofun⟩
      · obtain ⟨g, hg, rfl⟩ := List.mem_map.mp he
        refine ⟨fun hq => hbg ?_, fun hq => hxg ?_⟩
        · injection hq with hq
          exact hq ▸ hg
        · injection hq with hq
          exact hq ▸ hg
  · refine run_data (fun e he => ?_) page
    rcases List.mem_append.mp he with he | he
    · rcases List.mem_cons.mp he with rfl | he
      · refine ⟨nofun, fun p d o hq => ?_⟩
        injection hq with _ _ h3 _
        exact h3.symm
      · exact (hc.copying e he).worn (by omega)
    · rcases List.mem_cons.mp he with rfl | he
      · refine ⟨nofun, fun p d o hq => absurd ?_ (show y.index ≠ block by omega)⟩
        injection hq with h1
      · obtain ⟨g, hg, rfl⟩ := List.mem_map.mp he
        refine ⟨fun hq => hbg ?_, fun _ _ _ => nofun⟩
        injection hq with hq
        exact hq ▸ hg
  · rw [Chip.run_append]
    refine Eq.trans ?_ (hc.copy page hp hlen k hk)
    refine congrArg (fun q => PageBytes.data q k) (Chip.run_of_ne (fun e he => ?_) page)
    rcases List.mem_cons.mp he with rfl | he
    · refine ⟨nofun, fun p d o hq => hxy ?_⟩
      injection hq with h1
    · obtain ⟨g, hg, rfl⟩ := List.mem_map.mp he
      refine ⟨fun hq => hxg ?_, fun _ _ _ => nofun⟩
      injection hq with hq
      exact hq ▸ hg

theorem crashSafe_first (h : Consistent np c ctx) (hf : ctx.Fits) (hu : u < ctx.userBlocks) (hb : ctx.getMappingBlockBbt u = some block)
    (hm : ctx.getMappingBlock u = some block) (hgo : Proceeds ctx u) : CrashSafe np c ctx u block len := by
  intro t hsteps hfl t' ctx' ret hr hfl'
  obtain ⟨i, x, maybe, hx, hav, hmaybe, hcur, s, t₂, r, hrun, hfull, hcourse⟩ := @exists_course np c ctx u block block len h hu hb hm hgo
  rw [if_pos rfl] at hmaybe
  obtain rfl := Option.map_eq_none_iff.mp hmaybe
  have hlt := (getMappingBlockBbt_eq_some.mp hb).2
  have htables := hcourse.tables_first h hf hlt hcur hgo.room hx hav (Chip.faultless_append.mp hfull).2
  have hno : ∀ e ∈ programEvent x.index 0 [] (markBytes block) :: s ++ t₂, e.1 ≠ .overrun := by
    intro e he
    rcases List.mem_append.mp he with he | he
    · rcases List.mem_cons.mp he with rfl | he
      · exact nofun
      · rcases hcourse.copying e he with ⟨_, _, hq⟩ | ⟨_, _, hq⟩ | hq
        · rw [hq]
          exact nofun
        · rw [hq]
          exact nofun
        · rw [hq]
          exact nofun
    · rcases htables with rfl | ⟨y, -, -, -, rfl⟩
      · cases he
      · rcases List.mem_cons.mp he with rfl | he
        · exact nofun
        · obtain ⟨g, -, rfl⟩ := List.mem_map.mp he
          exact nofun
  rcases prefix_append_cases (Chip.prefix_of_steps hrun hfull hno hsteps hfl) with ht | ⟨w, rfl, hw⟩
  · exact recovered_copying h hf hb hm hx hav hcourse.copying ht hr hfl'
  · rcases htables with rfl | ⟨y, hy, hyav, hxy, rfl⟩
    · rw [List.prefix_nil.mp hw, List.append_nil] at hfl' ⊢
      exact recovered_copying h hf hb hm hx hav hcourse.copying List.prefix_rfl hr hfl'
    · rcases List.prefix_cons_iff.mp hw with rfl | ⟨w', rfl, hw'⟩
      · rw [List.append_nil] at hfl' ⊢
        exact recovered_copying h hf hb hm hx hav hcourse.copying List.prefix_rfl hr hfl'
      · obtain ⟨gone, hgone, rfl⟩ := List.prefix_map_iff.mp hw'
        exact (hcourse.written h hlt hx hav hy hyav hxy hgone).recovered h hf hb hcur hgo.room hx hav hr hfl'

/-! ### A block that already was remapped -/

/-- The place that a remapped block leaves is erased first. -/
theorem Course.tables_again {i j : Nat} {x : BlockInfo} {s t₂ : Trace} (hc : Course c ctx block i x (some j) len s t₂) (h : Consistent np c ctx)
    (hx : ctx.rblocks[i]? = some x) (hcur : Current ctx block (some j)) {c₁ : Chip} (hfl : c₁.Faultless ctx.pgSize t₂) :
    ∃ gone : List Nat, gone.map eraseEvent <+: t₂ ∧ ∀ b, b ∈ gone ↔ b = ctx.rblockIndex j := by
  obtain ⟨r, hr⟩ := hc.tables
  obtain ⟨t₃, t₄, ctx₁, rfl, h1, -⟩ := Proc.runs_bind.mp hr
  obtain ⟨k, e, y, -, -, hy, -⟩ := hcur
  have hmap : ((ctx.remapped block i x.index).release (some j)).rblocks.map BlockInfo.index = ctx.rblocks.map BlockInfo.index :=
    (map_index_setStatus _ j .needErase).trans (map_index_setStatus _ i .mapped)
  have hshaped : ((ctx.remapped block i x.index).release (some j)).Shaped := shaped_of_index h.shaped rfl rfl hmap
  have hget : ∀ k, ((ctx.remapped block i x.index).release (some j)).rblocks[k]? = if j = k then some ⟨y.index, .needErase⟩ else
      if i = k then some ⟨x.index, .mapped⟩ else ctx.rblocks[k]? := by
    intro k
    change ((ctx.rblocks.modify i fun b => { b with status := .mapped }).modify j fun b => { b with status := .needErase })[k]? = _
    rw [List.getElem?_modify, List.getElem?_modify]
    by_cases hjk : j = k
    · subst hjk
      rw [hy]
      by_cases hij : i = j
      · simp [hij]
      · simp [hij]
    · by_cases hik : i = k
      · subst hik
        rw [hx]
        simp [hjk]
      · simp [hjk, hik]
  refine ⟨(((ctx.remapped block i x.index).release (some j)).rblocks.filter (·.status = .needErase)).map BlockInfo.index, ?_, fun b => ?_⟩
  · rw [List.map_map, wErasePending_faultless hshaped h1 (Chip.faultless_append.mp hfl).1]
    exact List.prefix_append _ _
  · rw [rblockIndex_eq hy]
    constructor
    · intro hmem
      obtain ⟨rb, hrb, rfl⟩ := List.mem_map.mp hmem
      obtain ⟨hrb, hst⟩ := List.mem_filter.mp hrb
      obtain ⟨k, hk⟩ := List.mem_iff_getElem?.mp hrb
      rw [hget] at hk
      split at hk
      · rw [← Option.some.inj hk]
      · split at hk
        · rw [← Option.some.inj hk] at hst
          simp at hst
        · exact absurd (by simpa using hst) (h.pending rb (List.mem_of_getElem? hk))
    · rintro rfl
      refine List.mem_map.mpr ⟨⟨y.index, .needErase⟩, List.mem_filter.mpr ⟨List.mem_of_getElem? (i := j) ?_, by simp⟩, rfl⟩
      rw [hget, if_pos rfl]

theorem not_crashSafe_again (h : Consistent np c ctx) (hu : u < ctx.userBlocks) (hb : ctx.getMappingBlockBbt u = some block)
    (hm : ctx.getMappingBlock u = some m) (hne : m ≠ block) (hgo : Proceeds ctx u) : ¬CrashSafe np c ctx u m len := by
  intro hsafe
  obtain ⟨i, x, maybe, hx, hav, hmaybe, hcur, s, t₂, r, hrun, hfull, hcourse⟩ := @exists_course np c ctx u m block len h hu hb hm hgo
  rw [if_neg hne] at hmaybe
  obtain ⟨j, rfl, hj⟩ := Option.map_eq_some_iff.mp hmaybe
  obtain ⟨hf₁, hf₂⟩ := Chip.faultless_append.mp hfull
  obtain ⟨gone, hgone, hmem⟩ := hcourse.tables_again h hx hcur hf₂
  rw [hj] at hmem
  -- the power goes off as soon as the old place is erased
  have hcut : programEvent x.index 0 [] (markBytes block) :: s ++ gone.map eraseEvent <+: programEvent x.index 0 [] (markBytes block) :: s ++ t₂ :=
    (List.prefix_append_right_inj _).mpr hgone
  have hfcut : c.Faultless ctx.pgSize (programEvent x.index 0 [] (markBytes block) :: s ++ gone.map eraseEvent) := by
    obtain ⟨rest, hrest⟩ := hcut
    rw [← hrest] at hfull
    exact (Chip.faultless_append.mp hfull).1
  obtain ⟨t', ⟨ctx', ret⟩, hr, hfl'⟩ := Chip.exists_faultless ctx (pubInit np ctx.totalBlks ctx.pgSize ctx.blkPages)
    (c.run (programEvent x.index 0 [] (markBytes block) :: s ++ gone.map eraseEvent)) ctx.pgSize
  have hrec := (hsafe _ (hrun.steps_of_prefix hcut) hfcut t' ctx' ret hr hfl').2
  have hlt := (getMappingBlockBbt_eq_some.mp hb).2
  have hxm := List.mem_of_getElem? hx
  have hxa : (⟨x.index, .available⟩ : BlockInfo) ∈ ctx.rblocks := by rw [← hav]; exact hxm
  obtain ⟨k, e, y, hk, he, hy, hye⟩ := hcur
  have hym : y.index = m := by rw [← hj, rblockIndex_eq hy]
  have hmapped : (⟨m, .mapped⟩ : BlockInfo) ∈ ctx.rblocks := by
    rw [← hym, hye]
    exact h.inv.dst_mapped e (List.mem_of_getElem? he)
  have hfound : ∀ b ∈ ctx.area, (c.run (programEvent x.index 0 [] (markBytes block) :: s ++ gone.map eraseEvent)).found ctx.pgSize b =
      if b = m then .available else if b = x.index then .mapped else c.found ctx.pgSize b := by
    intro b hba
    rw [Chip.run_append, ← found_copying h hxa hlt hcourse.copying hba]
    split
    · rename_i hbm
      refine found_erased ?_
      rw [run_erases, if_pos ((hmem b).mpr hbm)]
    · rename_i hbm
      refine found_congr ?_
      rw [run_erases, if_neg fun hb => hbm ((hmem b).mp hb)]
  have hstx := (h.mem_rblocks.mp hxa).2.symm
  have hstm := (h.mem_rblocks.mp hmapped).2.symm
  have hs : Survives c (c.run (programEvent x.index 0 [] (markBytes block) :: s ++ gone.map eraseEvent)) ctx ctx.bmt := by
    refine survives_of_neutral h (fun b hba => ?_) ?_ h.version
    · rw [hfound b hba]
      split
      · rename_i hbm
        exact .inr ⟨neutral_of_status (.inr (.inl (by rw [hbm]; exact hstm))), neutral_of_status (.inl rfl)⟩
      · split
        · rename_i hbx
          exact .inr ⟨neutral_of_status (.inl (by rw [hbx]; exact hstx)), neutral_of_status (.inr (.inl rfl))⟩
        · exact .inl rfl
    · rw [h.fields.bmt]
      refine lastSome_congr fun b hba => ?_
      rw [hfound b hba]
      split
      · rename_i hbm
        rw [hbm, bmt?_of_status (f := c.found ctx.pgSize m) (by rw [hstm]; exact nofun)]
        rfl
      · split
        · rename_i hbx
          rw [hbx, bmt?_of_status (f := c.found ctx.pgSize x.index) (by rw [hstx]; exact nofun)]
          rfl
        · rfl
  obtain ⟨hctx', -, -⟩ := hs.pubInit h hr hfl'
  obtain ⟨p, hp, herase, -⟩ := hrec.place
  rw [hctx', getMappingBlock_reloaded rfl rfl rfl, hm] at hp
  obtain rfl := Option.some.inj hp
  refine herase (eraseEvent m) ?_ rfl
  exact List.mem_append_left _ (List.mem_append_right _ (List.mem_map.mpr ⟨m, (hmem m).mpr rfl, rfl⟩))

/-- A power loss during a remap does no harm exactly if the block is remapped for the first time or the call
    is refused. -/
theorem crashSafe_iff (h : Consistent np c ctx) (hf : ctx.reserveBlockCount ≤ maxBmtSize) (hu : u < ctx.userBlocks) (hm : ctx.getMappingBlock u = some m) :
    CrashSafe np c ctx u m len ↔ ctx.getMappingBlockBbt u = some m ∨ ¬Proceeds ctx u := by
  obtain ⟨block, hb⟩ := getMappingBlockBbt_isSome hu
  rw [hb]
  constructor
  · intro hsafe
    by_cases hgo : Proceeds ctx u
    · left
      by_contra hne
      exact not_crashSafe_again h hu hb hm (fun heq => hne (by rw [heq])) hgo hsafe
    · exact .inr hgo
  · intro hor
    by_cases hgo : Proceeds ctx u
    · rcases hor with heq | hno
      · obtain rfl := Option.some.inj heq
        exact crashSafe_first h hf hu hb hm hgo
      · exact absurd hgo hno
    · intro t hsteps hfl t' ctx' ret hr hfl'
      obtain ⟨T, r, hrun, hfull⟩ := Chip.exists_faultless ctx (pubRemapBlock ctx u m len) c ctx.pgSize
      obtain rfl := runs_refused h hgo hrun
      obtain rfl := List.prefix_nil.mp (Chip.prefix_of_steps hrun hfull (by simp) hsteps hfl)
      exact recovered_old h hf (fun b _ => .inl rfl) hm (by simp) (fun _ => rfl) hr hfl'

end

/-! ### A small chip -/

/-- The list of factory bad blocks is empty. -/
def emptyBbt : BbtTable := { BbtTable.fresh with checksum := 1 }

def emptyBbtBytes : Nat → UInt8 := fun i => [0x52, 0x41, 0x57, 0x42, 0, 0, 0, 1, 1, 0, 0xff, 0xff].getD i 0

/-- Fifty blocks of one page: the BMT in the last one, the BBT in the first one of the reserve area, and a mark
    beside the block above it. -/
def storedChip (bmt : BmtTable) (mark : Bytes) : Chip := fun b p =>
  if p ≠ 0 then .erased
  else if b = 49 then ⟨overlay (fun _ => 0xff) bmt.bytes, fun _ => 0xff⟩
  else if b = 46 then ⟨emptyBbtBytes, fun _ => 0xff⟩
  else if b = 47 then ⟨fun _ => 0xff, overlay (fun _ => 0xff) mark⟩
  else .erased

def remapNode : DeviceNode := { enableRemap := true }

def storedCtx (bmt : BmtTable) (status : BlockStatus) : Ctx where
  totalBlks := 50
  pgSize := 2048
  blkPages := 1
  bbt := emptyBbt
  bmt := bmt
  rblocks := [⟨49, .bmt⟩, ⟨48, .available⟩, ⟨47, status⟩, ⟨46, .bbt⟩]
  reserveAreaBegin := 46
  canRemapRanges := [(0, 46)]

section
variable {bmt : BmtTable} {mark : Bytes}

theorem found_emptyBbt (bmt : BmtTable) (mark : Bytes) : (storedChip bmt mark).found 2048 46 = .bbt emptyBbt := by
  have hpage : storedChip bmt mark 46 0 = ⟨emptyBbtBytes, fun _ => 0xff⟩ := rfl
  have hdata : ((storedChip bmt mark).peek 2048 46 0).1 = (List.range 2048).map emptyBbtBytes := by rw [Chip.peek, hpage]
  generalize hbuf : (List.range 2048).map emptyBbtBytes = buf at hdata
  have hbyte : ∀ k < 2048, byteAt buf k = emptyBbtBytes k := by
    intro k hk
    rw [← hbuf]
    exact byteAt_range_map _ hk
  have hzero : ∀ k, emptyBbtBytes (12 + k) = 0 := fun k => List.getD_eq_default _ _ (Nat.le_add_right 12 k)
  have htable : (List.range maxBbtSize).map (fun i => be16At buf (12 + 2 * i)) = List.replicate maxBbtSize 0 := by
    refine List.eq_replicate_iff.mpr ⟨by simp, fun w hw => ?_⟩
    obtain ⟨i, hi, rfl⟩ := List.mem_map.mp hw
    have : i < 1000 := List.mem_range.mp hi
    rw [be16At, hbyte _ (by omega), hbyte _ (by omega), hzero, Nat.add_assoc, hzero]
    rfl
  have hbytes : ∀ off count, off + count ≤ 2048 → bytesAt buf off count = (List.range count).map fun i => emptyBbtBytes (off + i) := by
    intro off count hle
    refine List.map_congr_left fun i hi => ?_
    have := List.mem_range.mp hi
    exact hbyte _ (by omega)
  have hof : BbtTable.ofBytes buf = emptyBbt := by
    unfold BbtTable.ofBytes emptyBbt BbtTable.fresh
    simp only [BbtTable.mk.injEq]
    refine ⟨hbytes 0 4 (by decide), ?_, hbyte 8 (by decide), hbyte 9 (by decide), hbytes 10 2 (by decide), htable⟩
    rw [be32At, hbyte _ (by decide), hbyte _ (by decide), hbyte _ (by decide), hbyte _ (by decide)]
    rfl
  have hlen : buf.length = 2048 := by
    rw [← hbuf]
    simp
  have hparse : tryParseBbt buf = some emptyBbt := by
    unfold tryParseBbt
    rw [if_neg (by rw [hlen]; decide)]
    dsimp only
    rw [hof, if_neg (by decide), if_neg (by decide +kernel)]
    rfl
  rw [found_unmarked fun k _ => by rw [hpage], hdata, hparse]

theorem found_storedBmt (hsig : bmt.signature = BmtTable.bmtSignature) (hsum : bmt.checksum = bmt.bmtChecksum bmt.size.toNat) :
    (storedChip bmt mark).found 2048 49 = .bmt bmt := by
  have hpage : storedChip bmt mark 49 0 = ⟨overlay (fun _ => 0xff) bmt.bytes, fun _ => 0xff⟩ := rfl
  refine found_table hsig hsum (by decide) (fun k _ => by rw [hpage]) fun k hk => ?_
  have hlen : k < bmt.bytes.length := by rw [BmtTable.length_bytes]; exact hk
  rw [hpage]
  refine (Chip.overlay_erased _ _).trans ?_
  rw [byteAt, List.getD_eq_getElem _ _ hlen, List.getD_eq_getElem _ _ hlen]

theorem scanned_storedChip {f : Found} (hsig : bmt.signature = BmtTable.bmtSignature) (hsum : bmt.checksum = bmt.bmtChecksum bmt.size.toNat)
    (h47 : (storedChip bmt mark).found 2048 47 = f) (hf : f = .available ∨ f = .mapped) :
    (storedChip bmt mark).scanned 50 2048 1 = { storedCtx bmt f.status with canRemapRanges := [] } := by
  have h49 := @found_storedBmt bmt mark hsig hsum
  have h48 : (storedChip bmt mark).found 2048 48 = .available := found_erased rfl
  have h46 := found_emptyBbt bmt mark
  have hgood : ∀ b, 46 ≤ b → b ≤ 49 → (storedChip bmt mark).isBad 2048 b = false := by
    intro b h1 h2
    have : b = 46 ∨ b = 47 ∨ b = 48 ∨ b = 49 := by omega
    unfold Chip.isBad
    rcases this with rfl | rfl | rfl | rfl
    · rw [h46]
      rfl
    · rw [h47]
      rcases hf with rfl | rfl
      · rfl
      · rfl
    · rw [h48]
      rfl
    · rw [h49]
      rfl
  have hall : stopAt (fun _ => false) (requiredGoodBlocks 50) 49 0 = 46 := by decide
  have hstop : stopAt ((storedChip bmt mark).isBad 2048) (requiredGoodBlocks 50) (50 - 1) 0 = 46 := by
    refine (stopAt_congr (by rw [hall]; decide) fun b h1 h2 => ?_).trans hall
    rw [hall] at h1
    exact hgood b h1 h2
  rw [scanned_eq, hstop, show descending (50 - 1) 46 = [49, 48, 47, 46] from rfl]
  unfold storedCtx
  simp only [lastSome, List.foldl_cons, List.foldl_nil, List.map_cons, List.map_nil, h49, h48, h47, h46]
  rcases hf with rfl | rfl
  · rfl
  · rfl

theorem consistent_stored {f : Found} (hsig : bmt.signature = BmtTable.bmtSignature) (hsum : bmt.checksum = bmt.bmtChecksum bmt.size.toNat)
    (hv : bmt.version ≠ 0) (h47 : (storedChip bmt mark).found 2048 47 = f) (hf : f = .available ∨ f = .mapped)
    (hfree : f.status = .available → storedChip bmt mark 47 0 = .erased) (hinv : (storedCtx bmt f.status).Inv) :
    Consistent remapNode (storedChip bmt mark) (storedCtx bmt f.status) := by
  have hscan := scanned_storedChip hsig hsum h47 hf
  refine ⟨?_, ?_, show 50 < 65536 by decide, hinv, fun rb hm hst p => ?_⟩
  · change _ = configure remapNode ((storedChip bmt mark).scanned 50 2048 1)
    rw [hscan]
    rfl
  · change Accepted remapNode ((storedChip bmt mark).scanned 50 2048 1)
    rw [hscan]
    refine ⟨show 46 ≠ 0 by decide, rfl, show emptyBbt.version ≠ 0 by decide, hv, nofun, fun rb hm => ?_⟩
    simp only [storedCtx, List.mem_cons, List.not_mem_nil, or_false] at hm
    rcases hf with rfl | rfl <;> rcases hm with rfl | rfl | rfl | rfl <;> exact nofun
  · have hpage : ∀ b, b = 48 ∨ (b = 47 ∧ storedChip bmt mark 47 0 = .erased) → storedChip bmt mark b p = .erased := by
      intro b hb
      by_cases hp : p = 0
      · rw [hp]
        rcases hb with rfl | ⟨rfl, h0⟩
        · rfl
        · exact h0
      · exact if_pos hp
    simp only [storedCtx, List.mem_cons, List.not_mem_nil, or_false] at hm
    rcases hm with rfl | rfl | rfl | rfl
    · cases hst
    · exact hpage 48 (.inl rfl)
    · exact hpage 47 (.inr ⟨rfl, hfree hst⟩)
    · cases hst

end

/-- Nothing is remapped. -/
def plainBmt : BmtTable := BmtTable.blank.reset.withChecksum

/-- Block 3 has been remapped. -/
def remappedBmt : BmtTable := (BmtTable.blank.reset.assign 3 47).withChecksum

theorem consistent_plain : Consistent remapNode (storedChip plainBmt []) (storedCtx plainBmt .available) := by
  refine consistent_stored (f := .available) (by decide) (by decide) (by decide) (found_erased ?_) (.inl rfl) (fun _ => ?_) ?_
  · exact congrArg (PageBytes.mk _) (Chip.overlay_nil _)
  · exact congrArg (PageBytes.mk _) (Chip.overlay_nil _)
  · exact ⟨List.nodup_nil, fun _ he => (nomatch he), List.nodup_nil, fun _ he => (nomatch he)⟩

theorem consistent_remapped : Consistent remapNode (storedChip remappedBmt (markBytes 3)) (storedCtx remappedBmt .mapped) := by
  have hent : remappedBmt.entries = [⟨3, 47⟩] := by decide +kernel
  refine consistent_stored (f := .mapped) (by decide) (by decide +kernel) (by decide) (found_marked ?_ ?_ (.inl ?_)) (.inr rfl) nofun ⟨?_, ?_, ?_, ?_⟩
  · decide
  · decide
  · decide
  · change (remappedBmt.entries.map BmtEntry.src).Nodup
    rw [hent]
    decide
  · change ∀ e ∈ remappedBmt.entries, e.src.toNat < 46
    rw [hent]
    decide
  · change (remappedBmt.entries.map BmtEntry.dst).Nodup
    rw [hent]
    decide
  · change ∀ e ∈ remappedBmt.entries, _
    rw [hent]
    decide

theorem crashSafe_iff_plain : Proceeds (storedCtx plainBmt .available) 3 ∧ CrashSafe remapNode (storedChip plainBmt []) (storedCtx plainBmt .available) 3 3 2048 :=
  ⟨⟨by decide, by decide, by decide⟩, (crashSafe_iff consistent_plain (by decide) (by decide) (by decide)).mpr (.inl (by decide))⟩

/-- Block 3, which is remapped once more, is lost when the power goes off behind the first erasure. -/
theorem remap_again_loses : ∃ np c ctx, Consistent np c ctx ∧ 3 < ctx.userBlocks ∧ ctx.getMappingBlock 3 = some 47 ∧ ¬CrashSafe np c ctx 3 47 2048 :=
  ⟨_, _, _, consistent_remapped, by decide, by decide +kernel,
    not_crashSafe_again consistent_remapped (by decide) (show (storedCtx remappedBmt .mapped).getMappingBlockBbt 3 = some 3 by decide) (by decide +kernel) (by decide) ⟨by decide, by decide, by decide⟩⟩

end RainWrt.En75
