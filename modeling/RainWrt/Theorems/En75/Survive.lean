import RainWrt.Theorems.En75.Boot

/-! Chips that hold the tables of a state, and other chips from which the driver starts with the same
    tables but for the BMT. -/

namespace RainWrt.En75

/-- The chip holds the tables of the state: a start loads it as it is and leaves nothing to write. Free
    blocks are erased as a whole, of which a start sees the first page alone. -/
structure Consistent (np : DeviceNode) (c : Chip) (ctx : Ctx) : Prop where
  loads : ctx = configure np (c.scanned ctx.totalBlks ctx.pgSize ctx.blkPages)
  accepted : Accepted np (c.scanned ctx.totalBlks ctx.pgSize ctx.blkPages)
  total : ctx.totalBlks < 65536
  inv : ctx.Inv
  free : ∀ rb ∈ ctx.rblocks, rb.status = .available → ∀ p, c rb.index p = .erased

section
variable {np : DeviceNode} {c c₁ : Chip} {ctx : Ctx} {t : Trace}

/-- A start on such a chip only reads it, and ends in the same state. -/
theorem Consistent.pubInit (h : Consistent np c ctx) {ctx' : Ctx} {ret : Int} (hr : Proc.Runs (pubInit np ctx.totalBlks ctx.pgSize ctx.blkPages) t (ctx', ret))
    (hf : c.Faultless ctx.pgSize t) : ctx' = ctx ∧ ret = 0 ∧ ∀ e ∈ t, ∃ b p, e.1 = .read b p := by
  obtain ⟨hctx, hret, hreads⟩ := pubInit_faultless h.accepted hr hf
  exact ⟨hctx.trans h.loads.symm, hret, hreads⟩

/-- The reserve area, from the end of the chip downwards. -/
def Ctx.area (ctx : Ctx) : List Nat := descending (ctx.totalBlks - 1) ctx.reserveAreaBegin

/-- The state is read off the chip, block by block. -/
structure Fields (c : Chip) (ctx : Ctx) : Prop where
  stop : ctx.reserveAreaBegin = stopAt (c.isBad ctx.pgSize) (requiredGoodBlocks ctx.totalBlks) (ctx.totalBlks - 1) 0
  bbt : ctx.bbt = lastSome (fun b => (c.found ctx.pgSize b).bbt?) ctx.area .blank
  bmt : ctx.bmt = lastSome (fun b => (c.found ctx.pgSize b).bmt?) ctx.area .blank
  rblocks : ctx.rblocks = ctx.area.map fun b => ⟨b, (c.found ctx.pgSize b).status⟩
  bbtDirty : ctx.bbtDirty = 0
  bmtDirty : ctx.bmtDirty = 0

/-- The scan as a record. -/
theorem scanned_eq (c : Chip) (totalBlks pgSize blkPages : Nat) : c.scanned totalBlks pgSize blkPages =
    { totalBlks := totalBlks, pgSize := pgSize, blkPages := blkPages
      bbt := lastSome (fun b => (c.found pgSize b).bbt?) (descending (totalBlks - 1) (stopAt (c.isBad pgSize) (requiredGoodBlocks totalBlks) (totalBlks - 1) 0)) .blank
      bmt := lastSome (fun b => (c.found pgSize b).bmt?) (descending (totalBlks - 1) (stopAt (c.isBad pgSize) (requiredGoodBlocks totalBlks) (totalBlks - 1) 0)) .blank
      rblocks := (descending (totalBlks - 1) (stopAt (c.isBad pgSize) (requiredGoodBlocks totalBlks) (totalBlks - 1) 0)).map
        fun b => ⟨b, (c.found pgSize b).status⟩
      reserveAreaBegin := stopAt (c.isBad pgSize) (requiredGoodBlocks totalBlks) (totalBlks - 1) 0 } := by
  unfold Chip.scanned
  dsimp only
  rw [recorded_eq]
  rfl

theorem Consistent.fields (h : Consistent np c ctx) : Fields c ctx := by
  obtain ⟨l, hl⟩ := configure_eq np (c.scanned ctx.totalBlks ctx.pgSize ctx.blkPages)
  have hconf : ctx = _ := h.loads.trans (hl (c.scanned ctx.totalBlks ctx.pgSize ctx.blkPages).bmt (c.scanned ctx.totalBlks ctx.pgSize ctx.blkPages).rblocks)
  have hscan := scanned_eq c ctx.totalBlks ctx.pgSize ctx.blkPages
  have hstop : ctx.reserveAreaBegin = stopAt (c.isBad ctx.pgSize) (requiredGoodBlocks ctx.totalBlks) (ctx.totalBlks - 1) 0 := by
    rw [congrArg Ctx.reserveAreaBegin hconf, congrArg Ctx.reserveAreaBegin hscan]
  refine ⟨hstop, ?_, ?_, ?_, ?_, ?_⟩
  · rw [congrArg Ctx.bbt hconf, congrArg Ctx.bbt hscan, Ctx.area, hstop]
  · rw [congrArg Ctx.bmt hconf, congrArg Ctx.bmt hscan, Ctx.area, hstop]
  · rw [congrArg Ctx.rblocks hconf, congrArg Ctx.rblocks hscan, Ctx.area, hstop]
  · rw [congrArg Ctx.bbtDirty hconf, congrArg Ctx.bbtDirty hscan]
  · rw [congrArg Ctx.bmtDirty hconf, congrArg Ctx.bmtDirty hscan]

theorem Consistent.reserve_ne (h : Consistent np c ctx) : ctx.reserveAreaBegin ≠ 0 := by
  have h0 := h.accepted.stops
  rw [congrArg Ctx.reserveAreaBegin (scanned_eq c ctx.totalBlks ctx.pgSize ctx.blkPages)] at h0
  rw [h.fields.stop]
  exact h0

theorem Consistent.reserve_lt (h : Consistent np c ctx) : ctx.reserveAreaBegin < ctx.totalBlks := by
  have h1 := h.reserve_ne
  have h2 : ctx.reserveAreaBegin ≤ ctx.totalBlks - 1 := by
    rw [h.fields.stop]
    exact stopAt_le _ _ _ _
  omega

theorem Consistent.mem_area (h : Consistent np c ctx) {b : Nat} : b ∈ ctx.area ↔ ctx.reserveAreaBegin ≤ b ∧ b < ctx.totalBlks := by
  have := h.reserve_lt
  rw [Ctx.area, mem_descending]
  omega

theorem shaped_of_area (ht : ctx.totalBlks < 65536) (hr : ctx.reserveAreaBegin < ctx.totalBlks) {f : Nat → BlockStatus}
    (hb : ctx.rblocks = ctx.area.map fun b => ⟨b, f b⟩) : ctx.Shaped := by
  have hmap : ctx.rblocks.map BlockInfo.index = ctx.area := by
    rw [hb, List.map_map]
    exact List.map_id ctx.area
  refine ⟨ht, Nat.le_of_lt hr, fun rb hm => ?_, by rw [hmap]; exact nodup_descending _ _⟩
  have hm' : rb.index ∈ ctx.area := by
    rw [← hmap]
    exact List.mem_map_of_mem hm
  rw [Ctx.area, mem_descending] at hm'
  omega

theorem Consistent.shaped (h : Consistent np c ctx) : ctx.Shaped := shaped_of_area h.total h.reserve_lt h.fields.rblocks

/-- A block of the reserve area has the status that it is found with. -/
theorem Consistent.mem_rblocks (h : Consistent np c ctx) {rb : BlockInfo} :
    rb ∈ ctx.rblocks ↔ rb.index ∈ ctx.area ∧ rb.status = (c.found ctx.pgSize rb.index).status := by
  rw [h.fields.rblocks, List.mem_map]
  constructor
  · rintro ⟨b, hb, rfl⟩
    exact ⟨hb, rfl⟩
  · rintro ⟨hb, hs⟩
    exact ⟨rb.index, hb, by rw [← hs]⟩

theorem Consistent.pending (h : Consistent np c ctx) : ∀ rb ∈ ctx.rblocks, rb.status ≠ .needErase := by
  have hp := h.accepted.pending
  rw [congrArg Ctx.rblocks (scanned_eq c ctx.totalBlks ctx.pgSize ctx.blkPages), ← h.fields.stop] at hp
  rw [h.fields.rblocks]
  exact hp

/-! ### The last block decides -/

theorem lastSome_append {α : Type} (f : Nat → Option α) (l l' : List Nat) (a : α) : lastSome f (l ++ l') a = lastSome f l' (lastSome f l a) := List.foldl_append

theorem lastSome_congr {α : Type} {f g : Nat → Option α} {l : List Nat} {a : α} (h : ∀ b ∈ l, f b = g b) : lastSome f l a = lastSome g l a := by
  induction l generalizing a with
  | nil => rfl
  | cons b l ih =>
    change lastSome f l ((f b).getD a) = lastSome g l ((g b).getD a)
    rw [h b List.mem_cons_self]
    exact ih fun b hb => h b (List.mem_cons_of_mem _ hb)

theorem lastSome_of_none {α : Type} {f : Nat → Option α} {l : List Nat} {a : α} (h : ∀ b ∈ l, f b = none) : lastSome f l a = a := by
  induction l generalizing a with
  | nil => rfl
  | cons b l ih =>
    change lastSome f l ((f b).getD a) = a
    rw [h b List.mem_cons_self]
    exact ih fun b hb => h b (List.mem_cons_of_mem _ hb)

/-- Only one block holds something: it decides, if it is there. -/
theorem lastSome_of_single {α : Type} {f : Nat → Option α} {l : List Nat} {a x : α} {n : Nat} (h : ∀ b ∈ l, b ≠ n → f b = none) (hn : f n = some x) :
    lastSome f l a = if n ∈ l then x else a := by
  induction l generalizing a with
  | nil => rfl
  | cons b l ih =>
    change lastSome f l ((f b).getD a) = _
    rw [ih fun b hb => h b (List.mem_cons_of_mem _ hb)]
    by_cases hb : b = n
    · subst hb
      rw [hn]
      simp
    · rw [h b List.mem_cons_self hb]
      have : n ∈ b :: l ↔ n ∈ l := by
        rw [List.mem_cons]
        exact or_iff_right fun h => hb h.symm
      simp only [this, Option.getD_none]

/-- The block that decides, and what stands before and behind it. -/
theorem exists_last {α : Type} {f : Nat → Option α} {l : List Nat} (h : ∃ b ∈ l, f b ≠ none) :
    ∃ l₁ o l₂ x, l = l₁ ++ o :: l₂ ∧ f o = some x ∧ ∀ b ∈ l₂, f b = none := by
  induction l with
  | nil =>
    obtain ⟨b, hb, -⟩ := h
    cases hb
  | cons a l ih =>
    by_cases hl : ∃ b ∈ l, f b ≠ none
    · obtain ⟨l₁, o, l₂, x, rfl, ho, hn⟩ := ih hl
      exact ⟨a :: l₁, o, l₂, x, rfl, ho, hn⟩
    · have hnone : ∀ b ∈ l, f b = none := fun b hb => by
        by_contra hc
        exact hl ⟨b, hb, hc⟩
      obtain ⟨b, hb, hf⟩ := h
      rcases List.mem_cons.mp hb with rfl | hb
      · obtain ⟨x, hx⟩ := Option.ne_none_iff_exists'.mp hf
        exact ⟨[], b, l, x, rfl, hx, hnone⟩
      · exact absurd (hnone b hb) hf

/-! ### Chips that start alike -/

/-- A chip from which the driver starts as from `c`, but with the table `m`. -/
structure Survives (c c₁ : Chip) (ctx : Ctx) (m : BmtTable) : Prop where
  bad : ∀ b ∈ ctx.area, c₁.isBad ctx.pgSize b = c.isBad ctx.pgSize b
  bbt : ∀ b ∈ ctx.area, (c₁.found ctx.pgSize b).bbt? = (c.found ctx.pgSize b).bbt?
  pending : ∀ b ∈ ctx.area, (c₁.found ctx.pgSize b).status ≠ .needErase
  bmt : lastSome (fun b => (c₁.found ctx.pgSize b).bmt?) ctx.area .blank = m
  version : m.version ≠ 0

/-- The state that is loaded. -/
def Ctx.reloaded (ctx : Ctx) (c₁ : Chip) (m : BmtTable) : Ctx :=
  { ctx with bmt := m, rblocks := ctx.area.map fun b => ⟨b, (c₁.found ctx.pgSize b).status⟩ }

theorem Survives.scanned {m : BmtTable} (h : Consistent np c ctx) (hs : Survives c c₁ ctx m) : c₁.scanned ctx.totalBlks ctx.pgSize ctx.blkPages =
    { c.scanned ctx.totalBlks ctx.pgSize ctx.blkPages with
      bmt := m, rblocks := ctx.area.map fun b => ⟨b, (c₁.found ctx.pgSize b).status⟩ } := by
  have hstop : stopAt (c₁.isBad ctx.pgSize) (requiredGoodBlocks ctx.totalBlks) (ctx.totalBlks - 1) 0 = ctx.reserveAreaBegin := by
    rw [h.fields.stop]
    refine stopAt_congr (by rw [← h.fields.stop]; exact h.reserve_ne) fun b h1 h2 => hs.bad b ?_
    rw [← h.fields.stop] at h1
    exact mem_descending.mpr ⟨h1, h2⟩
  have hbbt : lastSome (fun b => (c₁.found ctx.pgSize b).bbt?) ctx.area .blank = lastSome (fun b => (c.found ctx.pgSize b).bbt?) ctx.area .blank :=
    lastSome_congr hs.bbt
  rw [scanned_eq, scanned_eq, hstop, ← h.fields.stop]
  change (⟨_, _, _, lastSome _ ctx.area _, lastSome _ ctx.area _, _, _, _, _, _, _⟩ : Ctx) = _
  rw [hbbt, hs.bmt]
  rfl

/-- The driver starts from such a chip, and only reads it. -/
theorem Survives.pubInit {m : BmtTable} (h : Consistent np c ctx) (hs : Survives c c₁ ctx m) {ctx' : Ctx} {ret : Int}
    (hr : Proc.Runs (pubInit np ctx.totalBlks ctx.pgSize ctx.blkPages) t (ctx', ret)) (hf : c₁.Faultless ctx.pgSize t) :
    ctx' = ctx.reloaded c₁ m ∧ ret = 0 ∧ ∀ e ∈ t, ∃ b p, e.1 = .read b p := by
  have hscan := hs.scanned h
  have hacc : Accepted np (c₁.scanned ctx.totalBlks ctx.pgSize ctx.blkPages) := by
    have ha := h.accepted
    rw [hscan]
    refine ⟨ha.stops, ha.size, ha.bbt, hs.version, ha.factory, fun rb hm => ?_⟩
    obtain ⟨b, hb, rfl⟩ := List.mem_map.mp hm
    exact hs.pending b hb
  obtain ⟨hctx, hret, hreads⟩ := pubInit_faultless hacc hr hf
  refine ⟨?_, hret, hreads⟩
  obtain ⟨l, hl⟩ := configure_eq np (c.scanned ctx.totalBlks ctx.pgSize ctx.blkPages)
  have hloads := h.loads.trans (hl (c.scanned ctx.totalBlks ctx.pgSize ctx.blkPages).bmt (c.scanned ctx.totalBlks ctx.pgSize ctx.blkPages).rblocks)
  rw [hctx, hscan, hl]
  generalize c.scanned ctx.totalBlks ctx.pgSize ctx.blkPages = s at hloads
  generalize hrb : (ctx.area.map fun b => (⟨b, (c₁.found ctx.pgSize b).status⟩ : BlockInfo)) = rb
  unfold Ctx.reloaded
  rw [hrb, hloads]

end

end RainWrt.En75
