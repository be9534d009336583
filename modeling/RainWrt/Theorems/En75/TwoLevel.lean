import RainWrt.Theorems.En75.Mapping
import RainWrt.Theorems.Lists

/-! The two levels of the EN75 mapping: user blocks are laid over the blocks that are not in the BBT, in order,
    and some of them are moved on into the reserve area. -/

namespace RainWrt.En75

/-! ### Over an ascending list -/

section
variable {bad : List UInt16} {u v b n : Nat}

/-- Before the first bad block nothing is shifted. -/
theorem shift_of_lt (h : ∀ b ∈ bad, u < b.toNat) : shift bad u = u := by
  induction bad with
  | nil => rfl
  | cons b bad ih =>
    have hb := h b List.mem_cons_self
    change shift bad (if b.toNat ≤ u then u + 1 else u) = u
    rw [if_neg (by omega)]
    exact ih fun b hm => h b (List.mem_cons_of_mem _ hm)

theorem le_shift (bad : List UInt16) (u : Nat) : u ≤ shift bad u := by
  induction bad generalizing u with
  | nil => exact Nat.le_refl _
  | cons b bad ih =>
    refine Nat.le_trans ?_ (ih _)
    dsimp only
    split <;> omega

/-- A shifted block is no bad one. -/
theorem shift_notMem (h : bad.Pairwise (· < ·)) (u : Nat) : ∀ b ∈ bad, b.toNat ≠ shift bad u := by
  induction bad generalizing u with
  | nil => exact fun b hb => nomatch hb
  | cons b bad ih =>
    obtain ⟨hlt, htail⟩ := List.pairwise_cons.mp h
    intro a ha heq
    change a.toNat = shift bad (if b.toNat ≤ u then u + 1 else u) at heq
    rcases List.mem_cons.mp ha with rfl | ha
    · split at heq
      · have := le_shift bad (u + 1)
        omega
      · rw [shift_of_lt fun c hc => ?_] at heq
        · omega
        · have := UInt16.lt_iff_toNat_lt.mp (hlt c hc)
          omega
    · exact ih htail _ a ha heq

/-- Every other block is a shifted one. -/
theorem exists_shift (h : bad.Pairwise (· < ·)) (hb : ∀ a ∈ bad, a.toNat ≠ b) : ∃ u, shift bad u = b := by
  induction bad with
  | nil => exact ⟨b, rfl⟩
  | cons a bad ih =>
    obtain ⟨hlt, htail⟩ := List.pairwise_cons.mp h
    obtain ⟨u, hu⟩ := ih htail fun c hc => hb c (List.mem_cons_of_mem _ hc)
    have hne : u ≠ a.toNat := by
      rintro rfl
      rw [shift_of_lt fun c hc => UInt16.lt_iff_toNat_lt.mp (hlt c hc)] at hu
      exact hb a List.mem_cons_self hu
    rcases Nat.lt_or_ge u a.toNat with hlow | hhigh
    · refine ⟨u, ?_⟩
      change shift bad (if a.toNat ≤ u then u + 1 else u) = b
      rw [if_neg (by omega)]
      exact hu
    · refine ⟨u - 1, ?_⟩
      change shift bad (if a.toNat ≤ u - 1 then u - 1 + 1 else u - 1) = b
      rw [if_pos (by omega), Nat.sub_add_cancel (by omega)]
      exact hu

/-- An ascending list between two bounds is no longer than their distance. -/
theorem length_le_of_pairwise (h : bad.Pairwise (· < ·)) (hlow : ∀ b ∈ bad, u ≤ b.toNat) (hhigh : ∀ b ∈ bad, b.toNat < n) (hu : u ≤ n) :
    u + bad.length ≤ n := by
  induction bad generalizing u with
  | nil => exact hu
  | cons b bad ih =>
    obtain ⟨hlt, htail⟩ := List.pairwise_cons.mp h
    have h1 := hlow b List.mem_cons_self
    have h2 := hhigh b List.mem_cons_self
    have := ih (u := b.toNat + 1) htail (fun c hc => UInt16.lt_iff_toNat_lt.mp (hlt c hc)) (fun c hc => hhigh c (List.mem_cons_of_mem _ hc)) h2
    rw [List.length_cons]
    omega

/-- Behind the last block that fits, the shifted blocks are too large. -/
theorem le_shift_of_le (h : bad.Pairwise (· < ·)) (hn : ∀ b ∈ bad, b.toNat < n) (hu : n ≤ u + bad.length) : n ≤ shift bad u := by
  induction bad generalizing u with
  | nil => exact hu
  | cons b bad ih =>
    obtain ⟨hlt, htail⟩ := List.pairwise_cons.mp h
    have hrest : ∀ c ∈ bad, c.toNat < n := fun c hc => hn c (List.mem_cons_of_mem _ hc)
    rw [List.length_cons] at hu
    change n ≤ shift bad (if b.toNat ≤ u then u + 1 else u)
    by_cases hb : b.toNat ≤ u
    · rw [if_pos hb]
      exact ih htail hrest (by omega)
    · have hlen := length_le_of_pairwise (u := b.toNat + 1) htail (fun c hc => UInt16.lt_iff_toNat_lt.mp (hlt c hc)) hrest (hn b List.mem_cons_self)
      omega

end

/-! ### The first level -/

/-- The BBT lists user blocks in ascending order. -/
structure Ctx.Listed (ctx : Ctx) : Prop where
  ascending : ctx.bbt.blocks.Pairwise (· < ·)
  user : ∀ b ∈ ctx.bbt.blocks, b.toNat < ctx.reserveAreaBegin

/-- A user block that is not in the BBT. -/
def Ctx.Usable (ctx : Ctx) (b : Nat) : Prop := b < ctx.reserveAreaBegin ∧ ∀ a ∈ ctx.bbt.blocks, a.toNat ≠ b

section
variable {ctx : Ctx} {u v b p : Nat}

theorem Ctx.Listed.getMappingBlockBbt_isSome_iff (h : ctx.Listed) : (∃ b, ctx.getMappingBlockBbt u = some b) ↔ u < ctx.userBlocks := by
  constructor
  · rintro ⟨b, hb⟩
    obtain ⟨rfl, hlt⟩ := getMappingBlockBbt_eq_some.mp hb
    by_contra hge
    have hlen : ctx.reserveAreaBegin ≤ u + ctx.bbt.blocks.length := by
      rw [length_blocks]
      unfold Ctx.userBlocks at hge
      omega
    have := le_shift_of_le h.ascending h.user hlen
    omega
  · exact getMappingBlockBbt_isSome

theorem Ctx.Listed.usable (h : ctx.Listed) (hb : ctx.getMappingBlockBbt u = some b) : ctx.Usable b := by
  obtain ⟨rfl, hlt⟩ := getMappingBlockBbt_eq_some.mp hb
  exact ⟨hlt, shift_notMem h.ascending u⟩

theorem Ctx.Listed.exists_of_usable (h : ctx.Listed) (hb : ctx.Usable b) : ∃ u, ctx.getMappingBlockBbt u = some b := by
  obtain ⟨u, hu⟩ := exists_shift h.ascending hb.2
  exact ⟨u, getMappingBlockBbt_eq_some.mpr ⟨hu.symm, hb.1⟩⟩

/-- `g` lays the blocks below `n` over the usable ones, in order. -/
structure Ctx.Lays (ctx : Ctx) (n : Nat) (g : Fin n → Nat) : Prop where
  ascending : StrictMono g
  usable : ∀ b, b ∈ Set.range g ↔ ctx.Usable b

/-- There is one such map. -/
theorem Ctx.Lays.unique {n : Nat} {g g' : Fin n → Nat} (h : ctx.Lays n g) (h' : ctx.Lays n g') : g = g' := by
  refine (StrictMono.range_inj h.ascending h'.ascending).mp (Set.ext fun b => ?_)
  rw [h.usable, h'.usable]

theorem Ctx.Listed.lays (h : ctx.Listed) : ctx.Lays ctx.userBlocks fun u => shift ctx.bbt.blocks u := by
  refine ⟨fun u v huv => shift_lt_shift _ huv, fun b => ?_⟩
  constructor
  · rintro ⟨u, rfl⟩
    obtain ⟨b, hb⟩ := getMappingBlockBbt_isSome u.isLt
    obtain ⟨rfl, -⟩ := getMappingBlockBbt_eq_some.mp hb
    exact h.usable hb
  · intro hb
    obtain ⟨u, hu⟩ := h.exists_of_usable hb
    exact ⟨⟨u, h.getMappingBlockBbt_isSome_iff.mp ⟨b, hu⟩⟩, (getMappingBlockBbt_eq_some.mp hu).1.symm⟩

/-! ### The second level -/

/-- The BMT maps distinct user blocks to distinct blocks of the reserve area. -/
structure Ctx.Maps (ctx : Ctx) : Prop where
  src_nodup : ctx.bmt.SrcNodup
  src_user : ∀ e ∈ ctx.bmt.entries, e.src.toNat < ctx.reserveAreaBegin
  dst_nodup : (ctx.bmt.entries.map BmtEntry.dst).Nodup
  dst_reserve : ∀ e ∈ ctx.bmt.entries, ctx.reserveAreaBegin ≤ e.dst.toNat

/-- A block is moved, or stays because there is no entry for it. -/
theorem Ctx.Maps.cases (h : ctx.Maps) (hp : ctx.getMappingBlock u = some p) : ∃ b, ctx.getMappingBlockBbt u = some b ∧
    ((∃ e ∈ ctx.bmt.entries, e.src.toNat = b ∧ e.dst.toNat = p) ∨ (p = b ∧ ∀ e ∈ ctx.bmt.entries, e.src.toNat ≠ b)) := by
  unfold Ctx.getMappingBlock at hp
  cases hb : ctx.getMappingBlockBbt u with
  | none =>
    rw [hb] at hp
    cases hp
  | some b =>
    rw [hb] at hp
    refine ⟨b, rfl, ?_⟩
    dsimp only at hp
    cases he : ctx.bmt.entries.reverse.find? (·.src.toNat = b) with
    | some e =>
      rw [he] at hp
      obtain ⟨hm, hs⟩ := (find_reverse_eq_some h.src_nodup).mp he
      exact .inl ⟨e, hm, hs, Option.some.inj hp⟩
    | none =>
      rw [he] at hp
      refine .inr ⟨(Option.some.inj hp).symm, fun e hm hs => ?_⟩
      rw [(find_reverse_eq_some h.src_nodup).mpr ⟨hm, hs⟩] at he
      cases he

theorem Ctx.Maps.injective (h : ctx.Maps) (hu : ctx.getMappingBlock u = some p) (hv : ctx.getMappingBlock v = some p) : u = v := by
  obtain ⟨b, hb, hcase⟩ := h.cases hu
  obtain ⟨b', hb', hcase'⟩ := h.cases hv
  have hlt := (getMappingBlockBbt_eq_some.mp hb).2
  have hlt' := (getMappingBlockBbt_eq_some.mp hb').2
  rcases hcase with ⟨e, he, hs, hd⟩ | ⟨rfl, -⟩
  · have := h.dst_reserve e he
    rcases hcase' with ⟨e', he', hs', hd'⟩ | ⟨rfl, -⟩
    · obtain rfl : e = e' := List.inj_on_of_nodup_map h.dst_nodup he he' (UInt16.toNat_inj.mp (hd.trans hd'.symm))
      obtain rfl : b = b' := hs.symm.trans hs'
      exact getMappingBlockBbt_inj hb hb'
    · omega
  · rcases hcase' with ⟨e', he', -, hd'⟩ | ⟨rfl, -⟩
    · have := h.dst_reserve e' he'
      omega
    · exact getMappingBlockBbt_inj hb hb'

/-- No block that is bad or has been moved is used for a user block. -/
theorem Ctx.Maps.avoids (h : ctx.Maps) (hl : ctx.Listed) (hp : ctx.getMappingBlock u = some p) :
    (∀ a ∈ ctx.bbt.blocks, a.toNat ≠ p) ∧ ∀ e ∈ ctx.bmt.entries, e.src.toNat ≠ p := by
  obtain ⟨b, hb, ⟨e, he, -, hd⟩ | ⟨rfl, hno⟩⟩ := h.cases hp
  · have := h.dst_reserve e he
    constructor
    · intro a ha heq
      have := hl.user a ha
      omega
    · intro e' he' heq
      have := h.src_user e' he'
      omega
  · exact ⟨(hl.usable hb).2, hno⟩

/-- The first level is the only map of the user blocks over the usable blocks that keeps their order; together
    the levels are injective and avoid the blocks that are bad or worn. -/
theorem mapping_spec (hl : ctx.Listed) (hm : ctx.Maps) :
    (∃ g, ctx.Lays ctx.userBlocks g ∧ (∀ u, ctx.getMappingBlockBbt u.val = some (g u)) ∧ ∀ g', ctx.Lays ctx.userBlocks g' → g' = g) ∧
    (∀ u, ctx.userBlocks ≤ u → ctx.getMappingBlockBbt u = none) ∧
    (∀ u v, u < ctx.userBlocks → v < ctx.userBlocks → ctx.getMappingBlock u = ctx.getMappingBlock v → u = v) ∧
    ∀ u p, ctx.getMappingBlock u = some p → (∀ a ∈ ctx.bbt.blocks, a.toNat ≠ p) ∧ ∀ e ∈ ctx.bmt.entries, e.src.toNat ≠ p := by
  refine ⟨⟨_, hl.lays, fun u => ?_, fun g' h' => h'.unique hl.lays⟩, fun u hu => ?_, fun u v hu _ heq => ?_, fun u p hp => hm.avoids hl hp⟩
  · obtain ⟨b, hb⟩ := getMappingBlockBbt_isSome u.isLt
    obtain ⟨rfl, -⟩ := getMappingBlockBbt_eq_some.mp hb
    exact hb
  · rcases hb : ctx.getMappingBlockBbt u with _ | b
    · rfl
    · have := hl.getMappingBlockBbt_isSome_iff.mp ⟨b, hb⟩
      omega
  · obtain ⟨b, hb⟩ := getMappingBlockBbt_isSome hu
    have hsome : ∃ p, ctx.getMappingBlock u = some p := by
      unfold Ctx.getMappingBlock
      rw [hb]
      dsimp only
      split
      · exact ⟨_, rfl⟩
      · exact ⟨_, rfl⟩
    obtain ⟨p, hp⟩ := hsome
    exact hm.injective hp (heq.symm.trans hp)

end

/-- Ten user blocks of which two are bad and one is worn. -/
def wornCtx : Ctx where
  totalBlks := 16
  pgSize := 2048
  blkPages := 64
  bbt := { BbtTable.fresh with table := 3 :: 4 :: List.replicate 998 0, size := 2, table_length := by rw [List.length_cons, List.length_cons, List.length_replicate]; rfl }
  bmt := BmtTable.blank.assign 6 12
  reserveAreaBegin := 10

theorem mapping_spec_worn : (∃ g, wornCtx.Lays 8 g ∧ (∀ u, wornCtx.getMappingBlockBbt u.val = some (g u)) ∧ ∀ g', wornCtx.Lays 8 g' → g' = g) ∧
    (List.range 9).map wornCtx.getMappingBlock = [some 0, some 1, some 2, some 5, some 12, some 7, some 8, some 9, none] := by
  have hl : wornCtx.Listed := ⟨by decide, forall_mem_of_all (fun b : UInt16 => b.toNat < wornCtx.reserveAreaBegin) (by decide)⟩
  have hsrc : (wornCtx.bmt.entries.map BmtEntry.src).Nodup := by decide
  have hm : wornCtx.Maps := ⟨hsrc, by decide, by decide, by decide⟩
  exact ⟨(mapping_spec hl hm).1, by decide⟩

end RainWrt.En75
