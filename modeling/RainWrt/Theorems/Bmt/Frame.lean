import RainWrt.Theorems.Bmt.Bbt

/-! What `remap_block_bbt` leaves alone: marking one physical block bad moves the logical blocks behind it. -/

namespace RainWrt.Bmt.Bbt

/-! ### The table -/

/-- The bits of a block in its byte. -/
def mask (block : Nat) : UInt8 := 3 <<< UInt8.ofNat (block % 4 * 2)

theorem mask_ne (block : Nat) : mask block ≠ 0 := by
  have h : block % 4 < 4 := Nat.mod_lt _ (by decide)
  unfold mask
  generalize block % 4 = k at h
  revert k
  decide

theorem mask_and_mask {block block' : Nat} (h : block % 4 ≠ block' % 4) : mask block &&& mask block' = 0 := by
  have hall : ∀ j < 4, ∀ k < 4, j ≠ k → (3 <<< UInt8.ofNat (j * 2)) &&& (3 <<< UInt8.ofNat (k * 2)) = (0 : UInt8) := by decide
  exact hall _ (Nat.mod_lt _ (by decide)) _ (Nat.mod_lt _ (by decide)) h

theorem or_and_self (cur m : UInt8) : (cur ||| m) &&& m = m := by
  apply UInt8.toBitVec_inj.mp
  ext i hi
  simp only [UInt8.toBitVec_and, UInt8.toBitVec_or, BitVec.getElem_and, BitVec.getElem_or]
  cases cur.toBitVec[i] <;> cases m.toBitVec[i] <;> rfl

theorem or_and_of_and (cur : UInt8) {m m' : UInt8} (h : m &&& m' = 0) : (cur ||| m) &&& m' = cur &&& m' := by
  have hbits := UInt8.toBitVec_inj.mpr h
  apply UInt8.toBitVec_inj.mp
  ext i hi
  have hbit := congrArg (·[i]) hbits
  simp only [UInt8.toBitVec_and, UInt8.toBitVec_or, BitVec.getElem_and, BitVec.getElem_or] at hbit ⊢
  revert hbit
  cases cur.toBitVec[i] <;> cases m.toBitVec[i] <;> cases m'.toBitVec[i] <;> simp

/-- Only the marked block changes. -/
theorem blockIsBad_setBlockState (env : Env) (s : State) (m : Nat) (block : Int) :
    blockIsBad (setBlockState env s m true).buf block = (blockIsBad s.buf block || decide (block % 2 ^ 16 = m)) := by
  have hcast : (((block % 2 ^ 16).toNat : Nat) : Int) = block % 2 ^ 16 := Int.toNat_of_nonneg (Int.emod_nonneg _ (by decide))
  unfold blockIsBad
  generalize hj : (block % 2 ^ 16).toNat = j at hcast
  rw [← hcast]
  show decide ((if j / 4 = m / 4 then s.buf (m / 4) ||| mask m else s.buf (j / 4)) &&& mask j ≠ 0) =
    (decide (s.buf (j / 4) &&& mask j ≠ 0) || decide ((j : Int) = m))
  by_cases hbyte : j / 4 = m / 4
  · rw [if_pos hbyte, ← hbyte]
    by_cases heq : j = m
    · subst heq
      simp [or_and_self, mask_ne]
    · have hne : (j : Int) ≠ m := by omega
      rw [or_and_of_and _ (mask_and_mask (by omega))]
      simp [hne]
  · have hne : (j : Int) ≠ m := by
      rintro heq
      exact hbyte (by omega)
    rw [if_neg hbyte]
    simp [hne]

/-! ### The order of a range -/

/-- When an element moves back behind some others, these are the only places whose content changes, its own apart. -/
theorem getElem?_moved {A M B : List Int} {m : Int} (hnodup : (m :: M).Nodup) (k : Nat) :
    ((A ++ (M ++ m :: B))[k]? = (A ++ (m :: M ++ B))[k]? ∨ (A ++ (m :: M ++ B))[k]? = some m) ↔
      ¬(A.length < k ∧ k ≤ A.length + M.length) := by
  rcases Nat.lt_or_ge k A.length with hlt | hge
  · rw [List.getElem?_append_left hlt, List.getElem?_append_left hlt]
    exact iff_of_true (Or.inl rfl) (by omega)
  obtain ⟨k, rfl⟩ := Nat.exists_eq_add_of_le hge
  rw [List.getElem?_append_right hge, List.getElem?_append_right hge, Nat.add_sub_cancel_left]
  cases k with
  | zero => exact iff_of_true (Or.inr rfl) (by omega)
  | succ k =>
    have hold : (m :: M ++ B)[k + 1]? = (M ++ B)[k]? := rfl
    rw [hold]
    rcases Nat.lt_or_ge k M.length with hk | hk
    · rw [List.getElem?_append_left hk, List.getElem?_eq_getElem hk]
      refine iff_of_false ?_ (by omega)
      obtain ⟨hm, hM⟩ := List.nodup_cons.mp hnodup
      have hne : M[k] ≠ m := fun heq => hm (heq ▸ List.getElem_mem hk)
      rintro (hnew | hself)
      · rcases Nat.lt_or_ge (k + 1) M.length with hk1 | hk1
        · rw [List.getElem?_append_left hk1, List.getElem?_eq_getElem hk1] at hnew
          have hidx := hM.getElem_inj_iff.mp (Option.some.inj hnew)
          omega
        · have hlast : k + 1 - M.length = 0 := by omega
          rw [List.getElem?_append_right hk1, hlast] at hnew
          exact hne (Option.some.inj hnew).symm
      · exact hne (Option.some.inj hself)
    · rw [List.getElem?_append_right hk, List.getElem?_append_right (by omega)]
      have hsucc : k + 1 - M.length = k - M.length + 1 := by omega
      rw [hsucc]
      exact iff_of_true (Or.inl rfl) (by omega)

section
variable {bad bad' : Int → Bool} {s : Int}

theorem goods_congr {n : Nat} (h : ∀ i, s ≤ i → i < s + n → bad' i = bad i) : goods bad' s n = goods bad s n := by
  refine List.filter_congr fun i hi => ?_
  obtain ⟨hlow, hhigh⟩ := mem_upFrom.mp hi
  rw [h i hlow hhigh]

theorem bads_congr {n : Nat} (h : ∀ i, s ≤ i → i < s + n → bad' i = bad i) : bads bad' s n = bads bad s n := by
  refine List.filter_congr fun i hi => ?_
  obtain ⟨hlow, hhigh⟩ := mem_upFrom.mp hi
  rw [h i hlow hhigh]

theorem order_congr {n : Nat} (h : ∀ i, s ≤ i → i < s + n → bad' i = bad i) : order bad' s n = order bad s n := by
  rw [order, order, goods_congr h, bads_congr h]

theorem goods_split (bad : Int → Bool) (s : Int) (j l : Nat) :
    goods bad s (j + 1 + l) = goods bad s j ++ ((if bad (s + j) then [] else [s + j]) ++ goods bad (s + j + 1) l) := by
  have hnext : s + ((j + 1 : Nat) : Int) = s + j + 1 := by omega
  rw [goods, upFrom_add, upFrom_succ, hnext]
  cases hb : bad (s + j) <;> simp [goods, hb]

theorem bads_split (bad : Int → Bool) (s : Int) (j l : Nat) :
    bads bad s (j + 1 + l) = bads bad s j ++ ((if bad (s + j) then [s + j] else []) ++ bads bad (s + j + 1) l) := by
  have hnext : s + ((j + 1 : Nat) : Int) = s + j + 1 := by omega
  rw [bads, upFrom_add, upFrom_succ, hnext]
  cases hb : bad (s + j) <;> simp [bads, hb]

/-- The places of a range whose block changes when the block at offset `j` of it goes bad. -/
theorem order_moved {j l : Nat} (hgood : bad (s + j) = false) (hbad : ∀ i, s ≤ i → i < s + (j + 1 + l : Nat) → bad' i = (bad i || decide (i = s + j)))
    (k : Nat) : ((order bad' s (j + 1 + l))[k]? = (order bad s (j + 1 + l))[k]? ∨ (order bad s (j + 1 + l))[k]? = some (s + j)) ↔
      ¬((goods bad s j).length < k ∧ k ≤ (goods bad s j).length + ((goods bad (s + j + 1) l).length + (bads bad s j).length)) := by
  have hlow : ∀ i, s ≤ i → i < s + j → bad' i = bad i := fun i hi hi' => by
    have hne : i ≠ s + j := by omega
    rw [hbad i hi (by omega), decide_eq_false hne, Bool.or_false]
  have hhigh : ∀ i, s + j + 1 ≤ i → i < s + j + 1 + l → bad' i = bad i := fun i hi hi' => by
    have hne : i ≠ s + j := by omega
    rw [hbad i (by omega) (by omega), decide_eq_false hne, Bool.or_false]
  have hself : bad' (s + j) = true := by
    rw [hbad (s + j) (by omega) (by omega), decide_eq_true rfl, Bool.or_true]
  have hold : order bad s (j + 1 + l) =
      goods bad s j ++ ((s + j) :: (goods bad (s + j + 1) l ++ bads bad s j) ++ bads bad (s + j + 1) l) := by
    rw [order, goods_split, bads_split, hgood, if_neg Bool.false_ne_true, if_neg Bool.false_ne_true]
    simp only [List.append_assoc, List.cons_append, List.nil_append]
  have hnew : order bad' s (j + 1 + l) =
      goods bad s j ++ (goods bad (s + j + 1) l ++ bads bad s j ++ (s + j) :: bads bad (s + j + 1) l) := by
    rw [order, goods_split, bads_split, hself, if_pos rfl, if_pos rfl, goods_congr hlow, bads_congr hlow, goods_congr hhigh,
      bads_congr hhigh]
    simp only [List.append_assoc, List.cons_append, List.nil_append]
  have hnodup := @nodup_order bad s (j + 1 + l)
  rw [hold] at hnodup
  have hmid := (List.nodup_append.mp (List.nodup_append.mp hnodup).2.1).1
  rw [hold, hnew, getElem?_moved hmid k, List.length_append]

theorem getElem?_eq_middle {A B : List Int} {x : Int} (hnodup : (A ++ x :: B).Nodup) (k : Nat) :
    (A ++ x :: B)[k]? = some x ↔ k = A.length := by
  constructor
  · intro h
    obtain ⟨hk, heq⟩ := List.getElem?_eq_some_iff.mp h
    have hlen : A.length < (A ++ x :: B).length := by simp
    have hmid : (A ++ x :: B)[A.length] = x := by simp
    exact hnodup.getElem_inj_iff.mp (heq.trans hmid.symm)
  · rintro rfl
    simp

/-- The place of a block in the order of its range. -/
def rank (bad : Int → Bool) (s : Int) (n j : Nat) : Nat :=
  if bad (s + j) then (goods bad s n).length + (bads bad s j).length else (goods bad s j).length

theorem order_eq_iff {j n : Nat} (hj : j < n) (k : Nat) : (order bad s n)[k]? = some (s + j) ↔ k = rank bad s n j := by
  obtain ⟨l, rfl⟩ : ∃ l, n = j + 1 + l := ⟨n - (j + 1), by omega⟩
  have hnodup := @nodup_order bad s (j + 1 + l)
  unfold rank
  cases hb : bad (s + j) with
  | false =>
    have horder : order bad s (j + 1 + l) = goods bad s j ++ (s + j) :: (goods bad (s + j + 1) l ++ bads bad s (j + 1 + l)) := by
      rw [order, goods_split, hb, if_neg Bool.false_ne_true]
      simp only [List.append_assoc, List.cons_append, List.nil_append]
    rw [horder] at hnodup ⊢
    rw [getElem?_eq_middle hnodup, if_neg Bool.false_ne_true]
  | true =>
    have horder : order bad s (j + 1 + l) = (goods bad s (j + 1 + l) ++ bads bad s j) ++ (s + j) :: bads bad (s + j + 1) l := by
      rw [order, bads_split, hb, if_pos rfl]
      simp only [List.append_assoc, List.cons_append, List.nil_append]
    rw [horder] at hnodup ⊢
    rw [getElem?_eq_middle hnodup, if_pos rfl, List.length_append]

end

/-! ### The device -/

/-- A chip below 2 GiB with block numbers of 16 bits, and remap ranges of whole blocks that have no block in common. -/
structure Valid (g : Geometry) : Prop where
  blocks : g.totalBlks ≤ 2 ^ 16
  size : g.totalBlks * 2 ^ g.blkShift < 2 ^ 31
  configured : g.remapRange ≠ []
  aligned : ∀ r ∈ g.remapRange, ∃ s e, e ≤ g.totalBlks ∧ r.1.toNat = s * 2 ^ g.blkShift ∧ r.2.toNat = e * 2 ^ g.blkShift
  disjoint : g.remapRange.Pairwise fun r r' => r.2 ≤ r'.1 ∨ r'.2 ≤ r.1

section
variable {g : Geometry} {buf : Nat → UInt8} {b : Nat}

/-- A block lies in a range, or in none. -/
theorem Valid.cases (hg : Valid g) (hb : b < g.totalBlks) :
    (∃ s e, IsRange g s e ∧ e ≤ g.totalBlks ∧ s ≤ b ∧ b < e) ∨
    (mappingBlockInRange g b = none ∧ ∀ s e, IsRange g s e → ¬(s ≤ b ∧ b < e)) := by
  have hpos := Nat.two_pow_pos g.blkShift
  have hbig : b * 2 ^ g.blkShift < 2 ^ 31 := Nat.lt_trans (Nat.mul_lt_mul_of_pos_right hb hpos) hg.size
  have haddr : b * 2 ^ g.blkShift % 2 ^ 32 = b * 2 ^ g.blkShift := Nat.mod_eq_of_lt (by omega)
  cases hfind : g.remapRange.find? fun r => r.1.toNat ≤ b * 2 ^ g.blkShift ∧ b * 2 ^ g.blkShift < r.2.toNat with
  | some r =>
    left
    have hr : r ∈ g.remapRange := List.mem_of_find?_eq_some hfind
    obtain ⟨s, e, he, hstart, hstop⟩ := hg.aligned r hr
    obtain ⟨hlow, hhigh⟩ : r.1.toNat ≤ b * 2 ^ g.blkShift ∧ b * 2 ^ g.blkShift < r.2.toNat := by simpa using List.find?_some hfind
    obtain ⟨pre, post, hsplit⟩ := List.append_of_mem hr
    have hend : r.2.toNat < 2 ^ 31 := by
      rw [hstop]
      exact Nat.lt_of_le_of_lt (Nat.mul_le_mul_right _ he) hg.size
    refine ⟨s, e, ⟨pre, r, post, hsplit, hstart, hstop, hend, fun r' hr' b' hs hlt hin => ?_⟩, he, ?_, ?_⟩
    · have hdisjoint := hg.disjoint
      rw [hsplit] at hdisjoint
      have hle : s * 2 ^ g.blkShift ≤ b' * 2 ^ g.blkShift := Nat.mul_le_mul_right _ hs
      have hlt' : b' * 2 ^ g.blkShift < e * 2 ^ g.blkShift := Nat.mul_lt_mul_of_pos_right hlt hpos
      rcases (List.pairwise_append.mp hdisjoint).2.2 r' hr' r (List.mem_cons_self) with hle' | hle'
      · have := UInt32.le_iff_toNat_le.mp hle'
        omega
      · have := UInt32.le_iff_toNat_le.mp hle'
        omega
    · rw [hstart] at hlow
      exact Nat.le_of_mul_le_mul_right hlow hpos
    · rw [hstop] at hhigh
      exact Nat.lt_of_mul_lt_mul_right hhigh
  | none =>
    right
    have hne : g.remapRange.isEmpty = false := by simpa using hg.configured
    have hnone : mappingBlockInRange g b = none := by
      unfold mappingBlockInRange
      dsimp only
      rw [haddr, hne, if_neg Bool.false_ne_true, hfind, Option.map_none]
    refine ⟨hnone, fun s e hrange hin => ?_⟩
    rw [hrange.inRange hin.1 hin.2] at hnone
    cases hnone

/-- A block is in one range only. -/
theorem IsRange.unique {s e s' e' : Nat} (h : IsRange g s e) (h' : IsRange g s' e') (hin : s ≤ b ∧ b < e) (hin' : s' ≤ b ∧ b < e') :
    s = s' ∧ e = e' := by
  have heq := (h.inRange hin.1 hin.2).symm.trans (h'.inRange hin'.1 hin'.2)
  have hpos := Nat.two_pow_pos g.blkShift
  simp only [Option.some.injEq, Prod.mk.injEq] at heq
  exact ⟨Nat.eq_of_mul_eq_mul_right hpos (Int.ofNat_inj.mp heq.1), Nat.eq_of_mul_eq_mul_right hpos (Int.ofNat_inj.mp heq.2)⟩

theorem mapping_of_none (h : mappingBlockInRange g b = none) : getMappingBlockIndex g buf b = b := by
  rw [getMappingBlockIndex, h]

/-- The place of a logical block in the order of its range. -/
theorem IsRange.getElem? {s e : Nat} (h : IsRange g s e) (hs : s ≤ b) (he : b < e) :
    (order (blockIsBad buf) s (e - s))[b - s]? = some (getMappingBlockIndex g buf b) := by
  obtain ⟨k, rfl⟩ := Nat.exists_eq_add_of_le hs
  rw [Nat.add_sub_cancel_left, h.mapping k (by omega)]
  exact List.getElem?_eq_getElem _

/-- A logical block stays in its range. -/
theorem IsRange.bounds {s e : Nat} (h : IsRange g s e) (hs : s ≤ b) (he : b < e) :
    (s : Int) ≤ getMappingBlockIndex g buf b ∧ getMappingBlockIndex g buf b < e := by
  have hmem := mem_order.mp (List.mem_of_getElem? (@IsRange.getElem? g buf b s e h hs he))
  omega

/-- The logical block `b` has its data in block `x`, told from the table alone. -/
def Holds (g : Geometry) (buf : Nat → UInt8) (b x : Nat) : Prop :=
  (∃ s e, IsRange g s e ∧ s ≤ x ∧ x < e ∧ b = s + rank (blockIsBad buf) s (e - s) (x - s)) ∨
  ((∀ s e, IsRange g s e → ¬(s ≤ x ∧ x < e)) ∧ b = x)

theorem mapping_eq_iff (hg : Valid g) (hb : b < g.totalBlks) (x : Nat) : getMappingBlockIndex g buf b = x ↔ Holds g buf b x := by
  have hoffset : ∀ s, s ≤ x → (s : Int) + (x - s : Nat) = x := fun s hs => by omega
  constructor
  · intro heq
    rcases hg.cases hb with ⟨s, e, hrange, -, hs, he⟩ | ⟨hnone, hout⟩
    · obtain ⟨hlow, hhigh⟩ := @IsRange.bounds g buf b s e hrange hs he
      have hget := @IsRange.getElem? g buf b s e hrange hs he
      rw [heq, ← hoffset s (by omega)] at hget
      have hrank := (order_eq_iff (by omega) _).mp hget
      exact Or.inl ⟨s, e, hrange, by omega, by omega, by omega⟩
    · rw [mapping_of_none hnone] at heq
      obtain rfl := Int.ofNat_inj.mp heq
      exact Or.inr ⟨hout, rfl⟩
  · rintro (⟨s, e, hrange, hs, he, rfl⟩ | ⟨hout, rfl⟩)
    · have hget := (@order_eq_iff (blockIsBad buf) s (x - s) (e - s) (by omega) _).mpr rfl
      obtain ⟨hlt, -⟩ := List.getElem?_eq_some_iff.mp hget
      rw [length_order] at hlt
      have hlt' : s + rank (blockIsBad buf) s (e - s) (x - s) < e := by omega
      have hmap := @IsRange.getElem? g buf _ s e hrange (Nat.le_add_right s _) hlt'
      rw [Nat.add_sub_cancel_left, hget, hoffset s hs] at hmap
      exact (Option.some.inj hmap).symm
    · rcases hg.cases hb with ⟨s, e, hrange, -, hs, he⟩ | ⟨hnone, -⟩
      · exact absurd ⟨hs, he⟩ (hout s e hrange)
      · exact mapping_of_none hnone

theorem Holds.unique {b' x : Nat} (h : Holds g buf b x) (h' : Holds g buf b' x) : b = b' := by
  rcases h with ⟨s, e, hrange, hs, he, rfl⟩ | ⟨hout, rfl⟩ <;> rcases h' with ⟨s', e', hrange', hs', he', rfl⟩ | ⟨hout', rfl⟩
  · obtain ⟨rfl, rfl⟩ := hrange.unique hrange' ⟨hs, he⟩ ⟨hs', he'⟩
    rfl
  · exact absurd ⟨hs, he⟩ (hout' s e hrange)
  · exact absurd ⟨hs', he'⟩ (hout s' e' hrange')
  · rfl

/-- A logical block of the chip is held by a block of the chip. -/
theorem Valid.holds (hg : Valid g) (buf : Nat → UInt8) (hb : b < g.totalBlks) :
    ∃ x < g.totalBlks, getMappingBlockIndex g buf b = x := by
  rcases hg.cases hb with ⟨s, e, hrange, hend, hs, he⟩ | ⟨hnone, -⟩
  · obtain ⟨hlow, hhigh⟩ := @IsRange.bounds g buf b s e hrange hs he
    exact ⟨(getMappingBlockIndex g buf b).toNat, by omega, by omega⟩
  · exact ⟨b, hb, mapping_of_none hnone⟩

theorem mapping_injective (hg : Valid g) {b' : Nat} (hb : b < g.totalBlks) (hb' : b' < g.totalBlks)
    (heq : getMappingBlockIndex g buf b = getMappingBlockIndex g buf b') : b = b' := by
  obtain ⟨x, -, hx⟩ := hg.holds buf hb
  exact ((mapping_eq_iff hg hb x).mp hx).unique ((mapping_eq_iff hg hb' x).mp (heq.symm.trans hx))

/-! ### One more bad block -/

/-- The logical blocks whose data is elsewhere once block `m` is marked: as many behind that of `m` as there are good blocks above
    `m` and bad blocks below it in its range. -/
def Moved (g : Geometry) (buf : Nat → UInt8) (m b : Nat) : Prop :=
  ∃ s e, IsRange g s e ∧ s ≤ m ∧ m < e ∧ blockIsBad buf m = false ∧
    s + (goods (blockIsBad buf) s (m - s)).length < b ∧
    b ≤ s + (goods (blockIsBad buf) s (m - s)).length +
      ((goods (blockIsBad buf) (m + 1) (e - m - 1)).length + (bads (blockIsBad buf) s (m - s)).length)

theorem Moved.mem {m : Nat} (h : Moved g buf m b) : ∃ s e, IsRange g s e ∧ (s ≤ m ∧ m < e) ∧ s ≤ b ∧ b < e := by
  obtain ⟨s, e, hrange, hs, he, -, hlow, hhigh⟩ := h
  have hbelow := @length_goods_bads (blockIsBad buf) s (m - s)
  have habove := @length_goods_bads (blockIsBad buf) (m + 1) (e - m - 1)
  exact ⟨s, e, hrange, ⟨hs, he⟩, by omega, by omega⟩

theorem not_moved_iff (hg : Valid g) (hb : b < g.totalBlks) {m : Nat} {buf' : Nat → UInt8}
    (hbuf : ∀ i, blockIsBad buf' i = (blockIsBad buf i || decide (i % 2 ^ 16 = m))) :
    (getMappingBlockIndex g buf' b = getMappingBlockIndex g buf b ∨ getMappingBlockIndex g buf b = m) ↔ ¬Moved g buf m b := by
  have hblocks := hg.blocks
  rcases hg.cases hb with ⟨s, e, hrange, hend, hs, he⟩ | ⟨hnone, hout⟩
  · have hget := @IsRange.getElem? g buf b s e hrange hs he
    have hget' := @IsRange.getElem? g buf' b s e hrange hs he
    have hbuf' : ∀ i : Int, (s : Int) ≤ i → i < s + (e - s : Nat) → blockIsBad buf' i = (blockIsBad buf i || decide (i = m)) :=
      fun i hi hi' => by
        have hmod : i % 2 ^ 16 = i := Int.emod_eq_of_lt (by omega) (by omega)
        rw [hbuf i, hmod]
    -- the order of the range stays unless `m` is a good block of it
    have hsame : (∀ i : Int, (s : Int) ≤ i → i < s + (e - s : Nat) → i = m → blockIsBad buf i = true) →
        getMappingBlockIndex g buf' b = getMappingBlockIndex g buf b := by
      intro hbad
      have horder : order (blockIsBad buf') s (e - s) = order (blockIsBad buf) s (e - s) := by
        refine order_congr fun i hi hi' => ?_
        rw [hbuf' i hi hi']
        by_cases him : i = m
        · rw [hbad i hi hi' him, Bool.true_or]
        · rw [decide_eq_false him, Bool.or_false]
      rw [horder, hget] at hget'
      exact (Option.some.inj hget').symm
    by_cases hin : s ≤ m ∧ m < e
    · cases hm : blockIsBad buf m with
      | true =>
        refine iff_of_true (Or.inl (hsame fun i _ _ him => him ▸ hm)) ?_
        rintro ⟨-, -, -, -, -, hgood, -⟩
        rw [hm] at hgood
        cases hgood
      | false =>
        have hj : (s : Int) + (m - s : Nat) = m := by omega
        have hn : m - s + 1 + (e - m - 1) = e - s := by omega
        have hmoved := @order_moved (blockIsBad buf) (blockIsBad buf') s (m - s) (e - m - 1) (by rw [hj]; exact hm)
          (fun i hi hi' => by
            rw [hj]
            exact hbuf' i hi (by omega)) (b - s)
        rw [hn, hj, hget, hget', Option.some.injEq, Option.some.injEq] at hmoved
        rw [hmoved]
        refine not_congr ⟨fun h => ⟨s, e, hrange, hin.1, hin.2, hm, by omega, by omega⟩, ?_⟩
        rintro ⟨s', e', hrange', hs', he', -, hlow, hhigh⟩
        obtain ⟨rfl, rfl⟩ := hrange'.unique hrange ⟨hs', he'⟩ hin
        omega
    · refine iff_of_true (Or.inl (hsame fun i hi hi' him => absurd hin ?_)) fun h => ?_
      · omega
      · obtain ⟨s', e', hrange', hin', hb'⟩ := h.mem
        obtain ⟨rfl, rfl⟩ := hrange'.unique hrange hb' ⟨hs, he⟩
        exact hin hin'
  · refine iff_of_true (Or.inl ((mapping_of_none hnone).trans (mapping_of_none hnone).symm)) fun h => ?_
    obtain ⟨s', e', hrange', -, hb'⟩ := h.mem
    exact hout s' e' hrange' hb'

end

/-! ### Remapping -/

/-- Every other logical block of the device that is not in block `m` still has its data, in the same place. -/
def KeepsOthers (g : Geometry) (env : Env) (s : State) (block m : Nat) (copyLen : Int) : Prop :=
  ∀ b < g.totalBlks - 4, b ≠ block → getMappingBlockIndex g s.buf b ≠ m →
    let s' := (remapBlock g env { s with erased := [] } block m copyLen).2
    getMappingBlockIndex g s'.buf b = getMappingBlockIndex g s.buf b ∧
    getMappingBlockIndex g s.buf b ∉ s'.erased ∧
    s'.flash (getMappingBlockIndex g s.buf b) = s.flash (getMappingBlockIndex g s.buf b)

/-- What remapping does: the block of the table and the new block are erased, and only they change. -/
theorem remapBlock_spec (g : Geometry) (env : Env) (s : State) (block m : Nat) (copyLen : Int)
    (htrue : (remapBlock g env s block m copyLen).1 = true) :
    let s' := (remapBlock g env s block m copyLen).2
    s'.buf = (setBlockState env s m true).buf ∧
    s'.erased = s.erased ++ [(s.bmtBlkIdx : Int), getMappingBlockIndex g (setBlockState env s m true).buf block % 2 ^ 16] ∧
    ∀ i : Int, i ≠ s.bmtBlkIdx → i ≠ getMappingBlockIndex g (setBlockState env s m true).buf block % 2 ^ 16 →
      s'.flash i = s.flash i := by
  have hset : ∀ i : Int, i ≠ s.bmtBlkIdx → (setBlockState env s m true).flash i = s.flash i := fun i hi => by
    simp [setBlockState, nandErase, hi]
  have herased : (setBlockState env s m true).erased = s.erased ++ [(s.bmtBlkIdx : Int)] := rfl
  revert htrue
  unfold remapBlock
  cases mappingBlockInRange g block with
  | none => exact fun h => nomatch h
  | some range =>
    dsimp only
    intro _
    split
    · refine ⟨rfl, ?_, fun i hidx hnew => ?_⟩
      · simp only [nandErase, herased, List.append_assoc, List.cons_append, List.nil_append]
      · dsimp only
        rw [if_neg hnew]
        simp only [nandErase]
        rw [if_neg hnew, hset i hidx]
    · refine ⟨rfl, ?_, fun i hidx hnew => ?_⟩
      · simp only [nandErase, herased, List.append_assoc, List.cons_append, List.nil_append]
      · simp only [nandErase]
        rw [if_neg hnew, hset i hidx]

/-- Remapping keeps the other logical blocks if and only if none of them moves, and none has its data in the block of the table. -/
theorem remap_frame_iff (g : Geometry) (hg : Valid g) (env : Env) (s : State) (block m : Nat) (hblock : block < g.totalBlks)
    (copyLen : Int) (htrue : (remapBlock g env { s with erased := [] } block m copyLen).1 = true) :
    KeepsOthers g env s block m copyLen ↔
      ∀ b < g.totalBlks - 4, b ≠ block → ¬Moved g s.buf m b ∧ (Holds g s.buf b s.bmtBlkIdx → s.bmtBlkIdx = m) := by
  obtain ⟨hbuf, herased, hflash⟩ := remapBlock_spec g env { s with erased := [] } block m copyLen htrue
  have hmark := blockIsBad_setBlockState env { s with erased := [] } m
  unfold KeepsOthers
  dsimp only at hmark hflash ⊢
  rw [← hbuf] at hmark hflash herased
  generalize hs' : (remapBlock g env { s with erased := [] } block m copyLen).2 = s' at hbuf herased hflash hmark ⊢
  constructor
  · intro h b hb hne
    have hb' : b < g.totalBlks := by omega
    by_cases hbm : getMappingBlockIndex g s.buf b = m
    · refine ⟨(not_moved_iff hg hb' hmark).mp (Or.inr hbm), fun hidx => ?_⟩
      exact Int.ofNat_inj.mp (((mapping_eq_iff hg hb' _).mpr hidx).symm.trans hbm)
    · obtain ⟨hmap, hkept, -⟩ := h b hb hne hbm
      refine ⟨(not_moved_iff hg hb' hmark).mp (Or.inl hmap), fun hidx => ?_⟩
      rw [(mapping_eq_iff hg hb' _).mpr hidx, herased] at hkept
      exact absurd List.mem_cons_self hkept
  · intro h b hb hne hbm
    obtain ⟨hmoved, hidx⟩ := h b hb hne
    have hb' : b < g.totalBlks := by omega
    have hmap := ((not_moved_iff hg hb' hmark).mpr hmoved).resolve_right hbm
    have hne_idx : getMappingBlockIndex g s.buf b ≠ s.bmtBlkIdx := fun heq => by
      rw [hidx ((mapping_eq_iff hg hb' _).mp heq)] at heq
      exact hbm heq
    have hne_new : getMappingBlockIndex g s.buf b ≠ getMappingBlockIndex g s'.buf block % 2 ^ 16 := fun heq => by
      obtain ⟨x, hx, hnew⟩ := hg.holds s'.buf hblock
      have hblocks := hg.blocks
      have hmod : (x : Int) % 2 ^ 16 = x := Int.emod_eq_of_lt (by omega) (by omega)
      rw [hnew, hmod, ← hmap] at heq
      exact hne (mapping_injective hg hb' hblock (heq.trans hnew.symm))
    refine ⟨hmap, ?_, hflash _ hne_idx hne_new⟩
    rw [herased]
    exact List.not_mem_cons_of_ne_of_not_mem hne_idx (List.not_mem_cons_of_ne_of_not_mem hne_new List.not_mem_nil)

theorem valid_oneRange : Valid oneRange where
  blocks := by decide
  size := by decide
  configured := nofun
  aligned := by
    intro r hr
    obtain rfl := List.mem_singleton.mp hr
    exact ⟨0, 4, by decide, rfl, rfl⟩
  disjoint := List.pairwise_singleton _ _

/-- An erasure leaves nothing, a copy everything. -/
def plain : Env := { afterErase := fun _ => [], writeBmt := fun _ bytes => bytes, copy := fun _ bytes _ => bytes }

/-- A chip without a bad block, whose table is in the last block. -/
def allGood : State := { flash := fun b => [UInt8.ofNat b.toNat], buf := fun _ => 0, bmtBlkIdx := 1023 }

theorem remap_frame_iff_one : KeepsOthers oneRange plain allGood 1 1 0x20000 ↔
    ∀ b < 1020, b ≠ 1 → ¬Moved oneRange allGood.buf 1 b ∧ (Holds oneRange allGood.buf b 1023 → 1023 = 1) :=
  remap_frame_iff oneRange valid_oneRange plain allGood 1 1 (by decide) 0x20000 (by decide)

/-- When block 1 goes bad, block 2 is then read from block 3. -/
theorem remap_not_frame : ¬∀ (g : Geometry) (env : Env) (s : State) (block m : Nat) (copyLen : Int), Valid g → block < g.totalBlks →
    (remapBlock g env { s with erased := [] } block m copyLen).1 = true → KeepsOthers g env s block m copyLen := by
  intro h
  have hmap := (h oneRange plain allGood 1 1 0x20000 valid_oneRange (by decide) (by decide) 2 (by decide) (by decide)
    (by decide)).1
  exact absurd hmap (by decide)

end RainWrt.Bmt.Bbt
