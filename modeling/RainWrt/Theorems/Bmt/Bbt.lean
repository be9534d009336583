import RainWrt.Bmt.Bbt

/-! The mapping of a remap range: its good blocks come first, then its bad ones, each in increasing order. -/

namespace RainWrt.Bmt

/-! ### Consecutive blocks -/

/-- So many blocks from `i` on. -/
def upFrom (i : Int) : Nat → List Int
  | 0 => []
  | n + 1 => i :: upFrom (i + 1) n

theorem length_upFrom (i : Int) (n : Nat) : (upFrom i n).length = n := by
  induction n generalizing i with
  | zero => rfl
  | succ n ih => rw [upFrom, List.length_cons, ih]

theorem mem_upFrom {i j : Int} {n : Nat} : j ∈ upFrom i n ↔ i ≤ j ∧ j < i + n := by
  induction n generalizing i with
  | zero => simp [upFrom]
  | succ n ih =>
    rw [upFrom, List.mem_cons, ih]
    push_cast
    omega

theorem upFrom_succ (i : Int) (n : Nat) : upFrom i (n + 1) = upFrom i n ++ [i + n] := by
  induction n generalizing i with
  | zero => simp [upFrom]
  | succ n ih =>
    rw [upFrom, ih (i + 1), upFrom, List.cons_append]
    push_cast
    rw [Int.add_assoc, Int.add_comm 1]

theorem pairwise_upFrom (i : Int) (n : Nat) : (upFrom i n).Pairwise (· < ·) := by
  induction n generalizing i with
  | zero => exact .nil
  | succ n ih =>
    refine .cons (fun j hj => ?_) (ih (i + 1))
    have hlow := (mem_upFrom.mp hj).1
    omega

namespace Bbt
variable {bad : Int → Bool}

def goods (bad : Int → Bool) (i : Int) (n : Nat) : List Int := (upFrom i n).filter fun b => !bad b

def bads (bad : Int → Bool) (i : Int) (n : Nat) : List Int := (upFrom i n).filter bad

theorem length_goods_bads (i : Int) (n : Nat) : (goods bad i n).length + (bads bad i n).length = n := by
  have h := List.length_eq_length_filter_add bad (l := upFrom i n)
  rw [length_upFrom] at h
  rw [goods, bads, Nat.add_comm]
  exact h.symm

/-! ### The two loops -/

/-- The first loop stops at the good block of the offset, if there are enough of them. -/
theorem skipBad_lt (n : Nat) (i badBlocks : Int) (k : Nat) (h : k < (goods bad i n).length) :
    (skipBad bad n i k badBlocks).1 = (goods bad i n)[k] := by
  induction n generalizing i badBlocks k with
  | zero => simp [goods, upFrom] at h
  | succ n ih =>
    unfold skipBad
    cases hb : bad i with
    | true =>
      have hgoods : goods bad i (n + 1) = goods bad (i + 1) n := by simp [goods, upFrom, hb]
      simp only [hgoods] at h ⊢
      exact ih (i + 1) (badBlocks + 1) k h
    | false =>
      have hgoods : goods bad i (n + 1) = i :: goods bad (i + 1) n := by simp [goods, upFrom, hb]
      simp only [hgoods] at h ⊢
      cases k with
      | zero => rfl
      | succ k =>
        have hk : ((k + 1 : Nat) : Int) - 1 = k := by omega
        rw [if_neg Bool.false_ne_true, if_pos (by omega), hk]
        exact ih (i + 1) badBlocks k (by simpa using h)

/-- Otherwise it counts all bad blocks. -/
theorem skipBad_ge (n : Nat) (i badBlocks : Int) (k : Nat) (h : (goods bad i n).length ≤ k) :
    skipBad bad n i k badBlocks = (i + n, (k : Int) - (goods bad i n).length, badBlocks + (bads bad i n).length) := by
  induction n generalizing i badBlocks k with
  | zero => simp [skipBad, goods, bads, upFrom]
  | succ n ih =>
    unfold skipBad
    cases hb : bad i with
    | true =>
      have hgoods : goods bad i (n + 1) = goods bad (i + 1) n := by simp [goods, upFrom, hb]
      have hbads : bads bad i (n + 1) = i :: bads bad (i + 1) n := by simp [bads, upFrom, hb]
      rw [hgoods] at h ⊢
      rw [if_pos rfl, ih (i + 1) (badBlocks + 1) k h, hbads, List.length_cons]
      push_cast
      rw [Int.add_assoc, Int.add_assoc, Int.add_comm 1, Int.add_comm 1]
    | false =>
      have hgoods : goods bad i (n + 1) = i :: goods bad (i + 1) n := by simp [goods, upFrom, hb]
      have hbads : bads bad i (n + 1) = bads bad (i + 1) n := by simp [bads, upFrom, hb]
      rw [hgoods, List.length_cons] at h ⊢
      obtain ⟨k, rfl⟩ : ∃ k', k = k' + 1 := ⟨k - 1, by omega⟩
      have hk : ((k + 1 : Nat) : Int) - 1 = k := by omega
      rw [if_neg Bool.false_ne_true, if_pos (by omega), hk, ih (i + 1) badBlocks k (by omega), hbads]
      push_cast
      refine Prod.ext ?_ (Prod.ext ?_ rfl)
      · dsimp only
        omega
      · dsimp only
        omega

/-- The second loop meets the bad blocks from the last one down. -/
theorem remapBad_eq (n : Nat) (i : Int) (k : Nat) (hk : k < (bads bad i n).length) :
    remapBad bad k n (i + n - 1) (bads bad i n).length = some ((bads bad i n)[k]) := by
  induction n with
  | zero => simp [bads, upFrom] at hk
  | succ n ih =>
    have hlast : i + ((n + 1 : Nat) : Int) - 1 = i + n := by omega
    have hprev : i + (n : Int) - 1 = i + ((n + 1 : Nat) : Int) - 1 - 1 := by omega
    unfold remapBad
    rw [if_neg (by omega), hlast]
    cases hb : bad (i + n) with
    | false =>
      have hbads : bads bad i (n + 1) = bads bad i n := by simp [bads, upFrom_succ, hb]
      simp only [hbads] at hk ⊢
      exact ih hk
    | true =>
      have hbads : bads bad i (n + 1) = bads bad i n ++ [i + n] := by simp [bads, upFrom_succ, hb]
      simp only [hbads, List.length_append, List.length_singleton] at hk ⊢
      rw [if_neg (by simp)]
      by_cases hlt : k < (bads bad i n).length
      · rw [if_neg (by omega), List.getElem_append_left hlt]
        have hcount : ((((bads bad i n).length + 1 : Nat) : Int)) - 1 = ((bads bad i n).length : Int) := by omega
        rw [hcount]
        exact ih hlt
      · have heq : k = (bads bad i n).length := by omega
        subst heq
        rw [if_pos (by omega)]
        simp

/-- A range in the order in which it is mapped: first its good blocks, then its bad ones. -/
def order (bad : Int → Bool) (i : Int) (n : Nat) : List Int := goods bad i n ++ bads bad i n

theorem length_order (i : Int) (n : Nat) : (order bad i n).length = n := by
  rw [order, List.length_append, length_goods_bads]

theorem mem_order {i j : Int} {n : Nat} : j ∈ order bad i n ↔ i ≤ j ∧ j < i + n := by
  rw [order, List.mem_append, goods, bads, List.mem_filter, List.mem_filter, mem_upFrom, ← and_or_left]
  cases bad j <;> simp

theorem nodup_order (i : Int) (n : Nat) : (order bad i n).Nodup := by
  have hnodup : (upFrom i n).Nodup := (pairwise_upFrom i n).imp fun h => Int.ne_of_lt h
  refine List.nodup_append.mpr ⟨hnodup.filter _, hnodup.filter _, fun a ha b hb heq => ?_⟩
  have hgood := (List.mem_filter.mp ha).2
  have hbad := (List.mem_filter.mp hb).2
  rw [← heq] at hbad
  simp [hbad] at hgood

theorem mapIn_eq (s : Int) (n k : Nat) (hk : k < n) :
    mapIn bad s (s + n) (s + k) = getElem (order bad s n) k ((length_order s n).symm ▸ hk) := by
  have hn : (s + n - s).toNat = n := by omega
  have hofs : s + k - s = k := by omega
  have hlen := @length_goods_bads bad s n
  unfold mapIn
  rw [hn, hofs]
  by_cases h : k < (goods bad s n).length
  · have hi := skipBad_lt n s 0 k h
    have hmem : (goods bad s n)[k] ∈ upFrom s n := (List.mem_filter.mp (List.getElem_mem h)).1
    dsimp only
    rw [hi, if_pos (mem_upFrom.mp hmem).2]
    simp only [order]
    rw [List.getElem_append_left h]
  · have hge : (goods bad s n).length ≤ k := Nat.not_lt.mp h
    have hsub : (k : Int) - (goods bad s n).length = ((k - (goods bad s n).length : Nat) : Int) := by omega
    rw [skipBad_ge n s 0 k hge]
    dsimp only
    rw [if_neg (Int.lt_irrefl _), hsub, Int.zero_add, remapBad_eq n s _ (by omega)]
    simp only [order, Option.getD_some]
    rw [List.getElem_append_right hge]

/-! ### Remap ranges -/

/-- The blocks from `s` to `e` are a remap range. -/
def Configured (g : Geometry) (s e : Nat) : Prop :=
  ∃ r ∈ g.remapRange, r.1.toNat = s * 2 ^ g.blkShift ∧ r.2.toNat = e * 2 ^ g.blkShift

/-- A remap range whose end is below 2 GiB, and of which no earlier range has a block. -/
def IsRange (g : Geometry) (s e : Nat) : Prop :=
  ∃ pre r post, g.remapRange = pre ++ r :: post ∧ r.1.toNat = s * 2 ^ g.blkShift ∧ r.2.toNat = e * 2 ^ g.blkShift ∧ r.2.toNat < 2 ^ 31 ∧
    ∀ r' ∈ pre, ∀ b, s ≤ b → b < e → ¬(r'.1.toNat ≤ b * 2 ^ g.blkShift ∧ b * 2 ^ g.blkShift < r'.2.toNat)

section
variable {g : Geometry} {s e b : Nat} {buf : Nat → UInt8}

theorem toInt_of_lt {x : UInt32} (h : x.toNat < 2 ^ 31) : toInt x = x.toNat := if_pos h

theorem shiftRight_mul (a n : Nat) : ((a * 2 ^ n : Nat) : Int) >>> n = a := by
  rw [Int.shiftRight_eq_div_pow]
  push_cast
  exact Int.mul_ediv_cancel _ (Int.ne_of_gt (Int.pow_pos (by decide)))

theorem IsRange.inRange (h : IsRange g s e) (hs : s ≤ b) (he : b < e) :
    mappingBlockInRange g b = some (((s * 2 ^ g.blkShift : Nat) : Int), ((e * 2 ^ g.blkShift : Nat) : Int)) := by
  obtain ⟨pre, r, post, hranges, hstart, hstop, hsmall, hpre⟩ := h
  have hlow : s * 2 ^ g.blkShift ≤ b * 2 ^ g.blkShift := Nat.mul_le_mul_right _ hs
  have hhigh : b * 2 ^ g.blkShift < e * 2 ^ g.blkShift := Nat.mul_lt_mul_of_pos_right he (Nat.two_pow_pos _)
  have haddr : b * 2 ^ g.blkShift % 2 ^ 32 = b * 2 ^ g.blkShift := Nat.mod_eq_of_lt (by omega)
  have hfind : (g.remapRange.find? fun r => r.1.toNat ≤ b * 2 ^ g.blkShift ∧ b * 2 ^ g.blkShift < r.2.toNat) = some r := by
    rw [hranges, List.find?_append, List.find?_eq_none.mpr, Option.none_or, List.find?_cons_of_pos]
    · exact decide_eq_true ⟨hstart.trans_le hlow, hhigh.trans_eq hstop.symm⟩
    · intro r' hr'
      simpa using hpre r' hr' b hs he
  have hne : g.remapRange.isEmpty = false := by
    rw [hranges]
    simp
  unfold mappingBlockInRange
  dsimp only
  rw [haddr, hne, if_neg Bool.false_ne_true, hfind, Option.map_some, toInt_of_lt hsmall, toInt_of_lt (by omega), hstart, hstop]

/-- The logical blocks of a range get its blocks in order. -/
theorem IsRange.mapping (h : IsRange g s e) (k : Nat) (hk : k < e - s) :
    getMappingBlockIndex g buf (s + k) = getElem (order (blockIsBad buf) s (e - s)) k ((length_order _ _).symm ▸ hk) := by
  unfold getMappingBlockIndex
  rw [h.inRange (Nat.le_add_right s k) (by omega)]
  dsimp only
  rw [shiftRight_mul, shiftRight_mul]
  have he : (e : Int) = s + ((e - s : Nat) : Int) := by omega
  rw [he]
  exact_mod_cast @mapIn_eq (blockIsBad buf) s (e - s) k hk

end

/-- The mapping of a remap range is a permutation of it that sends the first logical blocks to the good blocks in increasing
    order, and the others to the bad ones. -/
theorem mapping_permutes (g : Geometry) (buf : Nat → UInt8) (s e : Nat) (h : IsRange g s e) :
    Set.BijOn (getMappingBlockIndex g buf) {b | s ≤ b ∧ b < e} {i : Int | (s : Int) ≤ i ∧ i < e} ∧
    (∀ (k : Nat) (hk : k < (goods (blockIsBad buf) s (e - s)).length),
      getMappingBlockIndex g buf (s + k) = (goods (blockIsBad buf) s (e - s))[k]) ∧
    ∀ k, (goods (blockIsBad buf) s (e - s)).length ≤ k → k < e - s → blockIsBad buf (getMappingBlockIndex g buf (s + k)) = true := by
  have hlen : (order (blockIsBad buf) s (e - s)).length = e - s := length_order _ _
  have hsplit : ∀ b, s ≤ b ∧ b < e → ∃ k, b = s + k ∧ k < e - s := fun b hb => ⟨b - s, by omega, by omega⟩
  refine ⟨⟨fun b hb => ?_, fun b hb b' hb' heq => ?_, fun i hi => ?_⟩, fun k hk => ?_, fun k hge hk => ?_⟩
  · obtain ⟨k, rfl, hk⟩ := hsplit b hb
    rw [h.mapping k hk]
    have hmem := mem_order.mp (List.getElem_mem (l := order (blockIsBad buf) s (e - s)) (by rw [hlen]; exact hk))
    refine ⟨hmem.1, ?_⟩
    omega
  · obtain ⟨k, rfl, hk⟩ := hsplit b hb
    obtain ⟨k', rfl, hk'⟩ := hsplit b' hb'
    rw [h.mapping k hk, h.mapping k' hk'] at heq
    rw [(nodup_order _ _).getElem_inj_iff.mp heq]
  · have hmem : i ∈ order (blockIsBad buf) s (e - s) := by
      rw [mem_order]
      have := hi.1
      have := hi.2
      omega
    obtain ⟨k, hk, heq⟩ := List.getElem_of_mem hmem
    rw [hlen] at hk
    exact ⟨s + k, ⟨by omega, by omega⟩, (h.mapping k hk).trans heq⟩
  · have hle := @length_goods_bads (blockIsBad buf) s (e - s)
    rw [h.mapping k (by omega)]
    exact List.getElem_append_left hk
  · have hle := @length_goods_bads (blockIsBad buf) s (e - s)
    rw [h.mapping k hk]
    simp only [order]
    rw [List.getElem_append_right hge]
    exact (List.mem_filter.mp (List.getElem_mem _)).2

/-- A chip of 1024 blocks of 128 KiB with one remap range. -/
def oneRange : Geometry := { blkShift := 17, totalBlks := 1024, remapRange := [(0, 0x80000)] }

/-- Block 3 is bad. -/
def thirdBad : Nat → UInt8 := fun k => if k = 0 then 0xc0 else 0

theorem mapping_permutes_one : Set.BijOn (getMappingBlockIndex oneRange thirdBad) {b | 0 ≤ b ∧ b < 4} {i : Int | ((0 : Nat) : Int) ≤ i ∧ i < (4 : Nat)} :=
  (mapping_permutes oneRange thirdBad 0 4 ⟨[], (0, 0x80000), [], rfl, rfl, rfl, by decide, nofun⟩).1

/-- A block of two ranges is mapped by the first one, and then the second one maps another block to the same place. -/
theorem mapping_not_permutes : ¬∀ (g : Geometry) (buf : Nat → UInt8) (s e : Nat), Configured g s e →
    Set.BijOn (getMappingBlockIndex g buf) {b | s ≤ b ∧ b < e} {i : Int | (s : Int) ≤ i ∧ i < e} := by
  intro h
  have hbij := h { oneRange with remapRange := [(0, 0x80000), (0x40000, 0xc0000)] } thirdBad 2 6
    ⟨(0x40000, 0xc0000), by simp, rfl, rfl⟩
  have heq : (3 : Nat) = 5 := hbij.injOn ⟨by decide, by decide⟩ ⟨by decide, by decide⟩ (by decide)
  cases heq

/-! ### Without a remap range -/

/-- For more rounds than there are bad blocks the second loop stops at the last of them. -/
theorem remapBad_ge (n : Nat) (i : Int) (k : Nat) (hpos : 0 < (bads bad i n).length) (hk : (bads bad i n).length ≤ k) :
    ∃ j, remapBad bad k n (i + n - 1) (bads bad i n).length = some j ∧ bad j = true := by
  induction n with
  | zero => simp [bads, upFrom] at hpos
  | succ n ih =>
    have hlast : i + ((n + 1 : Nat) : Int) - 1 = i + n := by omega
    unfold remapBad
    rw [if_neg (by omega), hlast]
    cases hb : bad (i + n) with
    | false =>
      have hbads : bads bad i (n + 1) = bads bad i n := by simp [bads, upFrom_succ, hb]
      rw [hbads] at hpos hk ⊢
      exact ih hpos hk
    | true =>
      rw [if_neg (by simp), if_pos (by omega)]
      exact ⟨i + n, rfl, hb⟩

/-- A block that no good block is left for gets a bad one, or itself when the range has none. -/
theorem mapIn_ge (s : Int) (n k : Nat) (hk : (goods bad s n).length ≤ k) :
    (bads bad s n = [] ∧ mapIn bad s (s + n) (s + k) = s + k) ∨ (bads bad s n ≠ [] ∧ bad (mapIn bad s (s + n) (s + k)) = true) := by
  have hn : (s + n - s).toNat = n := by omega
  have hofs : s + k - s = k := by omega
  have hsub : (k : Int) - (goods bad s n).length = ((k - (goods bad s n).length : Nat) : Int) := by omega
  have hmap : mapIn bad s (s + n) (s + k) =
      (remapBad bad ((k - (goods bad s n).length : Nat) : Int) n (s + n - 1) (bads bad s n).length).getD (s + k) := by
    unfold mapIn
    rw [hn, hofs, skipBad_ge n s 0 k hk]
    dsimp only
    rw [if_neg (Int.lt_irrefl _), hsub, Int.zero_add]
  rw [hmap]
  by_cases hnil : bads bad s n = []
  · refine Or.inl ⟨hnil, ?_⟩
    rw [hnil]
    cases n <;> simp [remapBad]
  · refine Or.inr ⟨hnil, ?_⟩
    have hpos : 0 < (bads bad s n).length := List.length_pos_iff.mpr hnil
    by_cases hlt : k - (goods bad s n).length < (bads bad s n).length
    · rw [remapBad_eq n s _ hlt, Option.getD_some]
      exact (List.mem_filter.mp (List.getElem_mem hlt)).2
    · obtain ⟨j, hj, hbad⟩ := remapBad_ge n s _ hpos (Nat.not_lt.mp hlt)
      rw [hj]
      exact hbad

theorem upFrom_add (i : Int) (m n : Nat) : upFrom i (m + n) = upFrom i m ++ upFrom (i + m) n := by
  induction m generalizing i with
  | zero => simp [upFrom]
  | succ m ih =>
    have hsucc : m + 1 + n = m + n + 1 := by omega
    have hi : i + ((m + 1 : Nat) : Int) = i + 1 + m := by omega
    rw [hsucc, upFrom, upFrom, ih, hi, List.cons_append]

theorem length_goods_le (i : Int) {m n : Nat} (h : m ≤ n) : (goods bad i m).length ≤ (goods bad i n).length := by
  obtain ⟨k, rfl⟩ := Nat.exists_eq_add_of_le h
  rw [goods, goods, upFrom_add, List.filter_append, List.length_append]
  exact Nat.le_add_right _ _

theorem goods_eq_of_forall {i : Int} {n : Nat} (h : ∀ j ∈ upFrom i n, bad j = false) : goods bad i n = upFrom i n := by
  refine List.filter_eq_self.mpr fun j hj => ?_
  rw [h j hj]
  rfl

/-- Without a remap range the end is shifted as if it were an address: the good blocks are skipped to only when they all lie before
    it, and otherwise blocks are mapped to themselves, or to bad ones. -/
theorem default_mapping_iff (blkShift totalBlks : Nat) (buf : Nat → UInt8) :
    (∀ block < (goods (blockIsBad buf) 0 totalBlks).length, blockIsBad buf (getMappingBlockIndex { blkShift, totalBlks } buf block) = false) ↔
      (∀ b : Nat, b < (goods (blockIsBad buf) 0 totalBlks).length → blockIsBad buf b = false) ∨
        (goods (blockIsBad buf) 0 totalBlks).length = (goods (blockIsBad buf) 0 (totalBlks / 2 ^ blkShift)).length := by
  obtain ⟨bad, hbad⟩ : ∃ bad, bad = blockIsBad buf := ⟨_, rfl⟩
  obtain ⟨e, he⟩ : ∃ e, e = totalBlks / 2 ^ blkShift := ⟨_, rfl⟩
  have hle : e ≤ totalBlks := he ▸ Nat.div_le_self _ _
  have hmap : ∀ block : Nat, getMappingBlockIndex { blkShift, totalBlks } buf block = mapIn bad 0 (0 + e) (0 + block) := by
    intro block
    have hstop : (totalBlks : Int) >>> blkShift = e := by
      rw [Int.shiftRight_eq_div_pow, he]
      norm_cast
    have hstart : (0 : Int) >>> blkShift = 0 := by
      rw [Int.shiftRight_eq_div_pow]
      exact Int.zero_ediv _
    simp only [getMappingBlockIndex, mappingBlockInRange, List.isEmpty_nil, if_true, hstop, hstart, hbad, Int.zero_add]
  have hgood : ∀ k (hk : k < (goods bad 0 e).length), bad (mapIn bad 0 (0 + e) (0 + k)) = false := by
    intro k hk
    have hlen := @length_goods_bads bad 0 e
    rw [mapIn_eq 0 e k (by omega)]
    simp only [order]
    rw [List.getElem_append_left hk]
    simpa using (List.mem_filter.mp (List.getElem_mem hk)).2
  have hfirst := @length_goods_le bad 0 e totalBlks hle
  rw [← hbad, ← he]
  simp only [hmap]
  constructor
  · intro h
    by_cases heq : (goods bad 0 totalBlks).length = (goods bad 0 e).length
    · exact Or.inr heq
    refine Or.inl fun b hb => ?_
    rcases @mapIn_ge bad 0 e (goods bad 0 e).length (Nat.le_refl _) with ⟨hnil, -⟩ | ⟨-, hbad'⟩
    · have hlen := @length_goods_bads bad 0 e
      rw [hnil, List.length_nil, Nat.add_zero] at hlen
      by_cases hbe : b < e
      · have hmem : (b : Int) ∈ upFrom 0 e := mem_upFrom.mpr ⟨by omega, by omega⟩
        by_contra hne
        have hmem' : (b : Int) ∈ bads bad 0 e := List.mem_filter.mpr ⟨hmem, by simpa using hne⟩
        rw [hnil] at hmem'
        cases hmem'
      · rcases @mapIn_ge bad 0 e b (by omega) with ⟨-, hself⟩ | ⟨hne, -⟩
        · have hb' := h b hb
          rw [hself, Int.zero_add] at hb'
          exact hb'
        · exact absurd hnil hne
    · have hlt : (goods bad 0 e).length < (goods bad 0 totalBlks).length := by omega
      rw [h _ hlt] at hbad'
      cases hbad'
  · rintro (hall | heq) block hblock
    · by_cases hlt : block < (goods bad 0 e).length
      · exact hgood block hlt
      · rcases @mapIn_ge bad 0 e block (Nat.not_lt.mp hlt) with ⟨-, hself⟩ | ⟨hne, -⟩
        · rw [hself, Int.zero_add]
          exact hall block hblock
        -- a bad block before the end has all good blocks below it
        · exfalso
          obtain ⟨j, hj⟩ := List.exists_mem_of_ne_nil _ hne
          obtain ⟨hj, hjbad⟩ := List.mem_filter.mp hj
          obtain ⟨hj0, hje⟩ := mem_upFrom.mp hj
          have hG : (goods bad 0 totalBlks).length ≤ j.toNat := by
            by_contra hlt'
            have hj' := hall j.toNat (Nat.not_le.mp hlt')
            rw [Int.toNat_of_nonneg hj0, hjbad] at hj'
            cases hj'
          have hpre : goods bad 0 (goods bad 0 totalBlks).length = upFrom 0 (goods bad 0 totalBlks).length := by
            refine goods_eq_of_forall fun i hi => ?_
            obtain ⟨hi0, hilt⟩ := mem_upFrom.mp hi
            have := hall i.toNat (by omega)
            rwa [Int.toNat_of_nonneg hi0] at this
          have hcount := @length_goods_le bad 0 (goods bad 0 totalBlks).length e (by omega)
          rw [hpre, length_upFrom] at hcount
          omega
    · exact hgood block (heq ▸ hblock)

/-- On a usual chip no bad block is skipped. -/
theorem default_mapping_bad : ¬∀ (blkShift totalBlks : Nat) (buf : Nat → UInt8), ∀ block < (goods (blockIsBad buf) 0 totalBlks).length,
    blockIsBad buf (getMappingBlockIndex { blkShift, totalBlks } buf block) = false := by
  intro h
  have hbad := h 17 8 thirdBad 3 (by decide)
  exact absurd hbad (by decide)

end Bbt

end RainWrt.Bmt
