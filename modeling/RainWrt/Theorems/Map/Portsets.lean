import RainWrt.Map.Rule

/-! The port sets of the PSIDs divide the ports behind the system ports among them. -/

namespace RainWrt.Map

/-- Some range of the list holds the port. -/
def Holds (ranges : List (Nat × Nat)) (p : Nat) : Prop := ∃ r ∈ ranges, r.1 ≤ p ∧ p ≤ r.2

/-- The bits from `offset` on, counted from the most significant of 16. -/
def portBits (offset psidlen p : Nat) : Nat := p / 2 ^ (16 - offset - psidlen) % 2 ^ psidlen

/-- The PSID that a left-aligned word stands for. -/
def psidOf (psidlen psid : Nat) : Nat := psid / 2 ^ (16 - psidlen)

section
variable {a k psid : Nat}

theorem psidOf_lt (hk : k ≤ 16) (h : psid < 65536) : psidOf k psid < 2 ^ k := by
  rw [psidOf, Nat.div_lt_iff_lt_mul (Nat.two_pow_pos _), ← Nat.pow_add, Nat.add_sub_of_le hk]
  exact h

/-- A range starts at a multiple of its length. -/
theorem start_eq (hk : 1 ≤ k) (hak : a + k ≤ 16) (h : psid < 65536) (j : Nat) :
    (j <<< (16 - a)) ||| (alignPsid k psid >>> a) = (j * 2 ^ k + psidOf k psid) * 2 ^ (16 - a - k) := by
  have hv : psidOf k psid < 2 ^ k := psidOf_lt (by omega) h
  have hshift : alignPsid k psid >>> a = psidOf k psid * 2 ^ (16 - a - k) := by
    have hsplit : 2 ^ (16 - k) = 2 ^ (16 - a - k) * 2 ^ a := by
      rw [← Nat.pow_add]
      congr 1
      omega
    rw [alignPsid, if_pos (Nat.lt_of_succ_le hk), Nat.shiftRight_eq_div_pow, Nat.shiftLeft_eq, Nat.shiftRight_eq_div_pow]
    change psidOf k psid * 2 ^ (16 - k) / 2 ^ a = _
    rw [hsplit, ← Nat.mul_assoc, Nat.mul_div_cancel _ (Nat.two_pow_pos _)]
  have hpow : 2 ^ (16 - a) = 2 ^ k * 2 ^ (16 - a - k) := by
    rw [← Nat.pow_add]
    congr 1
    omega
  have hlt : psidOf k psid * 2 ^ (16 - a - k) < 2 ^ (16 - a) := by
    rw [hpow]
    exact Nat.mul_lt_mul_of_pos_right hv (Nat.two_pow_pos _)
  rw [hshift, ← Nat.shiftLeft_add_eq_or_of_lt hlt, Nat.shiftLeft_eq, hpow]
  ring

/-- The ports of one round. -/
theorem mem_portRange (hk : 1 ≤ k) (hak : a + k ≤ 16) (h : psid < 65536) {j p : Nat} :
    (∃ r, portRange a k (alignPsid k psid) j = some r ∧ r.1 ≤ p ∧ p ≤ r.2) ↔ 1 ≤ p ∧ p / 2 ^ (16 - a - k) = j * 2 ^ k + psidOf k psid := by
  have hpos : 0 < 2 ^ (16 - a - k) := Nat.two_pow_pos _
  unfold portRange
  rw [start_eq hk hak h, Nat.shiftLeft_eq, Nat.one_mul]
  generalize j * 2 ^ k + psidOf k psid = c
  generalize 2 ^ (16 - a - k) = m at hpos
  have hdiv : p / m = c ↔ c * m ≤ p ∧ p < c * m + m := by
    rw [Nat.div_eq_iff hpos]
    omega
  rw [hdiv]
  dsimp only
  by_cases h0 : c * m = 0
  · rw [if_pos h0]
    constructor
    · rintro ⟨r, hr, h1, h2⟩
      split at hr
      · obtain rfl := Option.some.inj hr
        dsimp only at h1 h2
        omega
      · cases hr
    · rintro ⟨h1, h2, h3⟩
      exact ⟨_, if_pos (by omega), h1, by dsimp only; omega⟩
  · rw [if_neg h0]
    constructor
    · rintro ⟨r, hr, h1, h2⟩
      split at hr
      · obtain rfl := Option.some.inj hr
        dsimp only at h1 h2
        omega
      · cases hr
    · rintro ⟨h1, h2, h3⟩
      exact ⟨_, if_pos (by omega), h2, by dsimp only; omega⟩

/-- The ports of a PSID: the bits behind the offset are the PSID, and the bits before it are not all zero. -/
theorem holds_portsets (hk : 1 ≤ k) (hak : a + k ≤ 16) (h : psid < 65536) (p : Nat) :
    Holds (portsets a k psid) p ↔ 1 ≤ p ∧ p ≤ 65535 ∧ portBits a k p = psidOf k psid ∧ (0 < a → p / 2 ^ (16 - a) ≠ 0) := by
  have hv : psidOf k psid < 2 ^ k := psidOf_lt (by omega) h
  have hpow : 2 ^ (16 - a) = 2 ^ (16 - a - k) * 2 ^ k := by
    rw [← Nat.pow_add]
    congr 1
    omega
  have hrounds : ∀ j, j ∈ List.range' (firstRound a) (1 <<< a - firstRound a) ↔ firstRound a ≤ j ∧ j < 2 ^ a := by
    intro j
    have hone : 1 ≤ 2 ^ a := Nat.one_le_two_pow
    rw [List.mem_range'_1, Nat.shiftLeft_eq, Nat.one_mul]
    unfold firstRound
    split
    · omega
    · omega
  have hmem : Holds (portsets a k psid) p ↔ ∃ j, (firstRound a ≤ j ∧ j < 2 ^ a) ∧ 1 ≤ p ∧ p / 2 ^ (16 - a - k) = j * 2 ^ k + psidOf k psid := by
    constructor
    · rintro ⟨r, hr, h1, h2⟩
      obtain ⟨j, hj, hjr⟩ := List.mem_filterMap.mp hr
      exact ⟨j, (hrounds j).mp hj, (mem_portRange hk hak h).mp ⟨r, hjr, h1, h2⟩⟩
    · rintro ⟨j, hj, hp⟩
      obtain ⟨r, hr, h1, h2⟩ := (mem_portRange hk hak h).mpr hp
      exact ⟨r, List.mem_filterMap.mpr ⟨j, (hrounds j).mpr hj, hr⟩, h1, h2⟩
  have hround : ∀ j, p / 2 ^ (16 - a - k) = j * 2 ^ k + psidOf k psid ↔ p / 2 ^ (16 - a) = j ∧ portBits a k p = psidOf k psid := by
    intro j
    rw [portBits, hpow, ← Nat.div_div_eq_div_mul, Nat.div_mod_unique (Nat.two_pow_pos k)]
    constructor
    · intro hd
      exact ⟨by rw [hd, Nat.mul_comm, Nat.add_comm], hv⟩
    · rintro ⟨hd, -⟩
      rw [← hd, Nat.mul_comm, Nat.add_comm]
  have hlast : p / 2 ^ (16 - a) < 2 ^ a ↔ p ≤ 65535 := by
    rw [Nat.div_lt_iff_lt_mul (Nat.two_pow_pos _), ← Nat.pow_add, show a + (16 - a) = 16 by omega]
    omega
  rw [hmem]
  constructor
  · rintro ⟨j, ⟨h1, h2⟩, hp, hd⟩
    obtain ⟨rfl, hbits⟩ := (hround j).mp hd
    refine ⟨hp, hlast.mp h2, hbits, fun ha => ?_⟩
    rw [firstRound, if_pos (by omega)] at h1
    omega
  · rintro ⟨hp, hle, hbits, htop⟩
    refine ⟨p / 2 ^ (16 - a), ⟨?_, hlast.mpr hle⟩, hp, (hround _).mpr ⟨rfl, hbits⟩⟩
    unfold firstRound
    split
    · exact Nat.one_le_iff_ne_zero.mpr (htop (by omega))
    · exact Nat.zero_le _

/-- What a printed range looks like. -/
theorem portRange_eq_some {psid j : Nat} {r : Nat × Nat} (hk : 1 ≤ k) (hak : a + k ≤ 16) (h : psid < 65536) (hr : portRange a k (alignPsid k psid) j = some r) :
    r.1 ≤ r.2 ∧ (j * 2 ^ k + psidOf k psid) * 2 ^ (16 - a - k) ≤ r.1 ∧ r.2 < (j * 2 ^ k + psidOf k psid + 1) * 2 ^ (16 - a - k) := by
  have hpos : 0 < 2 ^ (16 - a - k) := Nat.two_pow_pos _
  unfold portRange at hr
  rw [start_eq hk hak h, Nat.shiftLeft_eq, Nat.one_mul] at hr
  rw [Nat.add_mul _ 1, Nat.one_mul]
  generalize (j * 2 ^ k + psidOf k psid) * 2 ^ (16 - a - k) = c at hr ⊢
  generalize 2 ^ (16 - a - k) = m at hpos hr ⊢
  dsimp only at hr
  by_cases h0 : c = 0
  · rw [if_pos h0] at hr
    split at hr
    · obtain rfl := Option.some.inj hr
      dsimp only
      omega
    · cases hr
  · rw [if_neg h0] at hr
    split at hr
    · obtain rfl := Option.some.inj hr
      dsimp only
      omega
    · cases hr

/-- The ranges of a later round lie behind those of an earlier one. -/
theorem pairwise_portsets (hk : 1 ≤ k) (hak : a + k ≤ 16) (h : psid < 65536) : (portsets a k psid).Pairwise fun r s => r.2 < s.1 := by
  refine List.Pairwise.filterMap (portRange a k (alignPsid k psid)) (fun i j hij r hr s hs => ?_) List.pairwise_lt_range'
  obtain ⟨-, -, h1⟩ := portRange_eq_some hk hak h hr
  obtain ⟨-, h2, -⟩ := portRange_eq_some hk hak h hs
  have hle : i * 2 ^ k + psidOf k psid + 1 ≤ j * 2 ^ k + psidOf k psid := by
    have := Nat.mul_lt_mul_of_pos_right hij (Nat.two_pow_pos k)
    omega
  have := Nat.mul_le_mul_right (2 ^ (16 - a - k)) hle
  omega

theorem nonempty_portsets (hk : 1 ≤ k) (hak : a + k ≤ 16) (h : psid < 65536) : ∀ r ∈ portsets a k psid, r.1 ≤ r.2 := by
  intro r hr
  obtain ⟨j, -, hj⟩ := List.mem_filterMap.mp hr
  exact (portRange_eq_some hk hak h hj).1

/-- The port sets of the PSIDs partition the ports behind the system ports. -/
theorem portsets_partition (hk : 1 ≤ k) (hak : a + k ≤ 16) :
    (∀ psid < 65536, (∀ p, Holds (portsets a k psid) p ↔ 1 ≤ p ∧ p ≤ 65535 ∧ portBits a k p = psidOf k psid ∧ (0 < a → p / 2 ^ (16 - a) ≠ 0)) ∧
      (portsets a k psid).Pairwise (fun r s => r.2 < s.1) ∧ ∀ r ∈ portsets a k psid, r.1 ≤ r.2) ∧
    (∀ psid < 65536, ∀ psid' < 65536, psidOf k psid ≠ psidOf k psid' → ∀ p, ¬(Holds (portsets a k psid) p ∧ Holds (portsets a k psid') p)) ∧
    ∀ p, (∃ v < 2 ^ k, Holds (portsets a k (v * 2 ^ (16 - k))) p) ↔ (if a = 0 then 1 else 2 ^ (16 - a)) ≤ p ∧ p ≤ 65535 := by
  refine ⟨fun psid h => ⟨holds_portsets hk hak h, pairwise_portsets hk hak h, nonempty_portsets hk hak h⟩, fun psid h psid' h' hne p hp => ?_, fun p => ?_⟩
  · obtain ⟨-, -, hb, -⟩ := (holds_portsets hk hak h p).mp hp.1
    obtain ⟨-, -, hb', -⟩ := (holds_portsets hk hak h' p).mp hp.2
    exact hne (hb.symm.trans hb')
  · have hword : ∀ v < 2 ^ k, v * 2 ^ (16 - k) < 65536 ∧ psidOf k (v * 2 ^ (16 - k)) = v := by
      intro v hv
      refine ⟨?_, Nat.mul_div_cancel _ (Nat.two_pow_pos _)⟩
      calc v * 2 ^ (16 - k) < 2 ^ k * 2 ^ (16 - k) := Nat.mul_lt_mul_of_pos_right hv (Nat.two_pow_pos _)
        _ = 65536 := by rw [← Nat.pow_add, Nat.add_sub_of_le (by omega)]
    have hfirst : (1 ≤ p ∧ (0 < a → p / 2 ^ (16 - a) ≠ 0)) ↔ (if a = 0 then 1 else 2 ^ (16 - a)) ≤ p := by
      by_cases ha : a = 0
      · rw [if_pos ha]
        exact ⟨fun hp => hp.1, fun hp => ⟨hp, fun h0 => absurd ha (by omega)⟩⟩
      · rw [if_neg ha]
        have hone : 1 ≤ 2 ^ (16 - a) := Nat.one_le_two_pow
        rw [Nat.div_ne_zero_iff]
        constructor
        · rintro ⟨-, hp⟩
          exact (hp (by omega)).2
        · intro hp
          exact ⟨by omega, fun _ => ⟨by omega, hp⟩⟩
    constructor
    · rintro ⟨v, hv, hp⟩
      obtain ⟨h1, h2, -, h3⟩ := (holds_portsets hk hak (hword v hv).1 p).mp hp
      exact ⟨hfirst.mp ⟨h1, h3⟩, h2⟩
    · rintro ⟨h1, h2⟩
      obtain ⟨hp, htop⟩ := hfirst.mpr h1
      have hv : portBits a k p < 2 ^ k := Nat.mod_lt _ (Nat.two_pow_pos k)
      refine ⟨portBits a k p, hv, (holds_portsets hk hak (hword _ hv).1 p).mpr ⟨hp, h2, ?_, htop⟩⟩
      rw [(hword _ hv).2]

end

theorem portsets_partition_six : (∀ p, Holds (portsets 6 8 0x3400) p ↔ 1 ≤ p ∧ p ≤ 65535 ∧ portBits 6 8 p = psidOf 8 0x3400 ∧ (0 < 6 → p / 2 ^ 10 ≠ 0)) ∧
    (portsets 6 8 0x3400).head? = some (1232, 1235) :=
  ⟨((portsets_partition (by decide) (by decide)).1 0x3400 (by decide)).1, by decide⟩

end RainWrt.Map
