import RainWrt.Wifi.Hostapd

/-! Which capabilities the configuration of hostapd announces, against those that the phy has. -/

namespace RainWrt.Wifi.Hostapd

/-! ### What the phy has -/

/-- The capability that a token announces; the secondary channel follows the mode. -/
def HtToken.Supported (cap : Nat) : HtToken → Prop
  | ht40plus | ht40minus | null => True
  | ldpc => cap.testBit 0
  | gf => cap.testBit 4
  | shortGi20 => cap.testBit 5
  | shortGi40 => cap.testBit 6
  | txStbc => cap.testBit 7
  | rxStbc n => n ≤ cap / 2 ^ 8 % 4
  | maxAmsdu7935 => cap.testBit 11
  | dsssCck40 => cap.testBit 12

def VhtToken.Supported (cap : Nat) : VhtToken → Prop
  | null => True
  | maxMpdu n => n ≤ 7991 ∧ 1 ≤ cap % 4 ∨ n ≤ 11454 ∧ 2 ≤ cap % 4
  | vht160 => cap / 2 ^ 2 % 4 = 1 ∨ cap / 2 ^ 2 % 4 = 2
  | vht160_80plus80 => cap / 2 ^ 2 % 4 = 2
  | rxldpc => cap.testBit 4
  | shortGi80 => cap.testBit 5
  | shortGi160 => cap.testBit 6
  | txStbc2by1 => cap.testBit 7
  | rxStbc n => n ≤ cap / 2 ^ 8 % 8
  | suBeamformer => cap.testBit 11
  | suBeamformee => cap.testBit 12
  | bfAntenna n => cap.testBit 12 ∧ n ≤ (cap / 2 ^ 13 % 8 : Nat) + 1
  | soundingDimension n => cap.testBit 11 ∧ n ≤ (cap / 2 ^ 16 % 8 : Nat) + 1
  | muBeamformer => cap.testBit 19
  | muBeamformee => cap.testBit 20
  | vhtTxopPs => cap.testBit 21
  | htcVht => cap.testBit 22
  | maxAMpduLenExp n => n ≤ cap / 2 ^ 23 % 8
  | vhtLinkAdapt n => n ≤ cap / 2 ^ 26 % 4
  | rxAntennaPattern => cap.testBit 28
  | txAntennaPattern => cap.testBit 29

/-- The capability of a feature of 802.11ax; a device with TWT is a requester or a responder. -/
def HeSupported (caps : Capabilities) (key : String) : Prop :=
  (key = "he_su_beamformer" → (caps.hePhyCap.getD 3 0).testBit 7) ∧
    (key = "he_su_beamformee" → (caps.hePhyCap.getD 4 0).testBit 0) ∧
    (key = "he_mu_beamformer" → (caps.hePhyCap.getD 4 0).testBit 1) ∧
    (key = "he_twt_required" → (caps.heMacCap.getD 0 0).testBit 1 ∨ (caps.heMacCap.getD 0 0).testBit 2)

/-- A bit of the extended features. -/
def Wiphy.Has (phy : Wiphy) (flag : Nat) : Prop := (phy.extendedFeatures.getD (flag / 8) 0).testBit (flag % 8)

/-- What is written announces only what the phy has. -/
structure GatedLines (phy : Wiphy) (caps : Capabilities) (out : List Line) : Prop where
  ht : ∀ tokens, ("ht_capab", .ht tokens) ∈ out → ∀ t ∈ tokens, t.Supported caps.htCapa
  vht : ∀ tokens, ("vht_capab", .vht tokens) ∈ out → ∀ t ∈ tokens, t.Supported caps.vhtCapa
  he : ∀ key, (key, .bool true) ∈ out → HeSupported caps key
  /-- Reuse by what a frame announces is forbidden by a bit. -/
  psr : ∀ n, ("he_spr_sr_control", .num n) ∈ out → n.testBit 0 = false → (caps.hePhyCap.getD 7 0).testBit 0
  radar : ∀ value, ("enable_background_radar", value) ∈ out → phy.Has radarBackground
  ftm : ∀ value, ("ftm_responder", value) ∈ out → phy.Has enableFtmResponder

/-! ### Masks -/

theorem testBit_of_and {cap : Nat} (i : Nat) (h : cap &&& 2 ^ i ≠ 0) : cap.testBit i := by
  rw [Nat.and_two_pow] at h
  cases hbit : cap.testBit i with
  | false => simp [hbit] at h
  | true => rfl

theorem shift_and (cap i k : Nat) : (cap >>> i) &&& (2 ^ k - 1) = cap / 2 ^ i % 2 ^ k := by
  rw [Nat.and_two_pow_sub_one_eq_mod, Nat.shiftRight_eq_div_pow]

/-- A field that is not shifted to the right end. -/
theorem and_shift (cap i k : Nat) : cap &&& (2 ^ k - 1) <<< i = (cap / 2 ^ i % 2 ^ k) * 2 ^ i := by
  rw [← shift_and, ← Nat.shiftLeft_eq]
  refine Nat.eq_of_testBit_eq fun j => ?_
  rw [Nat.testBit_and, Nat.testBit_shiftLeft, Nat.testBit_shiftLeft, Nat.testBit_and, Nat.testBit_shiftRight]
  by_cases hj : i ≤ j
  · simp [hj]
  · simp [hj]

/-! ### Tokens -/

namespace Config

theorem mem_token {τ : Type} {cond : Bool} {t t' : τ} : t ∈ token cond t' ↔ cond ∧ t = t' := by
  cases cond <;> simp [token]

theorem mem_flag {τ : Type} {cap mask : Nat} {option : Bool} {t t' : τ} :
    t ∈ flag cap mask option t' ↔ (cap &&& mask ≠ 0 ∧ option) ∧ t = t' := by
  rw [flag, mem_token, Bool.and_eq_true, bne_iff_ne]

end Config

/-- A table of receive chains, which starts with none. -/
def chains {τ : Type} (f : Nat → τ) (k : Nat) : List (List τ) := [] :: (List.range k).map fun n => [f (n + 1)]

theorem mem_chains {τ : Type} {f : Nat → τ} {k j : Nat} {l : List τ} {t : τ} (hl : (chains f k)[j]? = some l) (ht : t ∈ l) :
    0 < j ∧ j ≤ k ∧ t = f j := by
  cases j with
  | zero =>
    obtain rfl := Option.some.inj hl
    cases ht
  | succ j =>
    obtain ⟨n, hn, rfl⟩ : ∃ n, (List.range k)[j]? = some n ∧ [f (n + 1)] = l := by simpa [chains] using hl
    obtain ⟨hj, rfl⟩ := List.getElem?_eq_some_iff.mp hn
    simp only [List.length_range] at hj
    exact ⟨Nat.succ_pos j, hj, by simpa using ht⟩

/-- What an index picks: nothing of the table, or the chains that it counts from the start or from the end. -/
theorem mem_arrayAt {τ : Type} {f : Nat → τ} {k : Nat} {i : Int} {t null : τ} (ht : t ∈ (arrayAt (chains f k) i).getD [null]) :
    t = null ∨ ∃ n : Nat, t = f n ∧ ((n : Int) = i ∨ i < 0 ∧ (n : Int) = i + (k + 1)) := by
  have hlen : (chains f k).length = k + 1 := by simp [chains]
  cases hl : arrayAt (chains f k) i with
  | none =>
    rw [hl] at ht
    exact .inl (by simpa using ht)
  | some l =>
    rw [hl] at ht
    right
    unfold arrayAt at hl
    split_ifs at hl with hpos hneg
    · obtain ⟨-, -, rfl⟩ := mem_chains hl ht
      exact ⟨i.toNat, rfl, .inl (by omega)⟩
    · obtain ⟨-, -, rfl⟩ := mem_chains hl ht
      exact ⟨_, rfl, .inr (by omega)⟩

/-- An index below zero counts from the end. -/
theorem arrayAt_neg {τ : Type} (f : Nat → τ) {k n : Nat} {i : Int} {null : τ} (hi : i < 0) (hn : 0 < n)
    (h : (n : Int) = i + (k + 1)) : f n ∈ (arrayAt (chains f k) i).getD [null] := by
  have hlen : (chains f k).length = k + 1 := by simp [chains]
  have hidx : (i + (chains f k).length).toNat = n := by omega
  have hget : (chains f k)[n]? = some [f n] := by
    obtain ⟨m, rfl⟩ := Nat.exists_eq_succ_of_ne_zero hn.ne'
    have hm : m < k := by omega
    simp [chains, hm]
  rw [arrayAt, if_neg (by omega), if_pos (by omega), hidx, hget]
  simp

namespace Config

theorem htRxStbc_eq : htRxStbc = chains HtToken.rxStbc 3 := rfl

theorem vhtRxStbc_eq : vhtRxStbc = chains VhtToken.rxStbc 4 := rfl

/-- A number of receive chains below zero announces no more than the phy has. -/
def CountsDown (config : Config) (k field : Nat) : Prop := config.rxStbc < 0 → config.rxStbc + (k + 1) ≤ field

theorem secondary_supported {config : Config} {cap : Nat} {t : HtToken} (ht : t ∈ config.secondary) : t.Supported cap := by
  have hkind : t = .ht40plus ∨ t = .ht40minus := by
    unfold secondary at ht
    split at ht
    · grind
    · cases ht
  rcases hkind with rfl | rfl <;> trivial

/-- The tokens of `ht_capab`. -/
theorem htCapab_supported (config : Config) (cap : Nat) :
    (∀ t ∈ config.htCapab cap, t.Supported cap) ↔ config.CountsDown 3 (cap / 2 ^ 8 % 4) := by
  have hfield : (cap >>> 8) &&& 3 = cap / 2 ^ 8 % 4 := shift_and cap 8 2
  constructor
  · intro h hneg
    rcases Int.lt_or_le 0 (config.rxStbc + (3 + 1)) with hpos | hpos
    case inr => exact hpos.trans (by omega)
    obtain ⟨n, hn⟩ := Int.eq_ofNat_of_zero_le hpos.le
    have hmin : min config.rxStbc (((cap >>> 8) &&& 3 : Nat) : Int) = config.rxStbc := min_eq_left (by omega)
    have hmem : HtToken.rxStbc n ∈ config.htCapab cap := by
      refine List.mem_flatten.mpr ⟨_, List.mem_of_getElem? (i := 8) rfl, ?_⟩
      rw [htRxStbc_eq, hmin]
      exact arrayAt_neg _ hneg (by omega) (by omega)
    have hsup : n ≤ cap / 2 ^ 8 % 4 := h _ hmem
    omega
  · intro h t ht
    simp only [htCapab, List.mem_flatten, List.mem_cons, List.not_mem_nil, or_false, exists_eq_or_imp, exists_eq_left, mem_flag] at ht
    rcases ht with ht | ⟨⟨hb, -⟩, rfl⟩ | ⟨⟨hb, -⟩, rfl⟩ | ⟨⟨hb, -⟩, rfl⟩ | ⟨⟨hb, -⟩, rfl⟩ | ⟨⟨hb, -⟩, rfl⟩ | ⟨⟨hb, -⟩, rfl⟩ |
      ⟨⟨hb, -⟩, rfl⟩ | ht
    · exact secondary_supported ht
    · exact testBit_of_and 0 hb
    · exact testBit_of_and 4 hb
    · exact testBit_of_and 5 hb
    · exact testBit_of_and 6 hb
    · exact testBit_of_and 7 hb
    · exact testBit_of_and 11 hb
    · exact testBit_of_and 12 hb
    · rw [htRxStbc_eq, hfield] at ht
      rcases mem_arrayAt ht with rfl | ⟨n, rfl, hn⟩
      · trivial
      · have hle : n ≤ cap / 2 ^ 8 % 4 := by
          unfold CountsDown at h
          omega
        exact hle

theorem vhtFlags_supported {config : Config} {gi : Bool} {cap : Nat} {t : VhtToken} (ht : t ∈ config.vhtFlags gi cap) :
    t.Supported cap := by
  simp only [vhtFlags, List.mem_flatten, List.mem_cons, List.not_mem_nil, or_false, exists_eq_or_imp, exists_eq_left, mem_flag] at ht
  rcases ht with ⟨⟨hb, -⟩, rfl⟩ | ⟨⟨hb, -⟩, rfl⟩ | ⟨⟨hb, -⟩, rfl⟩ | ⟨⟨hb, -⟩, rfl⟩ | ⟨⟨hb, -⟩, rfl⟩ | ⟨⟨hb, -⟩, rfl⟩ |
    ⟨⟨hb, -⟩, rfl⟩ | ⟨⟨hb, -⟩, rfl⟩ | ⟨⟨hb, -⟩, rfl⟩ | ⟨⟨hb, -⟩, rfl⟩ | ⟨⟨hb, -⟩, rfl⟩ | ⟨⟨hb, -⟩, rfl⟩
  · exact testBit_of_and 4 hb
  · exact testBit_of_and 5 hb
  · exact testBit_of_and 6 hb
  · exact testBit_of_and 7 hb
  · exact testBit_of_and 11 hb
  · exact testBit_of_and 12 hb
  · exact testBit_of_and 19 hb
  · exact testBit_of_and 20 hb
  · exact testBit_of_and 21 hb
  · exact testBit_of_and 22 hb
  · exact testBit_of_and 28 hb
  · exact testBit_of_and 29 hb

theorem vhtLimits_supported {config : Config} {vht160 : Int} {cap : Nat} {t : VhtToken} (ht : t ∈ config.vhtLimits vht160 cap) :
    t.Supported cap := by
  have hwidth : cap &&& 0xc = cap / 2 ^ 2 % 4 * 2 ^ 2 := and_shift cap 2 2
  have hmpdu : cap &&& 3 = cap % 4 := Nat.and_two_pow_sub_one_eq_mod cap 2
  have hampdu : (cap >>> 20) &&& 0x38 = cap / 2 ^ 23 % 8 * 2 ^ 3 := by
    have h := and_shift (cap >>> 20) 3 3
    rw [Nat.shiftRight_eq_div_pow, Nat.div_div_eq_div_mul] at h
    rw [Nat.shiftRight_eq_div_pow]
    exact h
  have hadapt : cap &&& 0xC000000 = cap / 2 ^ 26 % 4 * 2 ^ 26 := and_shift cap 26 2
  simp only [vhtLimits, hwidth, hmpdu, hampdu, hadapt, List.mem_append] at ht
  rcases ht with (((ht | ht) | ht) | ht) | ht
  · split_ifs at ht with hboth
    · obtain rfl := List.mem_singleton.mp ht
      have hsup : cap / 2 ^ 2 % 4 = 2 := by omega
      exact hsup
    · obtain ⟨hsome, rfl⟩ := mem_token.mp ht
      simp only [Bool.and_eq_true, Bool.or_eq_true, beq_iff_eq] at hsome
      have hsup : cap / 2 ^ 2 % 4 = 1 ∨ cap / 2 ^ 2 % 4 = 2 := by omega
      exact hsup
  · split_ifs at ht with hlong
    · obtain rfl := List.mem_singleton.mp ht
      exact .inr ⟨le_rfl, hlong.1⟩
    · obtain ⟨hsome, rfl⟩ := mem_token.mp ht
      simp only [Bool.and_eq_true, bne_iff_ne] at hsome
      exact .inl ⟨le_rfl, Nat.pos_of_ne_zero hsome.1⟩
  · simp only [Option.mem_toList, Option.map_eq_some_iff] at ht
    obtain ⟨exp, hexp, rfl⟩ := ht
    have hle := List.find?_some hexp
    simp only [Bool.and_eq_true, decide_eq_true_eq] at hle
    have hsup : exp ≤ cap / 2 ^ 23 % 8 := by omega
    exact hsup
  · obtain ⟨hsome, rfl⟩ := mem_token.mp ht
    simp only [Bool.and_eq_true, decide_eq_true_eq] at hsome
    have hsup : 3 ≤ cap / 2 ^ 26 % 4 := by omega
    exact hsup
  · obtain ⟨hsome, rfl⟩ := mem_token.mp ht
    simp only [Bool.and_eq_true, decide_eq_true_eq] at hsome
    have hsup : 2 ≤ cap / 2 ^ 26 % 4 := by omega
    exact hsup

/-- The tokens of chains and antennas. -/
theorem vhtAntennas_supported (config : Config) (cap : Nat) :
    (∀ t ∈ config.vhtAntennas cap, t.Supported cap) ↔ config.CountsDown 4 (cap / 2 ^ 8 % 8) := by
  have hfield : (cap >>> 8) &&& 7 = cap / 2 ^ 8 % 8 := shift_and cap 8 3
  have hsounding : (cap >>> 16) &&& 3 = cap / 2 ^ 16 % 4 := shift_and cap 16 2
  have hsteering : (cap >>> 13) &&& 3 = cap / 2 ^ 13 % 4 := shift_and cap 13 2
  unfold CountsDown
  simp only [vhtAntennas, List.mem_append, mem_flag, hfield, hsounding, hsteering, vhtRxStbc_eq]
  constructor
  · intro h hneg
    rcases Int.lt_or_le 0 (config.rxStbc + (4 + 1)) with hpos | hpos
    case inr => exact hpos.trans (by omega)
    obtain ⟨n, hn⟩ := Int.eq_ofNat_of_zero_le hpos.le
    have hmin : min config.rxStbc ((cap / 2 ^ 8 % 8 : Nat) : Int) = config.rxStbc := min_eq_left (by omega)
    rw [hmin] at h
    have hsup : n ≤ cap / 2 ^ 8 % 8 := h (.rxStbc n) (.inl (.inl (arrayAt_neg _ hneg (by omega) (by omega))))
    omega
  · rintro h t ((ht | ⟨⟨hb, -⟩, rfl⟩) | ⟨⟨hb, -⟩, rfl⟩)
    · rcases mem_arrayAt ht with rfl | ⟨n, rfl, hn⟩
      · trivial
      · have hle : n ≤ cap / 2 ^ 8 % 8 := by omega
        exact hle
    · refine ⟨testBit_of_and 11 hb, ?_⟩
      omega
    · refine ⟨testBit_of_and 12 hb, ?_⟩
      omega

/-- The tokens of `vht_capab`. -/
theorem vhtCapab_supported (config : Config) (cap : Nat) :
    (∀ t ∈ config.vhtCapab cap, t.Supported cap) ↔ config.CountsDown 4 (cap / 2 ^ 8 % 8) := by
  rw [← vhtAntennas_supported]
  simp only [vhtCapab, List.mem_append]
  constructor
  · exact fun h t ht => h t (.inl (.inr ht))
  · rintro h t ((ht | ht) | ht)
    · exact vhtFlags_supported ht
    · exact h t ht
    · exact vhtLimits_supported ht

end Config

/-! ### Lines -/

theorem mem_append {key key' : String} {value : Value} {value' : Option Value} :
    (key, value) ∈ append key' value' ↔ key = key' ∧ value' = some value := by
  cases value' with
  | none => simp [append]
  | some v => simp [append, eq_comm]

namespace Config

/-- A mode of 802.11ax. -/
def He (config : Config) : Prop := config.htmode ∈ heModes ∨ config.htmode ∈ ehtModes

/-- The lines of 802.11ac are written. -/
def Vht (config : Config) : Prop := config.oper.ieee80211ac ∧ config.hwMode = .a

variable {config : Config} {caps : Capabilities} {features : Features} {key : String} {value : Value}

theorem mem_heSpr (h : (key, value) ∈ config.heSpr) : ∃ n, value = .num n := by
  unfold heSpr at h
  split at h
  · simp only [List.mem_append, mem_append, Option.some.injEq, Option.map_eq_some_iff] at h
    rcases h with (⟨-, rfl⟩ | ⟨-, n, -, rfl⟩) | ⟨-, rfl⟩
    · exact ⟨_, rfl⟩
    · exact ⟨n, rfl⟩
    · exact ⟨_, rfl⟩
  · cases h

theorem srControl_testBit : config.srControl.testBit 0 = false ↔ config.heSprPsrEnabled ∧ config.heSprSrControl.testBit 0 = false := by
  have hlor (n : Int) (hn : n.testBit 0 = false) : (config.heSprSrControl.lor n).testBit 0 = config.heSprSrControl.testBit 0 := by
    rw [Int.testBit_lor, hn, Bool.or_false]
  unfold srControl
  cases config.heSprPsrEnabled with
  | false =>
    have hone : Int.testBit 1 0 = true := by decide
    simp [Int.testBit_lor, hone]
  | true =>
    simp only [Bool.not_true, Bool.false_eq_true, if_false, true_and]
    split_ifs
    · rw [hlor _ (by decide)]
    · rfl

theorem heFeature_eq_true {b : Bool} {cap : List Nat} {i mask : Nat} :
    heFeature b cap i mask = true ↔ cap.getD i 0 &&& mask ≠ 0 ∧ b := by
  unfold heFeature
  split_ifs with hbit
  · simp only [hbit, ne_eq, not_true_eq_false, false_and]
  · simp only [hbit, ne_eq, not_false_eq_true, true_and]

/-- The features of 802.11ax that are written as enabled have the bits that are tested. -/
theorem mem_he (h : (key, .bool true) ∈ config.he caps) :
    key = "ieee80211ax" ∨ (key = "he_su_beamformer" ∧ caps.hePhyCap.getD 3 0 &&& 0x80 ≠ 0) ∨
      (key = "he_su_beamformee" ∧ caps.hePhyCap.getD 4 0 &&& 0x1 ≠ 0) ∨
      (key = "he_mu_beamformer" ∧ caps.hePhyCap.getD 4 0 &&& 0x2 ≠ 0) ∨
      (key = "he_twt_required" ∧ caps.heMacCap.getD 0 0 &&& 0x1 ≠ 0 ∧ config.heTwtRequired) := by
  simp only [he, List.mem_append, mem_append, Option.some.injEq, Value.bool.injEq, Option.map_eq_some_iff, reduceCtorEq,
    and_false, exists_false, or_false, heFeature_eq_true] at h
  rcases h with (((((hspr | hax) | hsu) | hee) | hmu) | htwt)
  · obtain ⟨n, hn⟩ := mem_heSpr hspr
    cases hn
  · exact .inl hax.1
  · exact .inr (.inl ⟨hsu.1, hsu.2.1⟩)
  · exact .inr (.inr (.inl ⟨hee.1, hee.2.1⟩))
  · exact .inr (.inr (.inr (.inl ⟨hmu.1, hmu.2.1⟩)))
  · exact .inr (.inr (.inr (.inr htwt)))

/-- The lines of the radio with the features of 802.11ax. -/
theorem mem_bool (h : (key, .bool true) ∈ config.deviceHtmodeAppend caps) :
    key = "ht_coex" ∨ key = "ieee80211be" ∨ (config.He ∧ (key, .bool true) ∈ config.he caps) := by
  simp only [deviceHtmodeAppend, List.mem_append, List.mem_ite_nil_right, mem_append, Option.some.injEq, Value.bool.injEq,
    Option.map_eq_some_iff, reduceCtorEq, and_false, exists_false, or_false, false_or] at h
  rcases h with ((⟨-, hcoex, -⟩ | hhe) | ⟨-, hbe, -⟩)
  · exact .inl hcoex
  · exact .inr (.inr hhe)
  · exact .inr (.inl hbe)

/-- The lines of 802.11ax are no lists of tokens. -/
theorem mem_he_value (h : (key, value) ∈ config.he caps) : (∃ n, value = .num n) ∨ ∃ b, value = .bool b := by
  simp only [he, List.mem_append, mem_append, Option.some.injEq, Option.map_eq_some_iff] at h
  rcases h with ((((((h | ⟨-, rfl⟩) | ⟨-, n, -, rfl⟩) | ⟨-, n, -, rfl⟩) | ⟨-, rfl⟩) | ⟨-, rfl⟩) | ⟨-, rfl⟩) | ⟨-, rfl⟩
  · exact .inl (mem_heSpr h)
  · exact .inr ⟨_, rfl⟩
  · exact .inl ⟨n, rfl⟩
  · exact .inl ⟨n, rfl⟩
  · exact .inr ⟨_, rfl⟩
  · exact .inr ⟨_, rfl⟩
  · exact .inr ⟨_, rfl⟩
  · exact .inr ⟨_, rfl⟩

/-- The line of 802.11n. -/
theorem mem_ht {tokens : List HtToken} :
    (key, .ht tokens) ∈ config.deviceHtmodeAppend caps ↔
      config.ieee80211n ∧ key = "ht_capab" ∧ config.htCapab caps.htCapa = tokens := by
  have hhe : (key, Value.ht tokens) ∉ config.he caps := by
    intro h
    rcases mem_he_value h with ⟨n, hn⟩ | ⟨b, hb⟩
    · cases hn
    · cases hb
  simp only [deviceHtmodeAppend, List.mem_append, List.mem_ite_nil_right, mem_append, Option.some.injEq, Value.ht.injEq,
    Option.map_eq_some_iff, reduceCtorEq, and_false, exists_false, or_false, false_or, hhe]

/-- The line of 802.11ac. -/
theorem mem_vht {tokens : List VhtToken} :
    (key, .vht tokens) ∈ config.deviceHtmodeAppend caps ↔
      config.Vht ∧ key = "vht_capab" ∧ config.vhtCapab caps.vhtCapa = tokens := by
  have hhe : (key, Value.vht tokens) ∉ config.he caps := by
    intro h
    rcases mem_he_value h with ⟨n, hn⟩ | ⟨b, hb⟩
    · cases hn
    · cases hb
  simp only [deviceHtmodeAppend, List.mem_append, List.mem_ite_nil_right, mem_append, Option.some.injEq, Value.vht.injEq,
    Option.map_eq_some_iff, reduceCtorEq, and_false, exists_false, or_false, false_or, hhe, Vht]

/-- The line of TWT is as it was asked for, where the bit that is tested is set. -/
theorem mem_twt : ("he_twt_required", .bool true) ∈ config.deviceHtmodeAppend caps ↔
    config.He ∧ caps.heMacCap.getD 0 0 &&& 0x1 ≠ 0 ∧ config.heTwtRequired := by
  constructor
  · intro h
    rcases mem_bool h with hkey | hkey | ⟨hmode, hhe⟩
    · exact absurd hkey (by decide)
    · exact absurd hkey (by decide)
    · rcases mem_he hhe with hkey | ⟨hkey, -⟩ | ⟨hkey, -⟩ | ⟨hkey, -⟩ | ⟨-, htwt⟩
      · exact absurd hkey (by decide)
      · exact absurd hkey (by decide)
      · exact absurd hkey (by decide)
      · exact absurd hkey (by decide)
      · exact ⟨hmode, htwt⟩
  · rintro ⟨hmode, htwt⟩
    have hhe : ("he_twt_required", Value.bool true) ∈ config.he caps := by
      refine List.mem_append_right _ (mem_append.mpr ⟨rfl, ?_⟩)
      rw [heFeature_eq_true.mpr htwt]
    simp only [deviceHtmodeAppend, List.mem_append, List.mem_ite_nil_right]
    exact .inl (.inr ⟨hmode, hhe⟩)

/-- The line of spatial reuse. -/
theorem mem_srControl {n : Int} : ("he_spr_sr_control", .num n) ∈ config.deviceHtmodeAppend caps ↔
    config.He ∧ config.heBssColorEnabled ∧ config.srControl = n := by
  simp only [deviceHtmodeAppend, he, heSpr, List.mem_append, List.mem_ite_nil_right, mem_append, Option.some.injEq,
    Value.num.injEq, String.reduceEq, false_and, and_false, false_or, or_false, true_and, He]

/-- The keys of the radio's lines behind the first one. -/
def radioKeys : List String :=
  ["ieee80211n", "ht_coex", "ht_capab", "op_class", "ieee80211ac", "vht_oper_chwidth", "vht_oper_centr_freq_seg0_idx", "vht_capab",
    "he_bss_color", "he_spr_non_srg_obss_pd_max_offset", "he_spr_sr_control", "ieee80211ax", "he_oper_chwidth",
    "he_oper_centr_freq_seg0_idx", "he_su_beamformer", "he_su_beamformee", "he_mu_beamformer", "he_twt_required",
    "ieee80211be", "eht_oper_chwidth", "eht_oper_centr_freq_seg0_idx"]

theorem key_mem (h : (key, value) ∈ config.deviceHtmodeAppend caps) : key ∈ radioKeys := by
  simp only [deviceHtmodeAppend, he, heSpr, List.mem_append, List.mem_ite_nil_right, mem_append] at h
  simp only [radioKeys, List.mem_cons]
  grind

variable (caps) in
/-- The line of the radar is written in the band of 5 GHz. -/
theorem mem_radar (hradar : features.radarBackground = true) :
    (∃ value, ("enable_background_radar", value) ∈ config.generate caps features) ↔ config.band = .g5 := by
  have hkey (value : Value) : ("enable_background_radar", value) ∉ config.deviceHtmodeAppend caps :=
    fun h => absurd (key_mem h) (by decide)
  by_cases hband : config.band = .g5
  · simp [generate, mem_append, hradar, hband, hkey]
  · simp [generate, mem_append, hband, hkey]

/-- The lines behind the one of the radar. -/
theorem mem_generate (hkey : key ≠ "enable_background_radar") :
    (key, value) ∈ config.generate caps features ↔ (key, value) ∈ config.deviceHtmodeAppend caps := by
  simp only [generate, List.mem_append, mem_append, hkey, false_and, false_or]

end Config

namespace Iface

variable {config : Iface} {features : Features} {key : String} {value : Value}

/-- The lines of an access point. -/
theorem mem_setup : (key, value) ∈ config.setup features ↔ config.ap ∧ (key, value) ∈ config.generate features := by
  unfold setup
  cases config.ap with
  | false => simp
  | true => split_ifs <;> simp_all

theorem key_mem (h : (key, value) ∈ config.generate features) :
    key ∈ ["rrm_neighbor_report", "rrm_beacon_report", "rnr", "ftm_responder"] := by
  simp only [generate, rrm, ftm, List.mem_append, mem_append] at h
  simp only [List.mem_cons]
  rcases h with (((h | h) | h) | h) | h
  · exact .inl h.1
  · exact .inr (.inl h.1)
  · exact .inr (.inr (.inl h.1))
  · exact .inr (.inr (.inr (.inl h.1)))
  · split at h
    · cases h
    · exact .inr (.inr (.inr (.inl (mem_append.mp h).1)))

/-- The responder is written where it is configured, whatever the phy has. -/
theorem mem_ftm : (∃ value, ("ftm_responder", value) ∈ config.generate features) ↔ config.ftmResponder ≠ none := by
  constructor
  · rintro ⟨value, h⟩ hnone
    simp [generate, rrm, ftm, mem_append, hnone] at h
  · intro h
    obtain ⟨b, hb⟩ := Option.ne_none_iff_exists'.mp h
    exact ⟨.bool b, by simp [generate, rrm, mem_append, hb]⟩

end Iface

/-! ### The extended features -/

/-- The test of a feature never fails. -/
theorem deviceExtendedFeatures_eq_true (data : List Nat) (flag : Nat) : deviceExtendedFeatures data flag = true := by
  have hne : 1 <<< (flag % 8) ≠ 0 := by
    rw [Nat.shiftLeft_eq, Nat.one_mul]
    exact (Nat.two_pow_pos _).ne'
  simp [deviceExtendedFeatures, hne]

/-! ### The configuration -/

/-- Whatever is written, it announces only what the phy has. -/
def Gated (phy : Wiphy) (config : Config) (interfaces : List Iface) : Prop :=
  ∀ caps features out, deviceCapabilities phy config.band = some (caps, features) → setup phy config interfaces = some out →
    GatedLines phy caps out

/-- The options ask for nothing that the code does not check. -/
structure Modest (phy : Wiphy) (caps : Capabilities) (config : Config) (interfaces : List Iface) : Prop where
  ht : config.ieee80211n → config.CountsDown 3 (caps.htCapa / 2 ^ 8 % 4)
  vht : config.Vht → config.CountsDown 4 (caps.vhtCapa / 2 ^ 8 % 8)
  twt : config.He → config.heTwtRequired → caps.heMacCap.getD 0 0 &&& 0x1 ≠ 0 →
    (caps.heMacCap.getD 0 0).testBit 1 ∨ (caps.heMacCap.getD 0 0).testBit 2
  psr : config.He → config.heBssColorEnabled → config.heSprPsrEnabled → config.heSprSrControl.testBit 0 = false →
    (caps.hePhyCap.getD 7 0).testBit 0
  radar : config.band = .g5 → phy.Has radarBackground
  ftm : ∀ iface ∈ interfaces, iface.ap → iface.ftmResponder ≠ none → phy.Has enableFtmResponder

theorem radar_of_capabilities {phy : Wiphy} {band : Band} {caps : Capabilities} {features : Features}
    (h : deviceCapabilities phy band = some (caps, features)) : features.radarBackground = true := by
  simp only [deviceCapabilities, Option.pure_def, Option.bind_eq_bind, Option.bind_eq_some_iff, Option.some.injEq] at h
  obtain ⟨info, -, heq⟩ := h
  rw [← (Prod.mk.inj heq).2]
  exact deviceExtendedFeatures_eq_true _ _

section Lines

variable {phy : Wiphy} {caps : Capabilities} {features : Features} {config : Config} {interfaces : List Iface}

/-- The lines of a key that no interface writes are those of the radio. -/
theorem mem_lines {key : String} {value : Value} (hkey : key ∉ ["rrm_neighbor_report", "rrm_beacon_report", "rnr", "ftm_responder"]) :
    (key, value) ∈ config.generate caps features ++ interfaces.flatMap (·.setup features) ↔
      (key, value) ∈ config.generate caps features := by
  rw [List.mem_append, List.mem_flatMap]
  refine or_iff_left ?_
  rintro ⟨iface, -, hmem⟩
  exact hkey (Iface.key_mem (Iface.mem_setup.mp hmem).2)

/-- The line of the responder is that of an interface. -/
theorem mem_lines_ftm {value : Value} :
    ("ftm_responder", value) ∈ config.generate caps features ++ interfaces.flatMap (·.setup features) ↔
      ∃ iface ∈ interfaces, iface.ap ∧ ("ftm_responder", value) ∈ iface.generate features := by
  have hradio : ("ftm_responder", value) ∉ config.generate caps features := by
    rw [Config.mem_generate (by decide)]
    exact fun h => absurd (Config.key_mem h) (by decide)
  simp only [List.mem_append, hradio, false_or, List.mem_flatMap, Iface.mem_setup]

/-- The lines of the features of 802.11ax. -/
theorem mem_lines_he {key : String} (hkey : key ∈ ["he_su_beamformer", "he_su_beamformee", "he_mu_beamformer", "he_twt_required"])
    (h : (key, .bool true) ∈ config.generate caps features ++ interfaces.flatMap (·.setup features)) :
    config.He ∧ (key, .bool true) ∈ config.he caps := by
  have hkeys : ∀ key ∈ ["he_su_beamformer", "he_su_beamformee", "he_mu_beamformer", "he_twt_required"],
      key ∉ ["rrm_neighbor_report", "rrm_beacon_report", "rnr", "ftm_responder"] ∧ key ≠ "enable_background_radar" ∧
        key ≠ "ht_coex" ∧ key ≠ "ieee80211be" := by decide
  have hno := hkeys key hkey
  rw [mem_lines hno.1, Config.mem_generate hno.2.1] at h
  exact ((Config.mem_bool h).resolve_left hno.2.2.1).resolve_left hno.2.2.2

/-- What is announced is what the phy has, where the options are modest. -/
theorem gatedLines_of_modest (h : Modest phy caps config interfaces) (hradar : features.radarBackground = true) :
    GatedLines phy caps (config.generate caps features ++ interfaces.flatMap (·.setup features)) where
  ht := by
    intro tokens hmem
    rw [mem_lines (by decide), Config.mem_generate (by decide), Config.mem_ht] at hmem
    obtain ⟨hmode, -, rfl⟩ := hmem
    exact (config.htCapab_supported caps.htCapa).mpr (h.ht hmode)
  vht := by
    intro tokens hmem
    rw [mem_lines (by decide), Config.mem_generate (by decide), Config.mem_vht] at hmem
    obtain ⟨hmode, -, rfl⟩ := hmem
    exact (config.vhtCapab_supported caps.vhtCapa).mpr (h.vht hmode)
  he := by
    intro key hmem
    refine ⟨?_, ?_, ?_, ?_⟩
    · rintro rfl
      have hhe := Config.mem_he (mem_lines_he (by decide) hmem).2
      simp only [String.reduceEq, false_and, true_and, false_or, or_false] at hhe
      exact testBit_of_and 7 hhe
    · rintro rfl
      have hhe := Config.mem_he (mem_lines_he (by decide) hmem).2
      simp only [String.reduceEq, false_and, true_and, false_or, or_false] at hhe
      exact testBit_of_and 0 hhe
    · rintro rfl
      have hhe := Config.mem_he (mem_lines_he (by decide) hmem).2
      simp only [String.reduceEq, false_and, true_and, false_or, or_false] at hhe
      exact testBit_of_and 1 hhe
    · rintro rfl
      obtain ⟨hmode, hline⟩ := mem_lines_he (by decide) hmem
      have hhe := Config.mem_he hline
      simp only [String.reduceEq, false_and, true_and, false_or] at hhe
      exact h.twt hmode hhe.2 hhe.1
  psr := by
    intro n hmem hbit
    rw [mem_lines (by decide), Config.mem_generate (by decide), Config.mem_srControl] at hmem
    obtain ⟨hmode, hcolor, rfl⟩ := hmem
    obtain ⟨hpsr, hcontrol⟩ := Config.srControl_testBit.mp hbit
    exact h.psr hmode hcolor hpsr hcontrol
  radar := by
    intro value hmem
    rw [mem_lines (by decide)] at hmem
    exact h.radar ((Config.mem_radar caps hradar).mp ⟨value, hmem⟩)
  ftm := by
    intro value hmem
    obtain ⟨iface, hiface, hap, hline⟩ := mem_lines_ftm.mp hmem
    exact h.ftm iface hiface hap (Iface.mem_ftm.mp ⟨value, hline⟩)

theorem modest_of_gatedLines (hradar : features.radarBackground = true)
    (h : GatedLines phy caps (config.generate caps features ++ interfaces.flatMap (·.setup features))) :
    Modest phy caps config interfaces where
  ht := by
    intro hmode
    refine (config.htCapab_supported caps.htCapa).mp (h.ht _ ?_)
    rw [mem_lines (by decide), Config.mem_generate (by decide), Config.mem_ht]
    exact ⟨hmode, rfl, rfl⟩
  vht := by
    intro hmode
    refine (config.vhtCapab_supported caps.vhtCapa).mp (h.vht _ ?_)
    rw [mem_lines (by decide), Config.mem_generate (by decide), Config.mem_vht]
    exact ⟨hmode, rfl, rfl⟩
  twt := by
    intro hmode hreq hbit
    refine (h.he "he_twt_required" ?_).2.2.2 rfl
    rw [mem_lines (by decide), Config.mem_generate (by decide), Config.mem_twt]
    exact ⟨hmode, hbit, hreq⟩
  psr := by
    intro hmode hcolor hpsr hcontrol
    refine h.psr config.srControl ?_ (Config.srControl_testBit.mpr ⟨hpsr, hcontrol⟩)
    rw [mem_lines (by decide), Config.mem_generate (by decide), Config.mem_srControl]
    exact ⟨hmode, hcolor, rfl⟩
  radar := by
    intro hband
    obtain ⟨value, hmem⟩ := (Config.mem_radar caps hradar).mpr hband
    exact h.radar value ((mem_lines (by decide)).mpr hmem)
  ftm := by
    intro iface hiface hap hset
    obtain ⟨value, hline⟩ := Iface.mem_ftm.mpr hset
    exact h.ftm value (mem_lines_ftm.mpr ⟨iface, hiface, hap, hline⟩)

end Lines

theorem gated_iff (phy : Wiphy) (config : Config) (interfaces : List Iface) :
    Gated phy config interfaces ↔
      ∀ caps features, deviceCapabilities phy config.band = some (caps, features) → Modest phy caps config interfaces := by
  unfold Gated setup
  constructor
  · intro h caps features hcaps
    refine modest_of_gatedLines (radar_of_capabilities hcaps) (h caps features _ hcaps ?_)
    rw [hcaps]
    rfl
  · intro h caps features out hcaps hout
    rw [hcaps] at hout
    obtain rfl := Option.some.inj hout
    exact gatedLines_of_modest (h caps features hcaps) (radar_of_capabilities hcaps)

/-- A phy that reports no extended feature. -/
def plain : Wiphy := { wiphyBands := fun _ => some {}, extendedFeatures := [] }

theorem plain_radar : ¬ Gated plain { band := .g5, htmode := .ht20, channel := 36 } [] := by
  intro h
  have hradar := (h _ _ _ rfl rfl).radar (.bool false) (List.mem_cons_self ..)
  revert hradar
  simp [Wiphy.Has, plain]

end RainWrt.Wifi.Hostapd
