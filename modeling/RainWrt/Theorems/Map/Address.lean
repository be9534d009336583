import RainWrt.Theorems.Map.Bounds

/-! What the address and the PSID of a rule are made of: the bits of the delegated prefix behind the prefix of the rule
    are moved, not mixed, so that they can be read off again. -/

namespace RainWrt.Map

open Logged

/-! ### Bits -/

/-- A bit of an object, counted from the highest of the first byte. -/
def Object.bit {n : Nat} (o : Object n) (i : Nat) : Bool := (o.byte (i / 8)).toNat.testBit (7 - i % 8)

section
variable {n m : Nat} {i k v : Nat}

theorem toBe_succ {o : Object n} : toBe (k + 1) o = 2 ^ 8 * toBe k o + (o.byte k).toNat := by
  unfold toBe
  rw [List.range_succ, List.foldl_append]
  rfl

theorem toBe_lt {o : Object n} : toBe k o < 2 ^ (8 * k) := by
  induction k with
  | zero => exact Nat.zero_lt_one
  | succ k ih =>
    have hbyte := (o.byte k).toNat_lt
    rw [toBe_succ, Nat.mul_add, Nat.pow_add, Nat.mul_comm]
    omega

theorem testBit_toBe {o : Object n} (h : i < 8 * k) : (toBe k o).testBit (8 * k - 1 - i) = o.bit i := by
  induction k with
  | zero => omega
  | succ k ih =>
    rw [toBe_succ, Nat.testBit_two_pow_mul_add _ (o.byte k).toNat_lt]
    split
    · have hbyte : i / 8 = k := by omega
      have hpos : 8 * (k + 1) - 1 - i = 7 - i % 8 := by omega
      rw [hpos, Object.bit, hbyte]
    · have hpos : 8 * (k + 1) - 1 - i - 8 = 8 * k - 1 - i := by omega
      rw [hpos, ih (by omega)]

theorem bit_ofBe (h : i < 8 * n) : (ofBe v : Object n).bit i = v.testBit (8 * n - 1 - i) := by
  have hbyte : i / 8 < n := by omega
  have hpow : 256 ^ (n - 1 - i / 8) = 2 ^ (8 * (n - 1 - i / 8)) := (Nat.pow_mul 2 8 _).symm
  have hpos : 7 - i % 8 + 8 * (n - 1 - i / 8) = 8 * n - 1 - i := by omega
  have hlow : 7 - i % 8 < 8 := by omega
  simp only [Object.bit, ofBe, if_pos hbyte, UInt8.toNat_ofNat', hpow, Nat.testBit_mod_two_pow, Nat.testBit_div_two_pow, hpos,
    hlow, decide_true, Bool.true_and]

theorem bit_zero : (Object.zero : Object n).bit i = false := by
  simp [Object.bit, Object.zero]

/-- The mask of the lower bits of a byte, and what it leaves. -/
theorem testBit_mask {rest r : Nat} (h0 : 0 < rest) (h : rest < 8) (hr : r < 8) :
    (UInt8.ofNat (1 <<< (8 - rest) - 1)).toNat.testBit (7 - r) = decide (rest ≤ r) ∧
      (~~~UInt8.ofNat (1 <<< (8 - rest) - 1)).toNat.testBit (7 - r) = decide (r < rest) := by
  have hall : ∀ rest < 8, 0 < rest → ∀ r < 8, (UInt8.ofNat (1 <<< (8 - rest) - 1)).toNat.testBit (7 - r) = decide (rest ≤ r) ∧
      (~~~UInt8.ofNat (1 <<< (8 - rest) - 1)).toNat.testBit (7 - r) = decide (r < rest) := by decide
  exact hall rest h h0 r hr

theorem bit_bmemcpy {a : Object n} {b : Object m} {bits : Nat} : (bmemcpy a b bits).val.bit i = if i < bits then b.bit i else a.bit i := by
  unfold bmemcpy
  rw [val_bind, val_bind, val_ite]
  by_cases hrest : 0 < bits % 8
  · rw [if_pos hrest]
    simp only [val_bind, val_pure, Object.bit]
    by_cases hbyte : i / 8 = bits / 8
    · obtain ⟨hlow, hhigh⟩ := testBit_mask hrest (Nat.mod_lt _ (by decide)) (Nat.mod_lt i (by decide))
      rw [if_pos hbyte, if_neg (by omega), UInt8.toNat_or, UInt8.toNat_and, UInt8.toNat_and, Nat.testBit_or, Nat.testBit_and, Nat.testBit_and,
        hlow, hhigh]
      by_cases hi : i < bits
      · have h1 : ¬bits % 8 ≤ i % 8 := by omega
        have h2 : i % 8 < bits % 8 := by omega
        simp only [h1, h2, decide_true, decide_false, Bool.and_false, Bool.true_and, Bool.false_or, if_pos hi]
      · have h1 : bits % 8 ≤ i % 8 := by omega
        have h2 : ¬i % 8 < bits % 8 := by omega
        simp only [h1, h2, decide_true, decide_false, Bool.and_true, Bool.false_and, Bool.or_false, if_neg hi]
    · rw [if_neg hbyte]
      by_cases hi : i < bits
      · rw [if_pos hi, if_pos (by omega)]
      · rw [if_neg hi, if_neg (by omega)]
  · rw [if_neg hrest]
    simp only [val_pure, Object.bit]
    by_cases hi : i < bits
    · rw [if_pos hi, if_pos (by omega)]
    · rw [if_neg hi, if_neg (by omega)]

/-- A window of the source is copied to the beginning of the destination. -/
theorem bit_bmemcpys64 {a : Object n} {b : Object m} {frombits nbits : Nat} (h : frombits % 8 + nbits ≤ 64) :
    (bmemcpys64 a b frombits nbits).val.bit i = if i < nbits then b.bit (frombits + i) else a.bit i := by
  unfold bmemcpys64
  simp only [val_bind, bit_bmemcpy]
  by_cases hi : i < nbits
  · have hbyte : (frombits % 8 + i) / 8 < (frombits + nbits) / 8 - frombits / 8 + 1 := by omega
    have hpos : 8 * 8 - 1 - i - frombits % 8 = 8 * 8 - 1 - (frombits % 8 + i) := by omega
    rw [if_pos hi, if_pos hi, bit_ofBe (by omega), Nat.testBit_mod_two_pow, Nat.testBit_shiftLeft, hpos, testBit_toBe (by omega)]
    have hsource : frombits / 8 + (frombits % 8 + i) / 8 = (frombits + i) / 8 := by omega
    have hoff : (frombits % 8 + i) % 8 = (frombits + i) % 8 := by omega
    simp only [Object.bit, if_pos hbyte, hsource, hoff]
    have h1 : 8 * 8 - 1 - i < 64 := by omega
    have h2 : 8 * 8 - 1 - i ≥ frombits % 8 := by omega
    simp only [h1, h2, decide_true, Bool.true_and]
  · rw [if_neg hi, if_neg hi]

theorem bit_shiftRight {o : Object n} (h : i < 8 * n) :
    (ofBe (toBe n o >>> k) : Object n).bit i = if i < k then false else o.bit (i - k) := by
  rw [bit_ofBe h, Nat.testBit_shiftRight]
  by_cases hi : i < k
  · rw [if_pos hi]
    exact Nat.testBit_lt_two_pow (Nat.lt_of_lt_of_le toBe_lt (Nat.pow_le_pow_right (by decide) (by omega)))
  · have hpos : k + (8 * n - 1 - i) = 8 * n - 1 - (i - k) := by omega
    rw [if_neg hi, hpos, testBit_toBe (by omega)]

/-- Some bits of an object as a number, highest first. -/
def Object.window (o : Object n) (start len : Nat) : Nat := (List.range len).foldl (fun v i => 2 * v + (o.bit (start + i)).toNat) 0

theorem window_succ {o : Object n} {start len : Nat} : o.window start (len + 1) = 2 ^ 1 * o.window start len + (o.bit (start + len)).toNat := by
  unfold Object.window
  rw [List.range_succ, List.foldl_append]
  rfl

theorem window_lt {o : Object n} {start len : Nat} : o.window start len < 2 ^ len := by
  induction len with
  | zero => exact Nat.zero_lt_one
  | succ len ih =>
    have hbit := (o.bit (start + len)).toNat_le
    rw [window_succ, Nat.pow_succ]
    omega

theorem testBit_window {o : Object n} {start len : Nat} :
    (o.window start len).testBit k = if k < len then o.bit (start + (len - 1 - k)) else false := by
  induction len generalizing k with
  | zero => exact Nat.zero_testBit k
  | succ len ih =>
    have hbit : (o.bit (start + len)).toNat < 2 ^ 1 := Nat.lt_succ_of_le (o.bit (start + len)).toNat_le
    rw [window_succ, Nat.testBit_two_pow_mul_add _ hbit]
    cases k with
    | zero =>
      rw [if_pos Nat.zero_lt_one, if_pos (Nat.succ_pos len), Nat.testBit_bool_toNat, decide_eq_true rfl, Bool.true_and]
      rfl
    | succ k =>
      rw [if_neg (by omega), ih]
      by_cases hk : k < len
      · have hpos : len + 1 - 1 - (k + 1) = len - 1 - k := by omega
        rw [if_pos (by omega), if_pos (by omega), hpos]
        rfl
      · rw [if_neg (by omega), if_neg (by omega)]

theorem testBit_toBe_eq {o : Object n} : (toBe n o).testBit k = if k < 8 * n then o.bit (8 * n - 1 - k) else false := by
  split
  · have hpos : 8 * n - 1 - (8 * n - 1 - k) = k := by omega
    have hbit : 8 * n - 1 - k < 8 * n := by omega
    rw [← testBit_toBe hbit, hpos]
  · exact Nat.testBit_lt_two_pow (Nat.lt_of_lt_of_le toBe_lt (Nat.pow_le_pow_right (by decide) (by omega)))

theorem toBe_ofBe (h : v < 2 ^ (8 * n)) : toBe n (ofBe v : Object n) = v := by
  apply Nat.eq_of_testBit_eq
  intro k
  rw [testBit_toBe_eq]
  split
  · have hpos : 8 * n - 1 - (8 * n - 1 - k) = k := by omega
    rw [bit_ofBe (by omega), hpos]
  · exact (Nat.testBit_lt_two_pow (Nat.lt_of_lt_of_le h (Nat.pow_le_pow_right (by decide) (by omega)))).symm

/-- A window that is copied to nothing, as a number. -/
theorem toBe_bmemcpys64 {b : Object m} {frombits nbits : Nat} (h : frombits % 8 + nbits ≤ 64) (hn : nbits ≤ 8 * n) :
    toBe n (bmemcpys64 (.zero : Object n) b frombits nbits).val = b.window frombits nbits <<< (8 * n - nbits) := by
  apply Nat.eq_of_testBit_eq
  intro k
  rw [testBit_toBe_eq, Nat.testBit_shiftLeft, testBit_window, bit_bmemcpys64 h, bit_zero]
  by_cases hk : 8 * n - nbits ≤ k
  · by_cases hlow : k < 8 * n
    · have hpos : nbits - 1 - (k - (8 * n - nbits)) = 8 * n - 1 - k := by omega
      rw [if_pos hlow, if_pos (by omega), if_pos (by omega), hpos, decide_eq_true hk, Bool.true_and]
    · rw [if_neg hlow, if_neg (by omega), Bool.and_false]
  · rw [if_neg (show ¬8 * n - 1 - k < nbits by omega), decide_eq_false hk, Bool.false_and, ite_self]

end

/-! ### What is derived -/

section
variable {r : Rule}

/-- The lengths of a rule whose EA bits lie in the delegated prefix. -/
structure Rule.Embeds (r : Rule) : Prop where
  prefix4len : 0 ≤ r.prefix4len ∧ r.prefix4len < 32
  prefix6len : 0 ≤ r.prefix6len
  pdlen : r.prefix6len + r.ealen ≤ r.pdlen ∧ r.pdlen < 128
  psidlen : 0 ≤ r.psidlen ∧ r.psidlen ≤ 16
  le : r.psidlen ≤ r.ealen
  suffix : r.ealen - r.psidlen ≤ 32 - r.prefix4len
  psid : r.psid < 0

/-- A bit of the IPv4 address: of its prefix, then of the delegated prefix. -/
def Rule.addrBit (r : Rule) (i : Nat) : Bool :=
  if i < r.prefix4len.toNat then r.ipv4prefix.bit i
  else if i < r.prefix4len.toNat + (r.ealen - r.psidlen).toNat then r.pd.bit (r.prefix6len.toNat + (i - r.prefix4len.toNat))
  else false

theorem sizeT_eq_toNat {n : Int} (h : 0 ≤ n) (h' : n < 2 ^ 64) : sizeT n = n.toNat := by
  have := sizeT_of_nonneg h h'
  omega

theorem bit_deriveAddr (h : r.Embeds) {i : Nat} (hi : i < 32) : (deriveAddr r).val.1.bit i = r.addrBit i := by
  obtain ⟨⟨h1, h2⟩, h3, ⟨h4, h5⟩, ⟨h6, h7⟩, h8, h9, -⟩ := h
  have hpd : 0 ≤ r.pdlen ∨ r.ealen = r.psidlen := by omega
  unfold deriveAddr
  simp only [if_pos hpd, val_bind, val_pure, bit_bmemcpy]
  rw [sizeT_eq_toNat h1 (by omega), sizeT_eq_toNat h3 (by omega), sizeT_eq_toNat (n := r.ealen - r.psidlen) (by omega) (by omega)]
  unfold Rule.addrBit
  by_cases hp4 : i < r.prefix4len.toNat
  · rw [if_pos hp4, if_pos hp4]
  · rw [if_neg hp4, if_neg hp4, bit_shiftRight (by omega), if_neg hp4, bit_bmemcpys64 (by omega)]
    by_cases hea : i < r.prefix4len.toNat + (r.ealen - r.psidlen).toNat
    · rw [if_pos hea, if_pos (by omega)]
    · rw [if_neg hea, if_neg (by omega), bit_zero]

/-- The PSID of a rule: the last of the EA bits. -/
def Rule.psidBits (r : Rule) : Nat := r.pd.window (r.prefix6len + r.ealen - r.psidlen).toNat r.psidlen.toNat

theorem derivePsid_eq (h : r.Embeds) :
    (derivePsid r).val.1 = (r.psidBits <<< (16 - r.psidlen).toNat : Nat) ∧ toBe 2 (derivePsid r).val.2 = r.psidBits := by
  obtain ⟨⟨h1, h2⟩, h3, ⟨h4, h5⟩, ⟨h6, h7⟩, h8, h9, h10⟩ := h
  have hpd : r.psid < 0 ∧ 0 ≤ r.psidlen ∧ 0 ≤ r.pdlen := by omega
  have hlt : r.psidBits < 2 ^ r.psidlen.toNat := window_lt
  have hcopy : toBe 2 (bmemcpys64 (.zero : Object 2) r.pd (r.prefix6len + r.ealen - r.psidlen).toNat r.psidlen.toNat).val =
      r.psidBits <<< (8 * 2 - r.psidlen.toNat) := toBe_bmemcpys64 (by omega) (by omega)
  have hwidth : 8 * 2 - r.psidlen.toNat = (16 - r.psidlen).toNat := by omega
  rw [hwidth] at hcopy
  unfold derivePsid
  simp only [if_pos hpd, val_bind, val_pure, val_ite]
  rw [sizeT_eq_toNat (by omega) (by omega), sizeT_eq_toNat h6 (by omega)]
  by_cases hlen : 0 < r.psidlen
  · have hpsid : (r.psidBits <<< (16 - r.psidlen).toNat : Nat) >>> (16 - r.psidlen).toNat = r.psidBits := Nat.shiftLeft_shiftRight _ _
    have hsmall : r.psidBits < 2 ^ 16 := Nat.lt_of_lt_of_le hlt (Nat.pow_le_pow_right (by decide) (by omega))
    rw [if_pos hlen, hcopy, ← Int.natCast_shiftRight, hpsid, ← Int.natCast_shiftLeft]
    have hmod : ((r.psidBits : Int) % 65536).toNat = r.psidBits := by omega
    rw [hmod]
    exact ⟨rfl, toBe_ofBe hsmall⟩
  · have hzero : r.psidBits = 0 := by
      have hlen0 : r.psidlen.toNat = 0 := by omega
      rw [hlen0] at hlt
      omega
    rw [if_neg hlen, hcopy, hzero, Nat.zero_shiftLeft]
    exact ⟨rfl, rfl⟩

/-- An EA bit, read off an address behind its prefix and an aligned PSID. -/
def eaBit (prefix4len suffixlen : Nat) (addr : Object 4) (psid i : Nat) : Bool :=
  if i < suffixlen then addr.bit (prefix4len + i) else psid.testBit (15 - (i - suffixlen))

/-- An EA bit is found again where the address or the PSID has it. -/
theorem eaBit_eq (h : r.Embeds) {addr : Object 4} (haddr : ∀ i < 32, addr.bit i = r.addrBit i) {i : Nat} (hi : i < r.ealen.toNat) :
    eaBit r.prefix4len.toNat (r.ealen - r.psidlen).toNat addr (r.psidBits <<< (16 - r.psidlen).toNat) i = r.pd.bit (r.prefix6len.toNat + i) := by
  obtain ⟨⟨h1, h2⟩, h3, ⟨h4, h5⟩, ⟨h6, h7⟩, h8, h9, -⟩ := h
  unfold eaBit
  by_cases hsuffix : i < (r.ealen - r.psidlen).toNat
  · have hpos : r.prefix6len.toNat + (r.prefix4len.toNat + i - r.prefix4len.toNat) = r.prefix6len.toNat + i := by omega
    rw [if_pos hsuffix, haddr _ (by omega), Rule.addrBit, if_neg (by omega), if_pos (by omega), hpos]
  · have hge : 15 - (i - (r.ealen - r.psidlen).toNat) ≥ (16 - r.psidlen).toNat := by omega
    have hlt : 15 - (i - (r.ealen - r.psidlen).toNat) - (16 - r.psidlen).toNat < r.psidlen.toNat := by omega
    rw [if_neg hsuffix, Nat.testBit_shiftLeft, Rule.psidBits, testBit_window, if_pos hlt, decide_eq_true hge, Bool.true_and]
    congr 1
    omega

theorem isSkipped_of_embeds (h : r.Embeds) : r.isSkipped = false := by
  obtain ⟨⟨h1, h2⟩, h3, ⟨h4, h5⟩, ⟨h6, h7⟩, h8, -, -⟩ := h
  exact isSkipped_eq_false.mpr ⟨h1, h3, by omega, h7, h8⟩

/-- A rule with a delegated prefix is printed with what is derived of it. -/
theorem printRule_embeds (h : r.Embeds) (legacy : Bool) :
    ∃ p, (printRule legacy r).val = some p ∧ p.rule = r ∧ p.derived.ipv4addr = (deriveAddr r).val.1 ∧ p.derived.psid = (derivePsid r).val.1 ∧
      p.derived.psid16 = (derivePsid r).val.2 := by
  have h0 : 0 ≤ r.pdlen := by
    have h1 := h.prefix6len
    have h2 := h.pdlen
    have h3 := h.psidlen
    have h4 := h.le
    omega
  have hneg : ¬(r.pdlen < 0 ∧ r.fmr = false) := by omega
  unfold printRule
  rw [isSkipped_of_embeds h]
  simp only [Bool.false_eq_true, if_false, if_neg hneg, if_pos h0, val_bind, val_pure]
  exact ⟨_, rfl, rfl, rfl, rfl, rfl⟩

/-- The EA bits of a delegated prefix stand in the address and in the PSID, and can be read off there. -/
theorem printRule_embedded (h : r.Embeds) (legacy : Bool) :
    ∃ p, (printRule legacy r).val = some p ∧ p.rule = r ∧
      (∀ i < 32, p.derived.ipv4addr.bit i = r.addrBit i) ∧
      toBe 2 p.derived.psid16 = r.psidBits ∧ p.derived.psid = (r.psidBits <<< (16 - r.psidlen).toNat : Nat) ∧
      (∀ i < r.ealen.toNat,
        eaBit r.prefix4len.toNat (r.ealen - r.psidlen).toNat p.derived.ipv4addr p.derived.psid.toNat i = r.pd.bit (r.prefix6len.toNat + i)) ∧
      ∀ (pd : Object 16) (pdlen : Int) (p' : Printed), Rule.Embeds { r with pd, pdlen } → (printRule legacy { r with pd, pdlen }).val = some p' →
        (∃ i < r.ealen.toNat, pd.bit (r.prefix6len.toNat + i) ≠ r.pd.bit (r.prefix6len.toNat + i)) →
          ¬(toBe 4 p'.derived.ipv4addr = toBe 4 p.derived.ipv4addr ∧ p'.derived.psid = p.derived.psid) := by
  obtain ⟨p, hp, hrule, haddr, hpsid, hpsid16⟩ := printRule_embeds h legacy
  have hbits : ∀ i < 32, p.derived.ipv4addr.bit i = r.addrBit i := fun i hi => haddr ▸ bit_deriveAddr h hi
  refine ⟨p, hp, hrule, hbits, ?_, ?_, ?_, ?_⟩
  · rw [hpsid16, (derivePsid_eq h).2]
  · rw [hpsid, (derivePsid_eq h).1]
  · intro i hi
    rw [hpsid, (derivePsid_eq h).1, Int.toNat_natCast, eaBit_eq h hbits hi]
  · rintro pd pdlen p' h' hp' ⟨i, hi, hdiff⟩ ⟨hsame4, hsame⟩
    obtain ⟨q, hq, -, haddr', hpsid', -⟩ := printRule_embeds h' legacy
    obtain rfl := Option.some.inj (hq.symm.trans hp')
    rw [hpsid', hpsid, (derivePsid_eq h').1, (derivePsid_eq h).1, Int.natCast_inj] at hsame
    have hbits' : ∀ i < 32, p.derived.ipv4addr.bit i = Rule.addrBit { r with pd, pdlen } i := by
      intro k hk
      rw [← bit_deriveAddr h' hk, ← haddr', ← testBit_toBe (o := p.derived.ipv4addr) (k := 4) hk, ← hsame4, testBit_toBe hk]
    apply hdiff
    rw [← eaBit_eq h hbits hi, ← hsame]
    exact (eaBit_eq h' hbits' hi).symm

end

def settledRule : Rule := settle false sharedOptions ⟨56, sharedOptions.pd⟩ ['*']

theorem settledRule_lengths : (settledRule.prefix4len = 24 ∧ settledRule.prefix6len = 40 ∧ settledRule.pdlen = 56 ∧ settledRule.ealen = 16 ∧
    settledRule.psidlen = 8 ∧ settledRule.psid = -1) ∧ settledRule.psidBits = 0x34 := by
  simp only [settledRule, sharedOptions, show sharedRule = _ from String.toList_ofList]
  decide

theorem printRule_embedded_shared :
    ∃ p, (printRule false settledRule).val = some p ∧ toBe 2 p.derived.psid16 = 0x34 ∧ p.derived.psid = 0x3400 := by
  obtain ⟨⟨h1, h2, h3, h4, h5, h6⟩, hbits⟩ := settledRule_lengths
  have h : settledRule.Embeds := ⟨by omega, by omega, by omega, by omega, by omega, by omega, by omega⟩
  obtain ⟨p, hp, -, -, hpsid16, hpsid, -⟩ := printRule_embedded h false
  refine ⟨p, hp, hpsid16.trans hbits, ?_⟩
  rw [hpsid, hbits, h5]
  rfl

end RainWrt.Map
