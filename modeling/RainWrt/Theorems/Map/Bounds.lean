import RainWrt.Map.Rule

/-! When `mapcalc` stays within its operands: the lengths of a rule are combined before they are checked against each
    other, so not every rule that is printed was computed with shifts and copies that are defined. -/

namespace RainWrt.Map

open Logged

/-! ### Copies -/

section
variable {n m bits : Nat} {a : Object n} {b : Object m}

theorem all_bmemcpy : All Op.InBounds (bmemcpy a b bits) ↔ bits ≤ 8 * n ∧ bits ≤ 8 * m := by
  unfold bmemcpy
  simp only [all_bind, all_log, all_ite, all_pure, Op.InBounds, imp_iff_not_or, and_true, or_true]
  omega

theorem all_sameBits_of_le (hn : bits ≤ 8 * n) (hm : bits ≤ 8 * m) : All Op.InBounds (sameBits a b bits) := by
  unfold sameBits bmemcmp
  simp only [all_bind, all_log, all_ite, all_pure, Op.InBounds, imp_iff_not_or, and_true, or_true]
  omega

theorem not_all_sameBits (hn : 8 * n + 8 ≤ bits) : ¬All Op.InBounds (sameBits a b bits) := by
  unfold sameBits bmemcmp
  simp only [all_bind, all_log, Op.InBounds]
  omega

theorem all_bmemcpys64 (hn : n ≤ 4) {frombits nbits : Nat} :
    All Op.InBounds (bmemcpys64 a b frombits nbits) ↔ frombits + nbits < 8 * m ∧ nbits ≤ 8 * n := by
  unfold bmemcpys64
  simp only [all_bind, all_log, all_bmemcpy, Op.InBounds]
  omega

end

theorem sizeT_of_nonneg {n : Int} (h : 0 ≤ n) (h' : n < 2 ^ 64) : (sizeT n : Int) = n := by
  unfold sizeT
  omega

theorem sizeT_of_neg {n : Int} (h : n < 0) (h' : -2 ^ 32 ≤ n) : 2 ^ 63 ≤ sizeT n := by
  unfold sizeT
  omega

theorem toInt_range (n : Nat) : -2 ^ 31 ≤ toInt n ∧ toInt n < 2 ^ 31 := by
  unfold toInt
  have h1 := Int.le_bmod (x := n) (m := 2 ^ 32) (by decide)
  have h2 := Int.bmod_lt (x := n) (m := 2 ^ 32) (by decide)
  omega

/-! ### Options -/

/-- What the bounds of the options leave. -/
structure Options.Bounded (o : Options) : Prop where
  ealen : o.ealen ≤ 48
  prefix4len : o.prefix4len ≤ 32
  prefix6len : o.prefix6len ≤ 128
  pdlen : o.pdlen ≤ 128
  offset : o.offset ≤ 16
  psidlen : o.psidlen ≤ 16
  psid : o.psid ≤ 65535

section
variable {libc : Libc} {o o' : Options}

theorem within_le {bound intval old : Int} {errno : Bool} (hold : old ≤ bound) : (within bound intval errno).getD old ≤ bound := by
  unfold within
  by_cases hle : intval ≤ bound ∧ errno = false
  · rw [if_pos hle]
    exact hle.1
  · rw [if_neg hle]
    exact hold

theorem number_le {bound old : Int} {value : Option Text} {v : Option Int} (h : number libc bound value = some v) (hold : old ≤ bound) :
    v.getD old ≤ bound := by
  obtain ⟨t, -, rfl⟩ := Option.map_eq_some_iff.mp h
  exact within_le hold

/-- The options keep their bounds, whatever is set. -/
theorem setOption_bounded (h : o.Bounded) {option : Text} (hs : setOption libc o option = some o') : o'.Bounded := by
  unfold setOption at hs
  obtain ⟨name, value⟩ := getsubopt option
  simp only at hs
  split at hs
  all_goals
    first
    | obtain rfl := Option.some.inj hs
    | obtain ⟨v, hv, rfl⟩ := Option.map_eq_some_iff.mp hs
  case h_3 => exact { h with ealen := number_le hv h.ealen }
  case h_4 => exact { h with prefix4len := number_le hv h.prefix4len }
  case h_5 => exact { h with prefix6len := number_le hv h.prefix6len }
  case h_9 => exact { h with offset := number_le hv h.offset }
  case h_10 => exact { h with psidlen := number_le hv h.psidlen }
  case h_11 => exact { h with pdlen := number_le hv h.pdlen }
  case h_12 => exact { h with psid := number_le hv h.psid }
  all_goals exact { h with }

theorem parseRule_bounded {rule : Text} (h : parseRule libc rule = some o) : o.Bounded := by
  have hinit : Options.init.Bounded := ⟨by decide, by decide, by decide, by decide, by decide, by decide, by decide⟩
  unfold parseRule at h
  generalize Options.init = o₀ at h hinit
  generalize subopts rule = l at h
  induction l generalizing o₀ with
  | nil =>
    obtain rfl := Option.some.inj h
    exact hinit
  | cons option l ih =>
    rw [List.foldlM_cons] at h
    obtain ⟨o₁, h1, h⟩ := Option.bind_eq_some_iff.mp h
    exact ih o₁ (setOption_bounded hinit h1) h

end

/-! ### The search -/

/-- An entry that is copied only if it is a prefix, and compared only by bits that it has. -/
def Entry.Fits (libc : Libc) (o : Options) (s : Found) (e : Entry) : Prop :=
  match e.address, e.mask with
  | some address, some mask =>
    (s.pdlen < maskOf o mask → 128 < maskOf o mask → (sameBits (libc.inetPton6 address .zero) o.ipv6prefix (sizeT o.prefix6len)).val = false) ∧
      (o.lw4o6 = true → s.pdlen < o.prefix6len → 0 ≤ maskOf o mask)
  | _, _ => True

/-- Every entry that the search looks at fits. -/
def SearchFits (libc : Libc) (o : Options) (argv1 : Text) (s : Found) : List Interface → Prop
  | [] => True
  | c :: dump =>
    match isAsked argv1 c with
    | none => SearchFits libc o argv1 s dump
    | some _ =>
      Throughout (Entry.Fits libc o) (matchEntry libc o) s (entriesOf o c) ∧
        (((entriesOf o c).foldlM (matchEntry libc o) s).val.pdlen < 0 → SearchFits libc o argv1 ((entriesOf o c).foldlM (matchEntry libc o) s).val dump)

section
variable {libc : Libc} {o : Options} {s : Found} {e : Entry} {argv1 iface : Text} {dump : List Interface}

theorem maskOf_range (mask : UInt32) : -2 ^ 31 ≤ maskOf o mask ∧ maskOf o mask < 2 ^ 31 := by
  unfold maskOf
  split
  · decide
  · exact toInt_range _

/-- An entry is compared and copied within bounds if it fits. -/
theorem all_matchEntry (h0 : 0 ≤ o.prefix6len) (h1 : o.prefix6len ≤ 128) : All Op.InBounds (matchEntry libc o s e) ↔ e.Fits libc o s := by
  unfold matchEntry Entry.Fits
  cases e.address with
  | none => exact iff_of_true (all_pure s) trivial
  | some address =>
    cases e.mask with
    | none => exact iff_of_true (all_pure s) trivial
    | some mask =>
      have hmask := maskOf_range (o := o) mask
      have hp6 := sizeT_of_nonneg h0 (by omega)
      have hsame : All Op.InBounds (sameBits (libc.inetPton6 address .zero) o.ipv6prefix (sizeT o.prefix6len)) :=
        all_sameBits_of_le (by omega) (by omega)
      dsimp only
      generalize maskOf o mask = n at hmask
      by_cases hin : s.pdlen < n ∧ o.prefix6len ≤ n
      · have hn := sizeT_of_nonneg (n := n) (by omega) (by omega)
        have haround : ¬(o.lw4o6 = true ∧ s.pdlen < o.prefix6len ∧ n < o.prefix6len) := by omega
        simp only [if_pos hin, if_neg haround, all_bind, hsame, true_and]
        generalize (sameBits (libc.inetPton6 address .zero) o.ipv6prefix (sizeT o.prefix6len)).val = inside
        cases inside with
        | true =>
          simp only [if_true, all_bind, all_bmemcpy, all_pure, and_true]
          constructor
          · intro hle
            exact ⟨fun _ h128 => absurd h128 (by omega), fun _ _ => by omega⟩
          · rintro ⟨hle, -⟩
            have h128 : ¬128 < n := fun h128 => by cases hle hin.1 h128
            omega
        | false =>
          simp only [Bool.false_eq_true, if_false, all_bind, all_pure, val_pure, true_and, implies_true, true_iff]
          omega
      · have hout : (s.pdlen < n → 128 < n → (sameBits (libc.inetPton6 address .zero) o.ipv6prefix (sizeT o.prefix6len)).val = false) ↔ True :=
          iff_true_intro fun h h' => absurd ⟨h, by omega⟩ hin
        simp only [if_neg hin, all_bind, all_pure, val_pure, Bool.false_eq_true, if_false, true_and, hout]
        by_cases haround : o.lw4o6 = true ∧ s.pdlen < o.prefix6len ∧ n < o.prefix6len
        · have hfound : All Op.InBounds (bmemcpy s.pd o.ipv6prefix (sizeT o.prefix6len)) := all_bmemcpy.mpr (by omega)
          simp only [if_pos haround, all_ite, all_bind, all_pure, hfound, implies_true, and_true]
          constructor
          · intro hall _ _
            by_contra hneg
            have hhuge := sizeT_of_neg (n := n) (by omega) (by omega)
            exact not_all_sameBits (by omega) hall
          · intro hle
            have hn := sizeT_of_nonneg (hle haround.1 haround.2.1) (by omega)
            exact all_sameBits_of_le (by omega) (by omega)
        · simp only [if_neg haround, all_bind, all_pure, val_pure, Bool.false_eq_true, if_false, true_and, true_iff]
          intro hl hlt
          by_contra hneg
          exact haround ⟨hl, hlt, by omega⟩

/-- A prefix that was found within bounds has at most 128 bits. -/
theorem matchEntry_pdlen (h1 : o.prefix6len ≤ 128) (hs : s.pdlen ≤ 128) (he : e.Fits libc o s) :
    (matchEntry libc o s e).val.pdlen ≤ 128 := by
  unfold matchEntry
  unfold Entry.Fits at he
  cases haddress : e.address with
  | none => exact hs
  | some address =>
    cases hmask : e.mask with
    | none => exact hs
    | some mask =>
      rw [haddress, hmask] at he
      dsimp only at he ⊢
      generalize maskOf o mask = n at he ⊢
      have haround : ∀ x y : Calc Bool, (if o.lw4o6 = true ∧ s.pdlen < o.prefix6len ∧ n < o.prefix6len then do
            let around ← x
            if around then return (⟨o.prefix6len, ← bmemcpy s.pd o.ipv6prefix (sizeT o.prefix6len)⟩ : Found) else return s
          else do
            let around ← y
            if around then return ⟨o.prefix6len, ← bmemcpy s.pd o.ipv6prefix (sizeT o.prefix6len)⟩ else return s).val.pdlen ≤ 128 := by
        intro x y
        split
        · rw [val_bind]
          split
          · exact h1
          · exact hs
        · rw [val_bind]
          split
          · exact h1
          · exact hs
      by_cases hin : s.pdlen < n ∧ o.prefix6len ≤ n
      · rw [if_pos hin, val_bind]
        cases hinside : (sameBits (libc.inetPton6 address .zero) o.ipv6prefix (sizeT o.prefix6len)).val with
        | true =>
          have hle : n ≤ 128 := by
            by_contra h128
            exact Bool.noConfusion (hinside.symm.trans (he.1 hin.1 (by omega)))
          exact hle
        | false => exact haround _ _
      · rw [if_neg hin, val_bind]
        exact haround _ _

theorem all_findPd (h0 : 0 ≤ o.prefix6len) (h1 : o.prefix6len ≤ 128) :
    All Op.InBounds (findPd libc o argv1 iface s dump) ↔ SearchFits libc o argv1 s dump := by
  induction dump generalizing s with
  | nil => exact iff_of_true (all_pure _) trivial
  | cons c dump ih =>
    unfold findPd SearchFits
    cases isAsked argv1 c with
    | none => exact ih
    | some name =>
      simp only [all_bind, all_ite, all_pure, all_foldlM, ih, Int.not_le, implies_true, true_and]
      exact and_congr (throughout_congr fun s e _ => all_matchEntry h0 h1) Iff.rfl

theorem findPd_pdlen (h1 : o.prefix6len ≤ 128) (hs : s.pdlen ≤ 128) (hf : SearchFits libc o argv1 s dump) :
    (findPd libc o argv1 iface s dump).val.1.pdlen ≤ 128 := by
  have hfold : ∀ l : List Entry, ∀ s : Found, s.pdlen ≤ 128 → Throughout (Entry.Fits libc o) (matchEntry libc o) s l →
      (l.foldlM (matchEntry libc o) s).val.pdlen ≤ 128 := by
    intro l
    induction l with
    | nil => exact fun s hs _ => hs
    | cons e l ih => exact fun s hs hf => ih _ (matchEntry_pdlen h1 hs hf.1) hf.2
  induction dump generalizing s with
  | nil => exact hs
  | cons c dump ih =>
    unfold findPd
    unfold SearchFits at hf
    cases hasked : isAsked argv1 c with
    | none =>
      rw [hasked] at hf
      exact ih hs hf
    | some name =>
      rw [hasked] at hf
      have hle := hfold _ s hs hf.1
      dsimp only
      rw [val_bind, val_ite]
      split
      · exact hle
      · exact ih hle (hf.2 (by omega))

end

/-! ### Rules -/

section
variable {r : Rule}

/-- A rule that is not skipped at once. -/
structure Rule.Proper (r : Rule) : Prop where
  prefix4len : 0 ≤ r.prefix4len
  prefix6len : 0 ≤ r.prefix6len
  ealen : 0 ≤ r.ealen
  psidlen : r.psidlen ≤ 16
  le : r.psidlen ≤ r.ealen

theorem isSkipped_eq_false : r.isSkipped = false ↔ r.Proper := by
  simp only [Rule.isSkipped, Bool.or_eq_false_iff, decide_eq_false_iff_not]
  constructor
  · rintro ⟨⟨⟨⟨h1, h2⟩, h3⟩, h4⟩, h5⟩
    exact ⟨by omega, by omega, by omega, by omega, by omega⟩
  · rintro ⟨h1, h2, h3, h4, h5⟩
    omega

/-- What the bounds of the options leave of a rule. -/
structure Rule.Bounded (r : Rule) : Prop where
  prefix4len : r.prefix4len ≤ 32
  prefix6len : r.prefix6len ≤ 128
  ealen : r.ealen < 2 ^ 32
  offset : 0 ≤ r.offset ∧ r.offset ≤ 16
  psidlen : 0 ≤ r.psidlen

theorem all_derivePsid (hp : r.Proper) (hb : r.Bounded) :
    All Op.InBounds (derivePsid r) ↔ (r.psid < 0 → 0 ≤ r.pdlen → r.prefix6len + r.ealen < 128) := by
  obtain ⟨h1, h2, h3, h4, h5⟩ := hp
  obtain ⟨h6, h7, h8, -, h9⟩ := hb
  have hfrom := sizeT_of_nonneg (n := r.prefix6len + r.ealen - r.psidlen) (by omega) (by omega)
  have hlen := sizeT_of_nonneg h9 (by omega)
  have hshift : ∀ (psid : Int) (psid16 : Object 2), All Op.InBounds (if 0 < r.psidlen then do
      log (.shift (16 - r.psidlen) 32)
      let psid := psid >>> (16 - r.psidlen).toNat
      let psid16 : Object 2 := ofBe (psid % 65536).toNat
      log (.shift (16 - r.psidlen) 32)
      return (psid <<< (16 - r.psidlen).toNat, psid16)
    else return (psid, psid16)) := by
    intro psid psid16
    simp only [all_ite, all_bind, all_log, all_pure, Op.InBounds, and_true, implies_true]
    omega
  unfold derivePsid
  simp only [all_ite, all_bind, all_bmemcpys64 (n := 2) (by decide), all_pure, hshift, and_true, implies_true]
  omega

theorem all_deriveAddr (hp : r.Proper) (hb : r.Bounded) :
    All Op.InBounds (deriveAddr r) ↔
      (0 ≤ r.pdlen ∨ r.ealen = r.psidlen → r.prefix6len + r.ealen - r.psidlen < 128 ∧ r.ealen - r.psidlen ≤ 32 ∧ r.prefix4len < 32) := by
  obtain ⟨h1, h2, h3, h4, h5⟩ := hp
  obtain ⟨h6, h7, h8, -, h9⟩ := hb
  have hfrom := sizeT_of_nonneg h2 (by omega)
  have hlen := sizeT_of_nonneg (n := r.ealen - r.psidlen) (by omega) (by omega)
  have hp4 := sizeT_of_nonneg h1 (by omega)
  unfold deriveAddr
  simp only [all_ite, all_bind, all_bmemcpys64 (n := 4) (by decide), all_bmemcpy, all_log, all_pure, Op.InBounds, and_true, implies_true]
  refine imp_congr_right fun _ => ?_
  omega

theorem all_deriveAddr6 {legacy : Bool} {d : Derived} (h0 : 0 ≤ r.pdlen) (h1 : r.pdlen ≤ 128) : All Op.InBounds (deriveAddr6 legacy r d) := by
  have hlen := sizeT_of_nonneg h0 (by omega)
  have hoff : (if legacy = true then 9 else 10) ≤ 10 := by split <;> omega
  unfold deriveAddr6
  simp only [all_bind, all_log, all_bmemcpy, Op.InBounds]
  omega

theorem all_printPorts (hb : r.Bounded) {psid : Int} : All Op.InBounds (printPorts r psid) ↔ (0 < r.psidlen ∧ 0 ≤ psid → r.offset + r.psidlen ≤ 16) := by
  obtain ⟨-, -, -, ⟨h1, h2⟩, -⟩ := hb
  have hround : ∃ k, k ∈ List.range' (firstRound r.offset.toNat) (1 <<< r.offset.toNat - firstRound r.offset.toNat) := by
    refine ⟨firstRound r.offset.toNat, List.mem_range'_1.mpr ⟨Nat.le_refl _, ?_⟩⟩
    have hpow : r.offset.toNat < 2 ^ r.offset.toNat := Nat.lt_two_pow_self
    rw [Nat.shiftLeft_eq, Nat.one_mul]
    unfold firstRound
    split
    · omega
    · omega
  obtain ⟨k, hk⟩ := hround
  unfold printPorts
  simp only [all_ite, all_bind, all_log, all_forM, all_pure, Op.InBounds, and_true, implies_true]
  refine imp_congr_right fun hc => ?_
  constructor
  · rintro ⟨-, hall⟩
    have := (hall k hk).2.2.1
    omega
  · intro hle
    exact ⟨by omega, fun _ _ => by omega⟩

/-- A number keeps its sign when its lower bits are cleared. -/
theorem shift_nonneg {n : Int} {k : Nat} : 0 ≤ (n >>> k) <<< k ↔ 0 ≤ n := by
  have hpow : (0 : Int) < 2 ^ k := Int.pow_pos (by decide)
  rw [Int.shiftRight_eq_div_pow, Int.shiftLeft_eq]
  push_cast
  constructor
  · intro h
    exact (Int.ediv_nonneg_iff_of_pos hpow).mp (Int.nonneg_of_mul_nonneg_left h hpow)
  · intro h
    exact Int.mul_nonneg ((Int.ediv_nonneg_iff_of_pos hpow).mpr h) (Int.le_of_lt hpow)

/-- The sign of the PSID that the port sets are computed of. -/
theorem derivePsid_nonneg (hb : r.Bounded) : 0 ≤ (derivePsid r).val.1 ↔ 0 ≤ r.psid ∨ 0 ≤ r.pdlen := by
  have hlen := hb.psidlen
  unfold derivePsid
  by_cases hpd : r.psid < 0 ∧ 0 ≤ r.psidlen ∧ 0 ≤ r.pdlen
  · simp only [if_pos hpd, val_bind, val_pure, val_ite]
    split
    · rw [shift_nonneg]
      omega
    · omega
  · simp only [if_neg hpd, val_bind, val_pure, val_ite]
    split
    · rw [shift_nonneg]
      omega
    · omega

/-- The lengths of a rule go together. -/
structure Rule.Fits (r : Rule) : Prop where
  psid : r.psid < 0 → 0 ≤ r.pdlen → r.prefix6len + r.ealen < 128
  address : 0 ≤ r.pdlen ∨ r.ealen = r.psidlen → r.prefix6len + r.ealen - r.psidlen < 128 ∧ r.ealen - r.psidlen ≤ 32 ∧ r.prefix4len < 32
  ports : 0 < r.psidlen → 0 ≤ r.psid ∨ 0 ≤ r.pdlen → r.offset + r.psidlen ≤ 16

instance (r : Rule) : Decidable r.Fits :=
  decidable_of_iff ((r.psid < 0 → 0 ≤ r.pdlen → r.prefix6len + r.ealen < 128) ∧
      (0 ≤ r.pdlen ∨ r.ealen = r.psidlen → r.prefix6len + r.ealen - r.psidlen < 128 ∧ r.ealen - r.psidlen ≤ 32 ∧ r.prefix4len < 32) ∧
      (0 < r.psidlen → 0 ≤ r.psid ∨ 0 ≤ r.pdlen → r.offset + r.psidlen ≤ 16))
    ⟨fun ⟨h1, h2, h3⟩ => ⟨h1, h2, h3⟩, fun ⟨h1, h2, h3⟩ => ⟨h1, h2, h3⟩⟩

theorem printRule_printed {legacy : Bool} {p : Printed} (h : (printRule legacy r).val = some p) : r.Proper ∧ ¬(r.pdlen < 0 ∧ r.fmr = false) := by
  unfold printRule at h
  cases hskip : r.isSkipped with
  | true =>
    rw [hskip] at h
    nomatch h
  | false =>
    rw [hskip] at h
    refine ⟨isSkipped_eq_false.mp hskip, fun hpd => ?_⟩
    simp only [Bool.false_eq_true, if_false, if_pos hpd, val_bind, val_pure] at h
    nomatch h

/-- A rule is computed within bounds if its lengths go together. -/
theorem all_printRule {legacy : Bool} (hp : r.Proper) (hb : r.Bounded) (hpd : r.pdlen ≤ 128) (hfmr : ¬(r.pdlen < 0 ∧ r.fmr = false)) :
    All Op.InBounds (printRule legacy r) ↔ r.Fits := by
  have hderive : All Op.InBounds (derive r) ↔ All Op.InBounds (derivePsid r) ∧ All Op.InBounds (deriveAddr r) := by
    unfold derive
    simp only [all_bind, all_pure, and_true]
  have hports : All Op.InBounds (printPorts r (derive r).val.psid) ↔ (0 < r.psidlen → 0 ≤ r.psid ∨ 0 ≤ r.pdlen → r.offset + r.psidlen ≤ 16) := by
    rw [all_printPorts hb, and_imp]
    exact imp_congr_right fun _ => imp_congr_left (derivePsid_nonneg hb)
  have hfits : r.Fits ↔ (All Op.InBounds (derivePsid r) ∧ All Op.InBounds (deriveAddr r)) ∧ All Op.InBounds (printPorts r (derive r).val.psid) := by
    rw [all_derivePsid hp hb, all_deriveAddr hp hb, hports]
    constructor
    · rintro ⟨h1, h2, h3⟩
      exact ⟨⟨h1, h2⟩, h3⟩
    · rintro ⟨⟨h1, h2⟩, h3⟩
      exact ⟨h1, h2, h3⟩
  unfold printRule
  rw [isSkipped_eq_false.mpr hp, hfits, ← hderive]
  simp only [Bool.false_eq_true, if_false, if_neg hfmr, all_bind]
  refine and_congr_right fun _ => ?_
  by_cases h0 : 0 ≤ r.pdlen
  · rw [if_pos h0]
    simp only [all_bind, all_map, all_deriveAddr6 h0 hpd, all_pure, and_true, true_and]
  · rw [if_neg h0]
    simp only [all_bind, all_pure, val_pure, and_true, true_and]

end

/-! ### A rule of the command line -/

section
variable {libc : Libc} {legacy : Bool} {argv1 iface : Text} {dump : List Interface} {o : Options}

/-- The lengths of a rule go together, and every entry fits that is searched for a prefix. -/
structure Fits (libc : Libc) (legacy : Bool) (argv1 iface : Text) (dump : List Interface) (o : Options) : Prop where
  search : o.pdlen < 0 → SearchFits libc o argv1 ⟨o.pdlen, o.pd⟩ dump
  rule : (settle legacy o (delegated libc argv1 iface dump o).val.1 (delegated libc argv1 iface dump o).val.2).Fits

theorem all_delegated (h0 : 0 ≤ o.prefix6len) (h1 : o.prefix6len ≤ 128) :
    All Op.InBounds (delegated libc argv1 iface dump o) ↔ (o.pdlen < 0 → SearchFits libc o argv1 ⟨o.pdlen, o.pd⟩ dump) := by
  unfold delegated
  simp only [all_ite, all_findPd h0 h1, all_pure, implies_true, and_true]

theorem delegated_pdlen (ho : o.Bounded) (hf : o.pdlen < 0 → SearchFits libc o argv1 ⟨o.pdlen, o.pd⟩ dump) :
    (delegated libc argv1 iface dump o).val.1.pdlen ≤ 128 := by
  unfold delegated
  split
  · rename_i hpd
    exact findPd_pdlen ho.prefix6len ho.pdlen (hf hpd)
  · exact ho.pdlen

/-- The lengths that are settled keep the bounds of the options. -/
theorem settle_bounded (ho : o.Bounded) (h0 : 0 ≤ o.prefix6len) {s : Found} (hs : s.pdlen ≤ 128) : (settle legacy o s iface).Bounded := by
  obtain ⟨h1, h2, h3, h4, h5, h6, h7⟩ := ho
  refine ⟨h2, h3, ?_, ?_, ?_⟩
  · simp only [settle]
    grind
  · simp only [settle]
    grind
  · simp only [settle]
    grind

/-- A rule that is printed was computed within bounds if and only if it fits. -/
theorem mapRule_inBounds_iff {rule : Text} {p : Printed} (ho : parseRule libc rule = some o)
    (hp : (mapRule libc legacy argv1 iface dump o).val = some p) :
    All Op.InBounds (mapRule libc legacy argv1 iface dump o) ↔ Fits libc legacy argv1 iface dump o := by
  have hbounded := parseRule_bounded ho
  obtain ⟨hproper, hfmr⟩ := printRule_printed hp
  have h0 : 0 ≤ o.prefix6len := hproper.prefix6len
  have hfits : Fits libc legacy argv1 iface dump o ↔ All Op.InBounds (delegated libc argv1 iface dump o) ∧
      (settle legacy o (delegated libc argv1 iface dump o).val.1 (delegated libc argv1 iface dump o).val.2).Fits := by
    rw [all_delegated h0 hbounded.prefix6len]
    exact ⟨fun h => ⟨h.search, h.rule⟩, fun h => ⟨h.1, h.2⟩⟩
  rw [hfits]
  unfold mapRule
  rw [all_bind]
  refine and_congr_right fun hall => ?_
  have hpd : (delegated libc argv1 iface dump o).val.1.pdlen ≤ 128 := delegated_pdlen hbounded ((all_delegated h0 hbounded.prefix6len).mp hall)
  exact all_printRule hproper (settle_bounded hbounded h0 hpd) hpd hfmr

end

/-- The library of a host, for the addresses of the rules below. -/
def hostLibc : Libc where
  longBits := 64
  einval := false
  inetPton4 text addr := if text = "192.0.2.0".toList then ⟨fun i => [192, 0, 2, 0].getD i 0⟩ else addr
  inetPton6 text addr :=
    if text = "2001:db8::".toList then ⟨fun i => [0x20, 0x01, 0x0d, 0xb8].getD i 0⟩
    else if text = "2001:db8:12:3400::".toList then ⟨fun i => [0x20, 0x01, 0x0d, 0xb8, 0, 0x12, 0x34].getD i 0⟩
    else addr

def sharedRule : Text := "ipv6prefix=2001:db8::,prefix6len=40,ipv4prefix=192.0.2.0,prefix4len=24,ealen=16,pd=2001:db8:12:3400::,pdlen=56".toList

theorem sharedRule_isSome : (parseRule hostLibc sharedRule).isSome = true := by
  have hchars : sharedRule = _ := String.toList_ofList
  rw [hchars]
  decide

def sharedOptions : Options := (parseRule hostLibc sharedRule).get sharedRule_isSome

theorem sharedOptions_fits : (mapRule hostLibc false ['*'] ['*'] [] sharedOptions).val.isSome = true ∧ ¬sharedOptions.pdlen < 0 ∧
    (settle false sharedOptions (delegated hostLibc ['*'] ['*'] [] sharedOptions).val.1
      (delegated hostLibc ['*'] ['*'] [] sharedOptions).val.2).Fits := by
  simp only [sharedOptions, show sharedRule = _ from String.toList_ofList]
  decide

theorem mapRule_inBounds_iff_shared :
    ∃ p, parseRule hostLibc sharedRule = some sharedOptions ∧ (mapRule hostLibc false ['*'] ['*'] [] sharedOptions).val = some p ∧
      All Op.InBounds (mapRule hostLibc false ['*'] ['*'] [] sharedOptions) := by
  obtain ⟨hsome, hpd, hrule⟩ := sharedOptions_fits
  have ho : parseRule hostLibc sharedRule = some sharedOptions := (Option.some_get _).symm
  have hp := (Option.some_get hsome).symm
  exact ⟨_, ho, hp, (mapRule_inBounds_iff ho hp).mpr ⟨fun hneg => absurd hneg hpd, hrule⟩⟩

def wholeRule : Text := "ipv6prefix=2001:db8::,prefix6len=40,ipv4prefix=192.0.2.0,prefix4len=32,ealen=8,psidlen=8,pd=2001:db8:12:3400::,pdlen=56".toList

theorem wholeRule_isSome : (parseRule hostLibc wholeRule).isSome = true := by
  have hchars : wholeRule = _ := String.toList_ofList
  rw [hchars]
  decide

def wholeOptions : Options := (parseRule hostLibc wholeRule).get wholeRule_isSome

/-- With a whole address as the prefix, the address is shifted by all of its bits. -/
theorem mapRule_outOfBounds :
    ¬∀ (libc : Libc) (legacy : Bool) (argv1 iface : Text) (dump : List Interface) (rule : Text) (o : Options) (p : Printed),
      parseRule libc rule = some o → (mapRule libc legacy argv1 iface dump o).val = some p →
        All Op.InBounds (mapRule libc legacy argv1 iface dump o) := by
  intro h
  obtain ⟨hsome, hout⟩ : (mapRule hostLibc false ['*'] ['*'] [] wholeOptions).val.isSome = true ∧
      ¬∀ o ∈ (mapRule hostLibc false ['*'] ['*'] [] wholeOptions).ops, o.InBounds := by
    simp only [wholeOptions, show wholeRule = _ from String.toList_ofList]
    decide
  exact hout (h _ _ _ _ _ _ _ _ (Option.some_get _).symm (Option.some_get hsome).symm)

end RainWrt.Map
