import RainWrt.Cli.Types
import RainWrt.Theorems.BaseFiles.Ipv4

/-! What the types of arguments accept. -/

namespace RainWrt.Cli

variable {J : Type} (lib : Lib J) (spec : Spec) (name s : Text)

/-! ### int -/

/-- A text is digits, perhaps behind a minus sign, of a value. -/
def IsInt (s : Text) (v : Int) : Prop :=
  ∃ negative ds, ds ≠ [] ∧ ds.all Char.isDigit ∧ s = signed negative ds ∧ v = signedValue negative ds

/-- `int` accepts the integers within the bounds, and yields their values. -/
def IntMeets : Prop :=
  ((parseInt lib spec name s).val.isSome ↔ ∃ v, IsInt s v ∧ spec.within (.int v)) ∧
    ∀ v, IsInt s v → (parseInt lib spec name s).val.isSome → (parseInt lib spec name s).val = some (.number (.int v))

/-- Without digits, the bounds exclude what the text converts to. An integer that does not fit converts to itself, or the bounds
    exclude both. -/
def IntOk : Prop :=
  (s = [] ∨ s = ['-'] → spec.within (lib.number (some s)) = false) ∧
    ∀ v, IsInt s v → ¬Fits v → lib.number (some s) = .int v ∨
      (spec.within (.int v) = false ∧ spec.within (lib.number (some s)) = false)

/-- The text without its sign. -/
def unsigned (s : Text) : Text := if s.head? = some '-' then s.tail else s

variable {s}

theorem unsigned_signed (negative : Bool) {ds : Text} (h : ds.all Char.isDigit) : unsigned (signed negative ds) = ds := by
  unfold unsigned signed
  cases negative with
  | true => simp
  | false =>
    have hhead : ds.head? ≠ some '-' := by
      intro hmem
      have := List.all_eq_true.mp h '-' (List.mem_of_head? hmem)
      simp at this
    simp [hhead]

theorem eq_signed (s : Text) : s = signed (s.head? = some '-') (unsigned s) := by
  unfold unsigned signed
  by_cases h : s.head? = some '-'
  · rw [if_pos h, if_pos (decide_eq_true h)]
    exact (List.cons_head?_tail h).symm
  · rw [if_neg h, if_neg (by simpa using h)]

theorem isInt_unique {v w : Int} (hv : IsInt s v) (hw : IsInt s w) : v = w := by
  obtain ⟨n, ds, hne, hds, rfl, rfl⟩ := hv
  obtain ⟨m, es, -, hes, heq, rfl⟩ := hw
  have hbody : ds = es := by rw [← unsigned_signed _ hds, heq, unsigned_signed _ hes]
  subst hbody
  cases n <;> cases m
  · rfl
  · simpa [signed] using congrArg List.length heq
  · simpa [signed] using congrArg List.length heq
  · rfl

/-- Digits are the integers, the empty text and the sign alone. -/
theorem digits_cases (h : (unsigned s).all Char.isDigit) : (s = [] ∨ s = ['-']) ∨ ∃ v, IsInt s v := by
  by_cases hne : unsigned s = []
  · left
    have hs := eq_signed s
    rw [hne] at hs
    unfold signed at hs
    split_ifs at hs
    · exact Or.inr hs
    · exact Or.inl hs
  · exact Or.inr ⟨_, _, _, hne, h, eq_signed s, rfl⟩

theorem parseInt_of_digits (h : (unsigned s).all Char.isDigit) :
    (parseInt lib spec name s).val = if spec.within (lib.number (some s)) then some (.number (lib.number (some s))) else none := by
  have hany : (unsigned s).any (fun c => !c.isDigit) = false := by
    rw [List.any_eq_false]
    intro c hc
    simp [List.all_eq_true.mp h c hc]
  unfold parseInt
  unfold unsigned at hany
  simp only [hany, Bool.false_eq_true, if_false]
  split_ifs <;> rfl

theorem parseInt_of_not_digits (h : ¬(unsigned s).all Char.isDigit) : (parseInt lib spec name s).val = none := by
  have hany : (unsigned s).any (fun c => !c.isDigit) = true := by
    simpa [List.any_eq_true] using h
  unfold parseInt
  unfold unsigned at hany
  simp only [hany, if_true]
  rfl

theorem intMeets_iff : IntMeets lib spec name s ↔ IntOk lib spec s := by
  by_cases hdigits : (unsigned s).all Char.isDigit
  · unfold IntMeets IntOk
    rw [parseInt_of_digits lib spec name hdigits]
    have hsome : (if spec.within (lib.number (some s)) then some (Val.number (J := J) (lib.number (some s))) else none).isSome =
        spec.within (lib.number (some s)) := by
      split <;> simp_all
    rw [hsome]
    rcases digits_cases hdigits with hempty | ⟨v, hv⟩
    · -- no digits at all
      have hno : ∀ v, ¬IsInt s v := by
        rintro v ⟨n, ds, hne, hds, hs, -⟩
        rcases hempty with rfl | rfl
        · cases n <;> simp [signed] at hs
          exact hne hs
        · cases n <;> simp [signed] at hs
          · subst hs
            simp at hds
          · exact hne hs
      simp [hempty, hno]
    · have hnot : ¬(s = [] ∨ s = ['-']) := by
        obtain ⟨n, ds, hne, hds, rfl, -⟩ := hv
        rintro (h | h)
        · have := unsigned_signed n hds
          rw [h] at this
          exact hne (by simpa [unsigned] using this.symm)
        · have := unsigned_signed n hds
          rw [h] at this
          exact hne (by simpa [unsigned] using this.symm)
      have hex : (∃ w, IsInt s w ∧ spec.within (.int w) = true) ↔ spec.within (.int v) = true := by
        constructor
        · rintro ⟨w, hw, hin⟩
          exact isInt_unique hv hw ▸ hin
        · exact fun hin => ⟨v, hv, hin⟩
      have hall : ∀ {Q : Int → Prop}, (∀ w, IsInt s w → Q w) ↔ Q v := fun {Q} =>
        ⟨fun h => h v hv, fun h w hw => isInt_unique hv hw ▸ h⟩
      rw [hex, hall, hall]
      simp only [hnot, false_imp_iff, true_and]
      by_cases hfit : Fits v
      · have hnum : lib.number (some s) = .int v := by
          obtain ⟨n, ds, hne, hds, rfl, rfl⟩ := hv
          exact lib.number_digits n ds hne hds hfit
        simp [hnum, hfit]
      · simp only [hfit, not_false_eq_true, true_imp_iff]
        cases hnum : spec.within (lib.number (some s)) with
        | true =>
          simp only [if_true, Option.some.injEq, Val.number.injEq, true_imp_iff, true_iff, Bool.true_eq_false, and_false, or_false]
          constructor
          · exact fun h => h.2
          · intro h
            exact ⟨by rw [← h, hnum], h⟩
        | false =>
          simp only [Bool.false_eq_true, false_iff, false_imp_iff, and_true, Bool.not_eq_true]
          constructor
          · exact Or.inr
          · rintro (h | h)
            · rwa [← h]
            · exact h
  · have hno : ∀ v, ¬IsInt s v := by
      rintro v ⟨n, ds, -, hds, rfl, -⟩
      rw [unsigned_signed _ hds] at hdigits
      exact hdigits hds
    have hnot : ¬(s = [] ∨ s = ['-']) := by
      rintro (rfl | rfl) <;> exact hdigits (by decide)
    simp [IntMeets, IntOk, parseInt_of_not_digits lib spec name hdigits, hno, hnot]

/-! ### cidr4 -/

/-- `cidr4` accepts a dotted quad, a slash and digits of a number up to 32. -/
def CidrMeets (s : Text) : Prop :=
  (parseCidr4 lib spec name s).val.isSome ↔
    ∃ q m, IsQuad q ∧ m ≠ [] ∧ m.all Char.isDigit ∧ Nat.ofDigitChars 10 m 0 ≤ 32 ∧ s = q ++ '/' :: m

/-- What is behind the first slash (or missing) does not convert to a number up to 32: always where `auto` is allowed and stands
    before it, and behind a dotted quad where it is not digits that fit. -/
def CidrOk (s : Text) : Prop :=
  ((split2 '/' s).1 = ['a', 'u', 't', 'o'] ∧ spec.allowAuto = true → (lib.number (split2 '/' s).2).le (.int 32) = false) ∧
    (IsQuad (split2 '/' s).1 →
      (∃ m, (split2 '/' s).2 = some m ∧ m ≠ [] ∧ m.all Char.isDigit ∧ Fits (signedValue false m)) ∨
        (lib.number (split2 '/' s).2).le (.int 32) = false)

theorem split2_eq {q m : Text} (h : '/' ∉ q) : split2 '/' (q ++ '/' :: m) = (q, some m) := by
  induction q with
  | nil => simp [split2]
  | cons c q ih =>
    rw [List.mem_cons, not_or] at h
    simp [split2, Ne.symm h.1, ih h.2]

theorem eq_of_split2 {m : Text} : ∀ {s : Text}, (split2 '/' s).2 = some m → s = (split2 '/' s).1 ++ '/' :: m
  | [], h => by cases h
  | c :: s, h => by
    unfold split2 at h ⊢
    by_cases hc : c = '/'
    · rw [if_pos hc] at h ⊢
      cases h
      rw [hc]
      rfl
    · rw [if_neg hc] at h ⊢
      rw [List.cons_append, ← eq_of_split2 h]

theorem toDigits_isDigit {n : Nat} {c : Char} (h : c ∈ Nat.toDigits 10 n) : c.isDigit :=
  Nat.isDigit_of_mem_toDigits (by decide) (by decide) h

theorem mem_quad {c : Char} {q : Text} (hq : IsQuad q) (h : c ∈ q) : c.isDigit ∨ c = '.' := by
  obtain ⟨a, -, b, -, d, -, e, -, rfl⟩ := hq
  simp only [quad, List.mem_append, List.mem_cons] at h
  rcases h with h | h | h | h | h | h | h
  · exact Or.inl (toDigits_isDigit h)
  · exact Or.inr h
  · exact Or.inl (toDigits_isDigit h)
  · exact Or.inr h
  · exact Or.inl (toDigits_isDigit h)
  · exact Or.inr h
  · exact Or.inl (toDigits_isDigit h)

theorem not_isQuad_auto : ¬IsQuad ['a', 'u', 't', 'o'] := fun h => by
  have := mem_quad h (c := 'a') (by simp)
  simp at this

theorem addressLength_eq_four {q : Text} : lib.addressLength q = some 4 ↔ IsQuad q := lib.iptoarr_quad q

theorem parseCidr4_isSome {s : Text} : (parseCidr4 lib spec name s).val.isSome ↔
    (lib.number (split2 '/' s).2).le (.int 32) = true ∧
      (((split2 '/' s).1 = ['a', 'u', 't', 'o'] ∧ spec.allowAuto = true) ∨ IsQuad (split2 '/' s).1) := by
  rw [← addressLength_eq_four lib]
  simp only [parseCidr4]
  split_ifs with h
  · simp only [accept, Option.isSome_some, true_iff]
    simpa using h
  · simp only [invalidArgument, Option.isSome_none, Bool.false_eq_true, false_iff]
    simpa using h

theorem cidrMeets_iff (s : Text) : CidrMeets lib spec name s ↔ CidrOk lib spec s := by
  unfold CidrMeets CidrOk
  rw [parseCidr4_isSome]
  have hclaim : (∃ q m, IsQuad q ∧ m ≠ [] ∧ m.all Char.isDigit ∧ Nat.ofDigitChars 10 m 0 ≤ 32 ∧ s = q ++ '/' :: m) ↔
      IsQuad (split2 '/' s).1 ∧ ∃ m, (split2 '/' s).2 = some m ∧ m ≠ [] ∧ m.all Char.isDigit ∧ Nat.ofDigitChars 10 m 0 ≤ 32 := by
    constructor
    · rintro ⟨q, m, hq, hne, hm, hle, rfl⟩
      have hslash : '/' ∉ q := fun h => by
        have := mem_quad hq h
        simp at this
      rw [split2_eq hslash]
      exact ⟨hq, m, rfl, hne, hm, hle⟩
    · rintro ⟨hq, m, hsplit, hne, hm, hle⟩
      exact ⟨_, m, hq, hne, hm, hle, eq_of_split2 hsplit⟩
  rw [hclaim]
  generalize split2 '/' s = p
  obtain ⟨q, m⟩ := p
  simp only
  by_cases hauto : q = ['a', 'u', 't', 'o']
  · subst hauto
    simp [not_isQuad_auto]
  · simp only [hauto, false_and, false_or, false_imp_iff, true_and]
    by_cases hq : IsQuad q
    · simp only [hq, and_true, true_and, true_imp_iff]
      constructor
      · intro h
        cases hle : (lib.number m).le (.int 32) with
        | false => exact Or.inr rfl
        | true =>
          obtain ⟨ds, rfl, hne, hds, hval⟩ := h.mp hle
          refine Or.inl ⟨ds, rfl, hne, hds, ?_⟩
          simp only [signedValue, Bool.false_eq_true, if_false]
          constructor <;> omega
      · rintro (⟨ds, rfl, hne, hds, hfit⟩ | hle)
        · have hnum : lib.number (some ds) = .int (signedValue false ds) := lib.number_digits false ds hne hds hfit
          have hall : (∀ x ∈ ds, x.isDigit = true) := List.all_eq_true.mp hds
          have hcast : (Nat.ofDigitChars 10 ds 0 : Int) ≤ 32 ↔ Nat.ofDigitChars 10 ds 0 ≤ 32 := by omega
          simp [hnum, Number.le, signedValue, hne, hcast]
          exact fun _ => hall
        · constructor
          · intro h
            rw [hle] at h
            cases h
          · rintro ⟨ds, rfl, hne, hds, hval⟩
            have hfit : Fits (signedValue false ds) := by
              simp only [signedValue, Bool.false_eq_true, if_false]
              constructor <;> omega
            have hnum : lib.number (some ds) = .int (signedValue false ds) := lib.number_digits false ds hne hds hfit
            rw [hnum] at hle
            simp [Number.le, signedValue] at hle
            omega
    · simp [hq]

/-! ### Errors -/

/-- Nothing is returned exactly where an error is recorded. -/
def NullMeets (s : Text) (t : TypeName) : Prop := (t.parse lib spec name s).val = none ↔ (t.parse lib spec name s).errors ≠ []

/-- A host that is not taken for an address is not too long. A JSON value has the type that is asked for, or is null where one is asked for. -/
def NullOk (s : Text) : TypeName → Prop
  | .host => lib.isAddress s = false → s.length ≤ 255
  | .json => match lib.json s with
    | none => True
    | some none => spec.dataType ≠ none
    | some (some j) => ∀ t, spec.dataType = some t → lib.typeName j = t
  | _ => True

variable {lib spec name}

theorem accept_meets (v : Val J) : (accept v).val = none ↔ (accept v).errors ≠ [] := by simp [accept]

theorem invalidArgument_meets (msg : String) (args : List Text) :
    (invalidArgument (J := J) msg args).val = none ↔ (invalidArgument (J := J) msg args).errors ≠ [] := by simp [invalidArgument]

theorem ite_meets {c : Prop} [Decidable c] {v : Val J} {msg : String} {args : List Text} :
    (if c then accept v else invalidArgument msg args).val = none ↔ (if c then accept v else invalidArgument msg args).errors ≠ [] := by
  split_ifs
  · exact accept_meets v
  · exact invalidArgument_meets msg args

theorem nullMeets_iff (s : Text) (t : TypeName) : NullMeets lib spec name s t ↔ NullOk lib spec s t := by
  unfold NullMeets
  cases t with
  | bool =>
    refine iff_of_true ?_ trivial
    simp only [TypeName.parse, parseBool]
    split_ifs
    · exact accept_meets _
    · exact accept_meets _
    · exact invalidArgument_meets _ _
  | int =>
    refine iff_of_true ?_ trivial
    simp only [TypeName.parse, parseInt]
    by_cases h : (if s.head? = some '-' then s.tail else s).any (fun c => !c.isDigit) = true
    · rw [if_pos h]
      exact invalidArgument_meets _ _
    · rw [if_neg h]
      exact ite_meets
  | string => exact iff_of_true ite_meets trivial
  | json =>
    simp only [TypeName.parse, parseJson, NullOk]
    cases lib.json s with
    | none => exact iff_of_true (invalidArgument_meets _ _) trivial
    | some j =>
      cases j with
      | none => cases spec.dataType <;> simp
      | some j =>
        cases spec.dataType with
        | none => simp
        | some t => by_cases ht : lib.typeName j = t <;> simp [ht]
  | enum =>
    refine iff_of_true ?_ trivial
    simp only [TypeName.parse, parseEnum]
    split
    · exact accept_meets _
    · split
      · exact accept_meets _
      · exact invalidArgument_meets _ _
  | path =>
    refine iff_of_true ?_ trivial
    simp only [TypeName.parse, parsePath]
    split
    · exact ite_meets
    · exact ite_meets
  | host =>
    simp only [TypeName.parse, parseHost, NullOk]
    cases haddr : lib.isAddress s with
    | false =>
      rw [if_neg Bool.false_ne_true]
      by_cases hlen : 255 < s.length
      · rw [if_pos hlen]
        simp
        omega
      · rw [if_neg hlen]
        exact iff_of_true ite_meets fun _ => by omega
    | true =>
      rw [if_pos rfl]
      exact iff_of_true (accept_meets _) fun h => by cases h
  | macaddr =>
    refine iff_of_true ?_ trivial
    simp only [TypeName.parse, parseMacaddr]
    split
    · exact invalidArgument_meets _ _
    · exact accept_meets _
  | ipv4 => exact iff_of_true ite_meets trivial
  | ipv6 => exact iff_of_true ite_meets trivial
  | cidr4 => exact iff_of_true ite_meets trivial

/-- An argument that is missing, or of a type that is not known, is recorded as an error. -/
theorem parseArg_meets_iff (type : Option TypeName) (val : Option Text) :
    ((parseArg lib type spec name val).val = none ↔ (parseArg lib type spec name val).errors ≠ []) ↔
      ∀ s ∈ val, ∀ t ∈ type, NullOk lib spec s t := by
  cases val with
  | none => exact iff_of_true (invalidArgument_meets _ _) fun s hs => by cases hs
  | some s =>
    cases type with
    | none => exact iff_of_true (invalidArgument_meets _ _) fun _ _ t ht => by cases ht
    | some t =>
      simp only [Option.mem_some_iff, forall_eq']
      exact nullMeets_iff s t

/-- When `int` and `cidr4` accept what they should, and when a type returns nothing exactly with an error. -/
theorem grammars_iff (lib : Lib J) (spec : Spec) (name s : Text) :
    (IntMeets lib spec name s ↔ IntOk lib spec s) ∧ (CidrMeets lib spec name s ↔ CidrOk lib spec s) ∧
      ∀ t, NullMeets lib spec name s t ↔ NullOk lib spec s t :=
  ⟨intMeets_iff lib spec name, cidrMeets_iff lib spec name s, nullMeets_iff s⟩

/-! ### A library -/

/-- A library that knows addresses of four bytes, and whose JSON are null and digits. -/
def Lib.simple : Lib Nat where
  toCoercion := .simple
  iptoarr s := (BaseFiles.str2ip s).map fun t =>
    let n := Nat.ofDigitChars 10 t 0
    [n / 2 ^ 24, n / 2 ^ 16 % 256, n / 2 ^ 8 % 256, n % 256]
  iptoarr_quad := by
    intro s
    rw [Option.map_map]
    constructor
    · intro h
      obtain ⟨t, ht, -⟩ := Option.map_eq_some_iff.mp h
      obtain ⟨a, ha, b, hb, c, hc, d, hd, rfl, -⟩ := BaseFiles.str2ip_iff.mp ht
      exact ⟨a, ha, b, hb, c, hc, d, hd, rfl⟩
    · rintro ⟨a, ha, b, hb, c, hc, d, hd, rfl⟩
      have hip : BaseFiles.str2ip (quad a b c d) = some _ := BaseFiles.str2ip_iff.mpr ⟨a, ha, b, hb, c, hc, d, hd, rfl, rfl⟩
      rw [hip]
      rfl
  nullNeZero := true
  json s :=
    if s = ['n', 'u', 'l', 'l'] then some none
    else if s ≠ [] ∧ s.all Char.isDigit then some (some (Nat.ofDigitChars 10 s 0))
    else none
  typeName _ := ['i', 'n', 't']
  dirname s := s
  isDirectory _ := false
  readable _ := false

def Spec.plain : Spec := ⟨none, none, none, false, false, [], false, false⟩

/-- `int` accepts the empty text, `cidr4` an address alone, and null is returned without an error. -/
theorem loose_grammars : ¬IntMeets Lib.simple .plain ['n'] [] ∧
    ¬CidrMeets Lib.simple .plain ['n'] ['1', '.', '2', '.', '3', '.', '4'] ∧
    ¬NullMeets Lib.simple .plain ['n'] ['n', 'u', 'l', 'l'] .json := by
  refine ⟨fun h => ?_, fun h => ?_, fun h => ?_⟩
  · have := ((intMeets_iff Lib.simple .plain ['n']).mp h).1 (Or.inl rfl)
    exact absurd this (by decide)
  · have hquad : IsQuad ['1', '.', '2', '.', '3', '.', '4'] :=
      ⟨1, by decide, 2, by decide, 3, by decide, 4, by decide, by decide⟩
    rcases ((cidrMeets_iff Lib.simple .plain ['n'] _).mp h).2 hquad with ⟨m, hm, -⟩ | hle
    · cases hm
    · exact absurd hle (by decide)
  · have hok : NullOk Lib.simple .plain ['n', 'u', 'l', 'l'] .json := (nullMeets_iff _ .json).mp h
    exact hok rfl

end RainWrt.Cli
