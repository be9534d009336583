import RainWrt.Theorems.Lists
import RainWrt.Wifi.Validate

/-! What the options are after they were checked. -/

namespace RainWrt.Wifi.Validate

open Cli (Number)

variable {number : String → Number}

/-! ### Numbers -/

theorem le_of_not_gt {a b : Number} (ha : a ≠ .nan) (hb : b ≠ .nan) (h : ¬ a.gt b) : a.le b := by
  cases a <;> cases b <;> simp_all [Number.gt, Number.le] <;> grind

theorem truthy_ne_nan {m : Number} (h : truthy m) : m ≠ .nan := by
  rintro rfl
  cases h

/-! ### Values -/

/-- What an option of the schema says that its value is. -/
def Spec.Admits : Spec → Value → Prop
  | .number minimum maximum enum, v =>
    ∃ n, v = .number n ∧ n ≠ .nan ∧ (∀ m ∈ minimum, m.le n) ∧ (∀ m ∈ maximum, n.le m) ∧ ∀ l ∈ enum, (Value.number n).isIn l
  | .boolean, v => ∃ b, v = .bool b
  | .text enum, v => ∃ s, v = .text s ∧ ∀ l ∈ enum, (Value.text s).isIn l
  | .array, v => ∃ l, v = .array l
  | .arrayOf items, v => ∃ l, v = .array l ∧ ∀ w ∈ l, items.Admits w
  | .aliasOf _, _ | .other, _ => True

/-- What the code does not check: that a number is one, that it is within a bound which is zero, and that a text is one. -/
def Spec.Clean (number : String → Number) : Spec → Value → Prop
  | .number minimum maximum _, v =>
    let n := v.plus number
    n ≠ .nan ∧ (∀ m ∈ minimum, ¬ truthy m → m.le n) ∧ ∀ m ∈ maximum, ¬ truthy m → n.le m
  | .text _, v => ∃ s, v = .text s
  | .arrayOf items, v => ∀ w ∈ v.toArray, items.Clean number w
  | .boolean, _ | .array, _ | .aliasOf _, _ | .other, _ => True

theorem not_any {α : Type} {o : Option α} {p : α → Bool} : ¬ o.any p ↔ ∀ a ∈ o, ¬ p a := by
  cases o with
  | none => simp
  | some a => simp

/-- What a checked number is like. -/
theorem validateValue_number {minimum maximum : Option Number} {enum : Option (List Value)} {v w : Value} :
    validateValue number (.number minimum maximum enum) v = some w ↔
      Value.number (v.plus number) = w ∧ (∀ m ∈ minimum, ¬ (truthy m && m.gt (v.plus number))) ∧
        (∀ m ∈ maximum, ¬ (truthy m && (v.plus number).gt m)) ∧ ∀ l ∈ enum, ¬ !(Value.number (v.plus number)).isIn l := by
  rw [validateValue, ← not_any, ← not_any, ← not_any]
  split_ifs with hmin hmax henum
  · simp [hmin]
  · simp [hmax]
  · simp [henum]
  · simp [hmin, hmax, henum]

theorem validateValue_text {enum : Option (List Value)} {v w : Value} :
    validateValue number (.text enum) v = some w ↔ v = w ∧ ∀ l ∈ enum, ¬ !v.isIn l := by
  rw [validateValue, ← not_any]
  split_ifs with henum
  · simp [henum]
  · simp [henum]

theorem validateValue_arrayOf {items : Spec} {v w : Value} :
    validateValue number (.arrayOf items) v = some w ↔
      ∃ l, w = .array l ∧ List.Forall₂ (fun a b => validateValue number items a = some b) v.toArray l := by
  simp only [validateValue, Option.map_eq_some_iff, mapM_eq_some]
  constructor
  · rintro ⟨l, hl, rfl⟩
    exact ⟨l, rfl, hl⟩
  · rintro ⟨l, rfl, hl⟩
    exact ⟨l, hl, rfl⟩

/-- A value that was checked has the type and is within the bounds just where it was clean. -/
theorem admits_iff {spec : Spec} {v w : Value} (h : validateValue number spec v = some w) : spec.Admits w ↔ spec.Clean number v := by
  induction spec generalizing v w with
  | number minimum maximum enum =>
    obtain ⟨rfl, hmin, hmax, henum⟩ := validateValue_number.mp h
    simp only [Spec.Admits, Spec.Clean]
    constructor
    · rintro ⟨n, hn, hnan, hlow, hhigh, -⟩
      obtain rfl := (Value.number.inj hn).symm
      exact ⟨hnan, fun m hm _ => hlow m hm, fun m hm _ => hhigh m hm⟩
    · rintro ⟨hnan, hlow, hhigh⟩
      refine ⟨_, rfl, hnan, fun m hm => ?_, fun m hm => ?_, fun l hl => by simpa using henum l hl⟩
      · by_cases ht : truthy m
        · exact le_of_not_gt (truthy_ne_nan ht) hnan fun hgt => hmin m hm (by rw [ht, hgt]; rfl)
        · exact hlow m hm ht
      · by_cases ht : truthy m
        · exact le_of_not_gt hnan (truthy_ne_nan ht) fun hgt => hmax m hm (by rw [ht, hgt]; rfl)
        · exact hhigh m hm ht
  | boolean =>
    obtain rfl := Option.some.inj h
    simp [Spec.Admits, Spec.Clean]
  | text enum =>
    obtain ⟨rfl, henum⟩ := validateValue_text.mp h
    simp only [Spec.Admits, Spec.Clean]
    constructor
    · rintro ⟨s, hs, -⟩
      exact ⟨s, hs⟩
    · rintro ⟨s, rfl⟩
      exact ⟨s, rfl, fun l hl => by simpa using henum l hl⟩
  | array =>
    obtain rfl := Option.some.inj h
    simp [Spec.Admits, Spec.Clean]
  | arrayOf items ih =>
    obtain ⟨l, rfl, hl⟩ := validateValue_arrayOf.mp h
    have helems : (∀ b ∈ l, items.Admits b) ↔ ∀ a ∈ v.toArray, items.Clean number a := by
      clear h
      generalize v.toArray = xs at hl
      induction hl with
      | nil => simp
      | cons hab _ ihl => rw [List.forall_mem_cons, List.forall_mem_cons, ih hab, ihl]
    simp only [Spec.Admits, Spec.Clean, Value.array.injEq, exists_eq_left', helems]
  | aliasOf target => exact Iff.rfl
  | other => exact Iff.rfl

/-- A value that was checked is kept when it is checked again. -/
theorem validateValue_again {spec : Spec} {v w : Value} (h : validateValue number spec v = some w) :
    validateValue number spec w = some w := by
  induction spec generalizing v w with
  | number minimum maximum enum =>
    obtain ⟨rfl, hrest⟩ := validateValue_number.mp h
    exact validateValue_number.mpr ⟨rfl, hrest⟩
  | boolean =>
    obtain rfl := Option.some.inj h
    generalize truthy (v.plus number) = b
    cases b <;> rfl
  | text enum =>
    obtain ⟨rfl, henum⟩ := validateValue_text.mp h
    exact validateValue_text.mpr ⟨rfl, henum⟩
  | array =>
    obtain rfl := Option.some.inj h
    rfl
  | arrayOf items ih =>
    obtain ⟨l, rfl, hl⟩ := validateValue_arrayOf.mp h
    refine validateValue_arrayOf.mpr ⟨l, rfl, ?_⟩
    clear h
    generalize v.toArray = xs at hl
    show List.Forall₂ _ l l
    induction hl with
    | nil => exact .nil
    | cons hab _ ihl => exact .cons (ih hab) ihl
  | aliasOf target => rfl
  | other => rfl

theorem validateValue_isNull {spec : Spec} {v w : Value} (h : validateValue number spec v = some w) (hv : v.isNull = false) :
    w.isNull = false := by
  cases spec with
  | number minimum maximum enum =>
    obtain ⟨rfl, -⟩ := validateValue_number.mp h
    rfl
  | boolean =>
    obtain rfl := Option.some.inj h
    rfl
  | text enum =>
    obtain ⟨rfl, -⟩ := validateValue_text.mp h
    exact hv
  | array =>
    obtain rfl := Option.some.inj h
    rfl
  | arrayOf items =>
    obtain ⟨l, rfl, -⟩ := validateValue_arrayOf.mp h
    rfl
  | aliasOf target =>
    obtain rfl := Option.some.inj h
    exact hv
  | other =>
    obtain rfl := Option.some.inj h
    exact hv

namespace Schema

variable {schema : Schema}

/-! ### Aliases -/

def IsAlias (schema : Schema) (k : String) : Prop := ∃ e ∈ Obj.get? schema.options k, e.spec.isAlias

theorem isAlias_iff {k : String} :
    schema.IsAlias k ↔ ∃ t, (Obj.get? schema.options k).map Entry.spec = some (.aliasOf t) := by
  constructor
  · rintro ⟨e, he, halias⟩
    cases hspec : e.spec with
    | aliasOf t => exact ⟨t, by rw [Option.mem_def.mp he, Option.map_some, hspec]⟩
    | _ => simp [hspec, Spec.isAlias] at halias
  · rintro ⟨t, ht⟩
    obtain ⟨e, he, hspec⟩ := Option.map_eq_some_iff.mp ht
    exact ⟨e, he, by rw [hspec]; rfl⟩

/-- The option that a name is an alias of. -/
def aliasTarget (schema : Schema) (k : String) : Option String :=
  match (Obj.get? schema.options k).map Entry.spec with
  | some (.aliasOf t) => t
  | _ => none

/-- A round converts an alias, or keeps the dictionary. -/
theorem convertAlias_cases {dict dict' : Obj Value} {e : String × Value} (h : schema.convertAlias dict e = some dict') :
    (∃ t, schema.aliasTarget e.1 = some t ∧ ¬ schema.IsAlias t ∧ dict' = Obj.del (Obj.set dict t e.2) e.1) ∨
      (¬ schema.IsAlias e.1 ∧ schema.aliasTarget e.1 = none ∧ dict' = dict) := by
  unfold convertAlias at h
  split at h
  case h_1 => cases h
  case h_2 t hspec =>
    left
    refine ⟨t, by simp only [aliasTarget, hspec], ?_, (Option.some.inj h).symm⟩
    rintro ⟨o, ho, halias⟩
    exact schema.target e.1 t hspec o ho halias
  case h_3 hnone hsome =>
    right
    have hno : ∀ t, (Obj.get? schema.options e.1).map Entry.spec ≠ some (.aliasOf t) := by
      rintro (- | t)
      · exact hnone
      · exact hsome t
    refine ⟨?_, ?_, (Option.some.inj h).symm⟩
    · intro halias
      obtain ⟨t, ht⟩ := isAlias_iff.mp halias
      exact hno t ht
    · unfold aliasTarget
      split
      case h_1 t hspec => exact absurd hspec (hno t)
      case h_2 => rfl

/-- What a round leaves under a name that is no alias. -/
def giveRound (schema : Schema) (k : String) (g : Option Value) (e : String × Value) : Option Value :=
  if schema.aliasTarget e.1 = some k then some e.2 else g

/-- The value that a dictionary gives for an option: that of its last alias, or its own. -/
def given (schema : Schema) (dict : Obj Value) (k : String) : Option Value := dict.foldl (schema.giveRound k) (Obj.get? dict k)

theorem isAlias_of_target {k t : String} (h : schema.aliasTarget k = some t) : schema.IsAlias k := by
  unfold aliasTarget at h
  split at h
  case h_1 t' hspec => exact isAlias_iff.mpr ⟨t', hspec⟩
  case h_2 => cases h

theorem get?_convertAlias {dict dict' : Obj Value} {e : String × Value} {k : String} (h : schema.convertAlias dict e = some dict')
    (hk : ¬ schema.IsAlias k) : Obj.get? dict' k = schema.giveRound k (Obj.get? dict k) e := by
  rcases convertAlias_cases h with ⟨t, ht, -, rfl⟩ | ⟨-, hnone, rfl⟩
  · have hne : k ≠ e.1 := by
      rintro rfl
      exact hk (isAlias_of_target ht)
    rw [Obj.get?_del, if_neg hne, Obj.get?_set, giveRound, ht]
    by_cases hkt : k = t
    · rw [if_pos hkt, if_pos (by rw [hkt])]
    · rw [if_neg hkt, if_neg fun hsome => hkt (Option.some.inj hsome).symm]
  · rw [giveRound, hnone, if_neg (by simp)]

theorem get?_convert {l dict dict' : Obj Value} {k : String} (h : l.foldlM schema.convertAlias dict = some dict')
    (hk : ¬ schema.IsAlias k) : Obj.get? dict' k = l.foldl (schema.giveRound k) (Obj.get? dict k) := by
  induction l generalizing dict with
  | nil =>
    obtain rfl := Option.some.inj h
    rfl
  | cons e l ih =>
    rw [List.foldlM_cons] at h
    obtain ⟨d, hd, hl⟩ := Option.bind_eq_some_iff.mp h
    rw [ih hl, List.foldl_cons, get?_convertAlias hd hk]

/-- A round adds no alias, and removes its own. -/
theorem alias_of_convertAlias {dict dict' : Obj Value} {e : String × Value} {k : String} (h : schema.convertAlias dict e = some dict')
    (hk : schema.IsAlias k) (hmem : (Obj.get? dict' k).isSome) : (Obj.get? dict k).isSome ∧ k ≠ e.1 := by
  rcases convertAlias_cases h with ⟨t, -, ht, rfl⟩ | ⟨he, -, rfl⟩
  · have hkt : k ≠ t := by
      rintro rfl
      exact ht hk
    rw [Obj.get?_del, Obj.get?_set, if_neg hkt] at hmem
    by_cases hke : k = e.1
    · rw [if_pos hke] at hmem
      cases hmem
    · rw [if_neg hke] at hmem
      exact ⟨hmem, hke⟩
  · exact ⟨hmem, fun hke => he (hke ▸ hk)⟩

theorem alias_of_convert {l dict dict' : Obj Value} {k : String} (h : l.foldlM schema.convertAlias dict = some dict')
    (hk : schema.IsAlias k) (hmem : (Obj.get? dict' k).isSome) : (Obj.get? dict k).isSome ∧ k ∉ Obj.keys l := by
  induction l generalizing dict with
  | nil =>
    obtain rfl := Option.some.inj h
    exact ⟨hmem, List.not_mem_nil⟩
  | cons e l ih =>
    rw [List.foldlM_cons] at h
    obtain ⟨d, hd, hl⟩ := Option.bind_eq_some_iff.mp h
    obtain ⟨hsome, hnot⟩ := ih hl
    obtain ⟨hdict, hne⟩ := alias_of_convertAlias hd hk hsome
    refine ⟨hdict, fun hin => ?_⟩
    rcases List.mem_cons.mp hin with heq | hin
    · exact hne heq
    · exact hnot hin

/-- No alias is left. -/
theorem no_alias {dict dict' : Obj Value} {k : String} (h : schema.convertAliases dict = some dict') (hk : schema.IsAlias k) :
    Obj.get? dict' k = none := by
  by_contra hne
  obtain ⟨hsome, hnot⟩ := alias_of_convert h hk (Option.ne_none_iff_isSome.mp hne)
  exact hnot (Obj.mem_keys.mpr hsome)

theorem convert_of_no_alias {l dict : Obj Value} (h : ∀ k ∈ Obj.keys l, ¬ schema.IsAlias k) :
    l.foldlM schema.convertAlias dict = some dict := by
  induction l with
  | nil => rfl
  | cons e l ih =>
    have he : schema.convertAlias dict e = some dict := by
      have hno := h e.1 List.mem_cons_self
      unfold convertAlias
      split
      case h_1 hspec => exact absurd (isAlias_iff.mpr ⟨_, hspec⟩) hno
      case h_2 t hspec => exact absurd (isAlias_iff.mpr ⟨_, hspec⟩) hno
      case h_3 => rfl
    rw [List.foldlM_cons, he]
    exact ih fun k hk => h k (List.mem_cons_of_mem _ hk)

/-! ### Defaults -/

/-- The value with the default of an option. -/
def withDefault (o : Entry) (v : Option Value) : Option Value :=
  if o.spec.isAlias then v
  else
    match o.default with
    | none => v
    | some d => if d.isNull || v.any fun w => !w.isNull then v else some d

theorem get?_setDefault (dict : Obj Value) (o : String × Entry) (k : String) :
    Obj.get? (setDefault dict o) k = if k = o.1 then withDefault o.2 (Obj.get? dict k) else Obj.get? dict k := by
  unfold setDefault withDefault
  by_cases hk : k = o.1
  · subst hk
    rw [if_pos rfl]
    split_ifs with halias
    · rfl
    · cases o.2.default with
      | none => rfl
      | some d =>
        dsimp only
        split_ifs
        · rfl
        · exact Obj.get?_set_self
  · rw [if_neg hk]
    split_ifs with halias
    · rfl
    · cases o.2.default with
      | none => rfl
      | some d =>
        dsimp only
        split_ifs
        · rfl
        · exact Obj.get?_set_ne hk

theorem get?_setDefaults {l : Obj Entry} (h : (Obj.keys l).Nodup) (dict : Obj Value) (k : String) :
    Obj.get? (l.foldl setDefault dict) k = (Obj.get? l k).elim (Obj.get? dict k) (withDefault · (Obj.get? dict k)) := by
  induction l generalizing dict with
  | nil => rfl
  | cons o l ih =>
    obtain ⟨hnot, hnodup⟩ := List.nodup_cons.mp h
    rw [List.foldl_cons, ih hnodup, get?_setDefault, Obj.get?_cons]
    by_cases hk : o.1 = k
    · have hnone : Obj.get? l k = none := by
        rw [← Option.not_isSome_iff_eq_none, ← Obj.mem_keys, ← hk]
        exact hnot
      rw [if_pos hk.symm, if_pos hk, hnone]
      rfl
    · rw [if_neg (Ne.symm hk), if_neg hk]

/-- The value that an option is checked with. -/
def effective (schema : Schema) (dict : Obj Value) (k : String) : Option Value :=
  (Obj.get? schema.options k).elim (schema.given dict k) (withDefault · (schema.given dict k))

/-! ### The whole dictionary -/

theorem get?_validated {dict out : Obj Value} (h : dict.mapM (schema.validateEntry number) = some out) (k : String) :
    Obj.get? out k = (Obj.get? dict k).bind fun v => (schema.validateEntry number (k, v)).map Prod.snd := by
  have hall := mapM_eq_some.mp h
  clear h
  induction hall with
  | nil => rfl
  | @cons e e' dict out hee _ ih =>
    have hkey : e'.1 = e.1 := by
      unfold validateEntry at hee
      split at hee
      · rw [← Option.some.inj hee]
      · obtain ⟨v, -, rfl⟩ := Option.map_eq_some_iff.mp hee
        rfl
    rw [Obj.get?_cons, Obj.get?_cons, hkey]
    by_cases hk : e.1 = k
    · rw [if_pos hk, if_pos hk, ← hk, Option.bind_some, hee, Option.map_some]
    · rw [if_neg hk, if_neg hk, ih]

theorem validateEntry_isSome {dict out : Obj Value} (h : dict.mapM (schema.validateEntry number) = some out) {e : String × Value}
    (he : e ∈ dict) : (schema.validateEntry number e).isSome := by
  have hall := mapM_eq_some.mp h
  clear h
  induction hall with
  | nil => cases he
  | cons hee _ ih =>
    rcases List.mem_cons.mp he with rfl | he
    · rw [hee]
      rfl
    · exact ih he

/-- The value of an option after the checks. -/
theorem get?_validate {dict out : Obj Value} {k : String} {o : Entry} (h : schema.validate number dict = some out)
    (ho : Obj.get? schema.options k = some o) (hno : ¬ schema.IsAlias k) :
    Obj.get? out k = (schema.effective dict k).bind (validateValue number o.spec) ∧
      ∀ v, schema.effective dict k = some v → (validateValue number o.spec v).isSome := by
  obtain ⟨d, hd, hout⟩ := Option.bind_eq_some_iff.mp h
  have hgiven : Obj.get? d k = schema.given dict k := get?_convert hd hno
  have heff : Obj.get? (schema.setDefaults d) k = schema.effective dict k := by
    rw [setDefaults, get?_setDefaults schema.nodup, hgiven, effective]
  have hentry (v : Value) : schema.validateEntry number (k, v) = (validateValue number o.spec v).map fun w => (k, w) := by
    simp only [validateEntry, ho]
  constructor
  · rw [get?_validated hout, heff]
    congr 1
    funext v
    rw [hentry, Option.map_map]
    simp [Function.comp_def]
  · intro v hv
    have hsome := validateEntry_isSome hout (Obj.mem_of_get? (heff.trans hv))
    rw [hentry] at hsome
    simpa using hsome

theorem get?_validate_alias {dict out : Obj Value} {k : String} (h : schema.validate number dict = some out)
    (hk : schema.IsAlias k) : Obj.get? out k = none := by
  obtain ⟨d, hd, hout⟩ := Option.bind_eq_some_iff.mp h
  obtain ⟨o, ho, halias⟩ := hk
  rw [get?_validated hout, setDefaults, get?_setDefaults schema.nodup, no_alias hd ⟨o, ho, halias⟩, Option.mem_def.mp ho]
  simp [withDefault, halias]

/-- What the checks promise of a dictionary. -/
structure Validated (number : String → Number) (schema : Schema) (out : Obj Value) : Prop where
  noAlias : ∀ k ∈ Obj.keys out, ¬ schema.IsAlias k
  present : ∀ k o, Obj.get? schema.options k = some o → ¬ o.spec.isAlias → (∃ d ∈ o.default, d.isNull = false) → k ∈ Obj.keys out
  admits : ∀ k o v, Obj.get? schema.options k = some o → Obj.get? out k = some v → o.spec.Admits v
  again : schema.validate number out = some out

/-- An option with a default has a value. -/
theorem effective_of_default (dict : Obj Value) {k : String} {o : Entry} (ho : Obj.get? schema.options k = some o)
    (hno : ¬ o.spec.isAlias) {d : Value} (hd : o.default = some d) (hnull : d.isNull = false) :
    ∃ v, schema.effective dict k = some v ∧ v.isNull = false := by
  simp only [effective, ho, Option.elim_some, withDefault, if_neg hno, hd]
  split_ifs with hkeep
  · obtain ⟨v, hv, hvn⟩ : ∃ v, schema.given dict k = some v ∧ v.isNull = false := by
      simpa [hnull, Option.any_eq_true] using hkeep
    exact ⟨v, hv, hvn⟩
  · exact ⟨d, rfl, hnull⟩

theorem validateEntry_again {e e' : String × Value} (h : schema.validateEntry number e = some e') :
    schema.validateEntry number e' = some e' := by
  unfold validateEntry at h ⊢
  split at h
  case h_1 hnone =>
    obtain rfl := Option.some.inj h
    rw [hnone]
  case h_2 o ho =>
    obtain ⟨w, hw, rfl⟩ := Option.map_eq_some_iff.mp h
    simp only [ho, validateValue_again hw, Option.map_some]

theorem setDefaults_eq_self {dict : Obj Value} {l : Obj Entry} (h : ∀ o ∈ l, setDefault dict o = dict) : l.foldl setDefault dict = dict := by
  induction l with
  | nil => rfl
  | cons o l ih =>
    rw [List.foldl_cons, h o List.mem_cons_self]
    exact ih fun o ho => h o (List.mem_cons_of_mem _ ho)

/-- An option with a default has a value after the checks. -/
theorem get?_of_default {dict out : Obj Value} {k : String} {o : Entry} (h : schema.validate number dict = some out)
    (ho : Obj.get? schema.options k = some o) (hno : ¬ o.spec.isAlias) {d : Value} (hd : o.default = some d)
    (hnull : d.isNull = false) : ∃ w, Obj.get? out k = some w ∧ w.isNull = false := by
  have hk : ¬ schema.IsAlias k := by
    rintro ⟨o', ho', halias⟩
    rw [Option.mem_def, ho, Option.some.injEq] at ho'
    exact hno (ho' ▸ halias)
  obtain ⟨hget, hsome⟩ := get?_validate h ho hk
  obtain ⟨v, hv, hvn⟩ := effective_of_default dict ho hno hd hnull
  obtain ⟨w, hw⟩ := Option.isSome_iff_exists.mp (hsome v hv)
  exact ⟨w, by rw [hget, hv, Option.bind_some, hw], validateValue_isNull hw hvn⟩

/-- A checked dictionary is kept when it is checked again. -/
theorem validate_again {dict out : Obj Value} (h : schema.validate number dict = some out) :
    schema.validate number out = some out := by
  have hconvert : schema.convertAliases out = some out := by
    refine convert_of_no_alias fun k hk halias => ?_
    have hnone := get?_validate_alias h halias
    rw [Obj.mem_keys, hnone] at hk
    cases hk
  have hdefaults : schema.setDefaults out = out := by
    refine setDefaults_eq_self fun o ho => ?_
    have hget := Obj.get?_of_mem schema.nodup (show (o.1, o.2) ∈ schema.options from ho)
    unfold setDefault
    split_ifs with halias
    · rfl
    · cases hd : o.2.default with
      | none => rfl
      | some d =>
        refine if_pos ?_
        cases hnull : d.isNull with
        | true => rfl
        | false =>
          obtain ⟨w, hw, hwn⟩ := get?_of_default h hget halias hd hnull
          simp [hw, hwn]
  have hentries : out.mapM (schema.validateEntry number) = some out := by
    obtain ⟨d, -, hout⟩ := Option.bind_eq_some_iff.mp h
    have hall := mapM_eq_some.mp hout
    refine mapM_eq_some.mpr ?_
    clear h hconvert hdefaults hout
    generalize schema.setDefaults d = dict at hall
    induction hall with
    | nil => exact .nil
    | cons hee _ ih => exact .cons (validateEntry_again hee) ih
  simp [validate, hconvert, hdefaults, hentries]

/-- A dictionary that is not refused comes out right just where the values of its options are clean. -/
theorem validated_iff (number : String → Number) (schema : Schema) (dict out : Obj Value)
    (h : schema.validate number dict = some out) :
    Validated number schema out ↔
      ∀ k o v, Obj.get? schema.options k = some o → schema.effective dict k = some v → o.spec.Clean number v := by
  constructor
  · intro hval k o v ho hv
    by_cases hk : schema.IsAlias k
    · obtain ⟨t, ht⟩ := isAlias_iff.mp hk
      rw [ho, Option.map_some, Option.some.injEq] at ht
      rw [ht]
      trivial
    · obtain ⟨hget, hsome⟩ := get?_validate h ho hk
      obtain ⟨w, hw⟩ := Option.isSome_iff_exists.mp (hsome v hv)
      refine (admits_iff hw).mp (hval.admits k o w ho ?_)
      rw [hget, hv, Option.bind_some, hw]
  · intro hclean
    refine ⟨fun k hk halias => ?_, fun k o ho hno hdef => ?_, fun k o w ho hw => ?_, validate_again h⟩
    · rw [Obj.mem_keys, get?_validate_alias h halias] at hk
      cases hk
    · obtain ⟨d, hd, hnull⟩ := hdef
      obtain ⟨w, hw, -⟩ := get?_of_default h ho hno hd hnull
      exact Obj.mem_keys.mpr (by rw [hw]; rfl)
    · by_cases hk : schema.IsAlias k
      · rw [get?_validate_alias h hk] at hw
        cases hw
      · obtain ⟨hget, -⟩ := get?_validate h ho hk
        rw [hget] at hw
        obtain ⟨v, hv, hval⟩ := Option.bind_eq_some_iff.mp hw
        exact (admits_iff hval).mpr (hclean k o v ho hv)

/-- The option `rx_stbc` of a radio. -/
def rxStbc : Schema where
  options := [("rx_stbc", { spec := .number (some (.int 0)) (some (.int 4)) none, default := some (.number (.int 3)) })]
  nodup := List.pairwise_singleton _ _
  target := by
    intro k t h
    rw [Obj.get?_cons] at h
    split_ifs at h
    · cases h
    · cases h

theorem rxStbc_negative : ¬ ∀ out, rxStbc.validate (fun _ => .nan) [("rx_stbc", .number (.int (-1)))] = some out →
    Validated (fun _ => .nan) rxStbc out := by
  intro h
  have hadmits := (h [("rx_stbc", .number (.int (-1)))] rfl).admits "rx_stbc" _ _ rfl rfl
  obtain ⟨n, hn, -, hlow, -⟩ := hadmits
  obtain rfl := Value.number.inj hn
  exact absurd (hlow _ rfl) (by decide)

/-- An alias, an array, an enumeration and `rx_stbc`. -/
def radio : Schema where
  options := [("basic_rate", { spec := .aliasOf (some "basic_rates") }), ("basic_rates", { spec := .arrayOf (.number none none none) }),
    ("htmode", { spec := .text (some [.text "NOHT", .text "HT20", .text "HE80"]) }),
    ("rx_stbc", { spec := .number (some (.int 0)) (some (.int 4)) none, default := some (.number (.int 3)) })]
  nodup := by decide
  target := by
    intro k t h e he
    simp only [Obj.get?_cons] at h
    split_ifs at h
    · cases h
      cases he
      decide
    · cases h
    · cases h
    · cases h
    · cases h

/-- The conversion of the texts below. -/
def rates (s : String) : Number := if s = "6000" then .int 6000 else if s = "12000" then .int 12000 else .nan

theorem radio_validated : Validated rates radio
    [("htmode", .text "HE80"), ("basic_rates", .array [.number (.int 6000), .number (.int 12000)]), ("rx_stbc", .number (.int 3))] := by
  refine (validated_iff rates radio [("basic_rate", .array [.text "6000", .text "12000"]), ("htmode", .text "HE80")] _ rfl).mpr ?_
  intro k o v ho hv
  simp only [radio, Obj.get?_cons] at ho
  split_ifs at ho with halias hrates hmode hstbc
  · cases ho
    trivial
  · cases ho
    subst hrates
    cases hv
    refine List.forall_mem_cons.mpr ⟨?_, List.forall_mem_singleton.mpr ?_⟩
    · unfold Spec.Clean
      decide
    · unfold Spec.Clean
      decide
  · cases ho
    subst hmode
    cases hv
    exact ⟨"HE80", rfl⟩
  · cases ho
    subst hstbc
    cases hv
    unfold Spec.Clean
    decide
  · cases ho

end Schema

end RainWrt.Wifi.Validate
