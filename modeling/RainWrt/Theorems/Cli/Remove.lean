import RainWrt.Theorems.Cli.Editor

/-! Which positions `remove` removes. A token is compared with the numbers before it is looked for among the values, and a number
    is only checked to be small enough. So zero and negative numbers count from the end, values that are numbers are not found,
    and a value that has been removed is not found again. -/

namespace RainWrt.Cli

variable {P V : Type} [DecidableEq P] {L : Values V} {C : Coercion} {l : List V} {N : List Nat}

/-! ### Positions -/

/-- The list without the positions `N`. -/
def punch (l : List V) (N : List Nat) : List (Option V) := l.mapIdx fun i v => if i ∈ N then none else some v

/-- The position that a token names by its number. -/
def position? (n : Nat) (idx : Text) : Option Nat := (List.range n).find? fun i => idx = decimal (i + 1)

/-- The position that a token names: that of its number, or else the first one of its value. -/
def named (L : Values V) (l : List V) (idx : Text) : Option Nat :=
  (position? l.length idx).or (l.findIdx? fun v => L.same v (L.text idx))

/-- Where `data[k] = null` changes a list of `n` entries. -/
def target (n : Nat) (k : Int) : Option Nat :=
  if 0 ≤ k then (if k < n then some k.toNat else none)
  else if 0 ≤ k + n then some (k + n).toNat
  else none

@[simp] theorem length_punch : (punch l N).length = l.length := List.length_mapIdx

theorem getElem?_punch (i : Nat) : (punch l N)[i]? = l[i]?.map fun v => if i ∈ N then none else some v := List.getElem?_mapIdx

theorem punch_nil : punch l [] = l.map some := by
  apply List.ext_getElem?
  intro i
  simp [getElem?_punch]

theorem set_punch (i : Nat) : (punch l N).set i none = punch l (N ++ [i]) := by
  apply List.ext_getElem?
  intro j
  rw [List.getElem?_set, length_punch, getElem?_punch, getElem?_punch]
  by_cases hij : i = j
  · subst hij
    by_cases hi : i < l.length
    · simp [hi]
    · simp [hi]
  · have : j ∈ N ++ [i] ↔ j ∈ N := by simp [Ne.symm hij]
    simp [hij, this]

theorem punch_eq_iff {M : List Nat} : punch l N = punch l M ↔ ∀ i < l.length, (i ∈ N ↔ i ∈ M) := by
  constructor
  · intro h i hi
    have hget := congrArg (·[i]?) h
    simp only [getElem?_punch, List.getElem?_eq_getElem hi, Option.map_some, Option.some.injEq] at hget
    by_cases hN : i ∈ N <;> by_cases hM : i ∈ M <;> simp_all
  · intro h
    apply List.ext_getElem?
    intro i
    rw [getElem?_punch, getElem?_punch]
    cases hi : l[i]? with
    | none => rfl
    | some v =>
      obtain ⟨hlt, -⟩ := List.getElem?_eq_some_iff.mp hi
      simp only [Option.map_some, h i hlt]

theorem setNull_punch (k : Int) : setNull (punch l N) k = punch l (N ++ (target l.length k).toList) := by
  unfold setNull target
  rw [length_punch]
  split_ifs with h0 hn hneg
  · exact set_punch _
  · rw [List.set_eq_of_length_le (by rw [length_punch]; omega)]
    simp
  · exact set_punch _
  · simp

/-! ### Tokens -/

theorem position?_eq_some {n i : Nat} {idx : Text} (h : position? n idx = some i) : i < n ∧ idx = decimal (i + 1) := by
  have hmem := List.mem_of_find?_eq_some h
  have hp := List.find?_some h
  exact ⟨List.mem_range.mp hmem, of_decide_eq_true hp⟩

/-- A position named by a number is read as that number. -/
theorem number_of_position? {idx : Text} {i : Nat} (hl : l.length < 2 ^ 63) (h : position? l.length idx = some i) :
    C.number (some idx) = .int (i + 1) ∧ idx = C.text (C.number (some idx)) := by
  obtain ⟨hi, rfl⟩ := position?_eq_some h
  have hfit : Fits ((i : Int) + 1) := by
    constructor <;> omega
  have hnum := C.number_decimal hfit
  exact ⟨hnum, by rw [hnum, C.text_int _ hfit]⟩

theorem indexOf_punch {idx : Text} {j : Nat} : indexOf L (punch l N) idx = some j ↔
    ∃ h : j < l.length, (L.same l[j] (L.text idx) = true ∧ j ∉ N) ∧
      ∀ k (hk : k < j), ¬(L.same (l.get ⟨k, Nat.lt_trans hk h⟩) (L.text idx) = true ∧ k ∉ N) := by
  have hat : ∀ k (hk : k < l.length), ((punch l N).get ⟨k, by simpa⟩).any (fun v => L.same v (L.text idx)) = true ↔ (L.same l[k] (L.text idx) = true ∧ k ∉ N) := by
    intro k hk
    simp only [List.get_eq_getElem, punch, List.getElem_mapIdx]
    by_cases hN : k ∈ N
    · simp [hN]
    · simp [hN]
  unfold indexOf
  rw [List.findIdx?_eq_some_iff_getElem]
  constructor
  · rintro ⟨h, hj, hbefore⟩
    rw [length_punch] at h
    refine ⟨h, (hat j h).mp hj, fun k hk hn => hbefore k hk ((hat k (Nat.lt_trans hk h)).mpr hn)⟩
  · rintro ⟨h, hj, hbefore⟩
    exact ⟨by simpa, (hat j h).mpr hj, fun k hk hn => hbefore k hk ((hat k (Nat.lt_trans hk h)).mp hn)⟩

/-- Where the number of a token lands in a list of `n` entries. -/
def lands (C : Coercion) (n : Nat) (idx : Text) : Option Nat := (C.index (C.number (some idx)).pred).bind (target n)

/-- A token does what it names, behind tokens that have removed `N`. One that names nothing must not be a number, or be above the
    length. One that names a value must not be a number, and not find its place removed; or else, where it is a number, that number
    has to land there. -/
def TokenOk (L : Values V) (C : Coercion) (l : List V) (N : List Nat) (idx : Text) : Prop :=
  match named L l idx with
  | none => idx ≠ C.text (C.number (some idx)) ∨ (C.number (some idx)).gt (.int l.length) = true
  | some i =>
    if idx ≠ C.text (C.number (some idx)) then i ∉ N
    else (C.number (some idx)).gt (.int l.length) = false ∧
      (lands C l.length idx = some i ∨ (i ∈ N ∧ ∀ j, lands C l.length idx = some j → j ∈ N))

theorem target_lt {n j : Nat} {k : Int} (h : target n k = some j) : j < n := by
  unfold target at h
  split_ifs at h <;> cases h <;> omega

theorem lands_lt {n j : Nat} {idx : Text} (h : lands C n idx = some j) : j < n := by
  obtain ⟨k, -, hk⟩ := Option.bind_eq_some_iff.mp h
  exact target_lt hk

theorem named_lt {idx : Text} {i : Nat} (h : named L l idx = some i) : i < l.length := by
  unfold named at h
  cases hp : position? l.length idx with
  | some j =>
    rw [hp, Option.some_or] at h
    cases h
    exact (position?_eq_some hp).1
  | none =>
    rw [hp, Option.none_or] at h
    exact (List.findIdx?_eq_some_iff_getElem.mp h).1

/-- A token that is no number names the first position of its value. -/
theorem named_value {idx : Text} (hl : l.length < 2 ^ 63) (h : idx ≠ C.text (C.number (some idx))) :
    named L l idx = l.findIdx? fun v => L.same v (L.text idx) := by
  unfold named
  cases hp : position? l.length idx with
  | none => exact Option.none_or
  | some i => exact absurd (number_of_position? hl hp).2 h

/-- A token that is no number. -/
theorem removeToken_value {idx : Text} (hl : l.length < 2 ^ 63) (h : idx ≠ C.text (C.number (some idx))) :
    removeToken L C (punch l N) idx = (punch l (N ++ (named L l idx).toList), (named L l idx).isNone) ↔ TokenOk L C l N idx := by
  have hset : ∀ j, j < l.length → setNull (punch l N) (j + 1 - 1) = punch l (N ++ [j]) := by
    intro j hj
    have htarget : target l.length ((j : Int) + 1 - 1) = some j := by
      simp [target, hj]
    rw [setNull_punch, htarget]
    rfl
  simp only [removeToken, TokenOk, if_pos h, named_value hl h]
  cases hfirst : l.findIdx? fun v => L.same v (L.text idx) with
  | none =>
    rw [List.findIdx?_eq_none_iff] at hfirst
    have hnone : indexOf L (punch l N) idx = none := by
      cases hidx : indexOf L (punch l N) idx with
      | none => rfl
      | some j =>
        obtain ⟨hj, hsame, -⟩ := indexOf_punch.mp hidx
        simp [hfirst _ (List.getElem_mem hj)] at hsame
    simp [hnone, h]
  | some i =>
    obtain ⟨hi, hsame, hbefore⟩ := List.findIdx?_eq_some_iff_getElem.mp hfirst
    by_cases hN : i ∈ N
    · simp only [hN, not_true_eq_false, iff_false]
      cases hidx : indexOf L (punch l N) idx with
      | none => simp
      | some j =>
        -- another position with the value
        obtain ⟨hj, ⟨-, hjN⟩, -⟩ := indexOf_punch.mp hidx
        simp only [hset j hj, Option.toList_some, Prod.mk.injEq, punch_eq_iff, not_and]
        intro heq
        have := (heq j hj).mp (by simp)
        rcases List.mem_append.mp this with hjN' | hji
        · exact absurd hjN' hjN
        · exact absurd (List.mem_singleton.mp hji ▸ hN) hjN
    · have hidx : indexOf L (punch l N) idx = some i :=
        indexOf_punch.mpr ⟨hi, ⟨hsame, hN⟩, fun k hk hn => hbefore k hk hn.1⟩
      simp only [hidx, hset i hi, Option.toList_some, Option.isNone_some, hN, not_false_eq_true]

/-- A token that is a number. -/
theorem removeToken_number {idx : Text} (h : idx = C.text (C.number (some idx))) :
    removeToken L C (punch l N) idx = (punch l (N ++ (named L l idx).toList), (named L l idx).isNone) ↔ TokenOk L C l N idx := by
  have hno : ¬idx ≠ C.text (C.number (some idx)) := fun hne => hne h
  unfold TokenOk
  simp only [if_neg hno]
  cases hgt : (C.number (some idx)).gt (.int l.length) with
  | true =>
    have hres : removeToken L C (punch l N) idx = (punch l N, true) := by
      rw [removeToken, if_neg hno, length_punch, if_pos hgt]
    cases named L l idx with
    | none => simp [hres]
    | some i => simp [hres]
  | false =>
    have hres : removeToken L C (punch l N) idx = (punch l (N ++ (lands C l.length idx).toList), false) := by
      rw [removeToken, if_neg hno, length_punch, if_neg (by simp [hgt])]
      unfold lands
      cases C.index (C.number (some idx)).pred with
      | none => simp
      | some k => simp [setNull_punch]
    rw [hres]
    cases hnamed : named L l idx with
    | none =>
      have : C.text (C.number (some idx)) = idx := h.symm
      simp [this]
    | some i =>
      have hi := named_lt hnamed
      simp only [Option.isNone_some, Option.toList_some, Prod.mk.injEq, and_true, true_and, punch_eq_iff]
      cases hlands : lands C l.length idx with
      | none =>
        simp only [Option.toList_none, List.append_nil, reduceCtorEq, false_or, false_imp_iff, implies_true, and_true]
        constructor
        · intro heq
          exact (heq i hi).mpr (by simp)
        · intro hN k hk
          rw [List.mem_append, List.mem_singleton]
          exact ⟨Or.inl, fun hor => hor.elim id fun hki => hki ▸ hN⟩
      | some j =>
        have hj := lands_lt hlands
        simp only [Option.toList_some, Option.some.injEq, forall_eq', List.mem_append, List.mem_singleton]
        constructor
        · intro heq
          by_cases hji : j = i
          · exact Or.inl hji
          · exact Or.inr ⟨((heq i hi).mpr (Or.inr rfl)).resolve_right (Ne.symm hji),
              ((heq j hj).mp (Or.inr rfl)).resolve_right hji⟩
        · rintro (rfl | ⟨hiN, hjN⟩) k -
          · rfl
          · constructor
            · rintro (hk | rfl)
              · exact Or.inl hk
              · exact Or.inl hjN
            · rintro (hk | rfl)
              · exact Or.inl hk
              · exact Or.inl hiN

theorem removeToken_eq_iff {idx : Text} (hl : l.length < 2 ^ 63) :
    removeToken L C (punch l N) idx = (punch l (N ++ (named L l idx).toList), (named L l idx).isNone) ↔ TokenOk L C l N idx := by
  by_cases h : idx = C.text (C.number (some idx))
  · exact removeToken_number h
  · exact removeToken_value hl h

/-! ### All tokens -/

/-- The positions that the tokens name are removed, and the tokens that name nothing are reported. -/
def Removes (L : Values V) (C : Coercion) (l : List V) (val : List Text) : Prop :=
  removeTokens L C (l.map some) val = (punch l (val.filterMap (named L l)), val.filter fun idx => (named L l idx).isNone)

theorem removeTokens_concat (data : List (Option V)) (val : List Text) (idx : Text) :
    removeTokens L C data (val ++ [idx]) =
      ((removeToken L C (removeTokens L C data val).1 idx).1, (removeTokens L C data val).2 ++
        if (removeToken L C (removeTokens L C data val).1 idx).2 then [idx] else []) := by
  induction val generalizing data with
  | nil => rfl
  | cons t val ih =>
    simp only [List.cons_append, removeTokens, ih]
    cases (removeToken L C data t).2 <;> rfl

theorem removes_concat {val : List Text} {idx : Text} (hl : l.length < 2 ^ 63) (h : Removes L C l val) :
    Removes L C l (val ++ [idx]) ↔ TokenOk L C l (val.filterMap (named L l)) idx := by
  rw [← removeToken_eq_iff hl]
  unfold Removes at h ⊢
  rw [removeTokens_concat, h, List.filterMap_append, List.filter_append]
  have hmap : [idx].filterMap (named L l) = (named L l idx).toList := by
    cases hn : named L l idx <;> simp [hn]
  rw [hmap]
  generalize removeToken L C (punch l (val.filterMap (named L l))) idx = r
  obtain ⟨data, bad⟩ := r
  cases bad <;> cases hn : named L l idx <;> simp [hn]

/-- After every token so far the positions named have been removed: exactly where every token does what it names. -/
theorem removes_iff_tokens (hl : l.length < 2 ^ 63) (val : List Text) : (∀ before, before <+: val → Removes L C l before) ↔
    ∀ before idx, before ++ [idx] <+: val → TokenOk L C l (before.filterMap (named L l)) idx := by
  constructor
  · intro h before idx hpre
    exact (removes_concat hl (h before ((List.prefix_append _ _).trans hpre))).mp (h _ hpre)
  · intro h before
    induction before using List.reverseRecOn with
    | nil =>
      intro _
      simp [Removes, removeTokens, punch_nil]
    | append_singleton before idx ih =>
      intro hpre
      exact (removes_concat hl (ih ((List.prefix_append _ _).trans hpre))).mpr (h before idx hpre)

/-- A call that removes from one list. -/
theorem call_remove {params : Obj (Param P V)} {name : String} {cur : Param P V} {s : Store P V} {obj : P}
    (hfound : (removeParams params).get? name = some cur) (hremove : cur.remove = none)
    (hl : s.list (cur.getParamObject obj) (cur.key name) = some l) (val : List Text) :
    (call L C params s ⟨some obj, .remove [(name, val)]⟩).errors = (removeTokens L C (l.map some) val).2.map .invalidValue ∧
      ((call L C params s ⟨some obj, .remove [(name, val)]⟩).store.list (cur.getParamObject obj) (cur.key name)).getD [] =
        (removeTokens L C (l.map some) val).1.reduceOption := by
  simp only [call, removeFrom, hfound, removeRaises, removeEntry, hremove, Store.list_eq_some.mp hl, Bool.false_eq_true, if_false]
  generalize removeTokens L C (l.map some) val = r
  obtain ⟨data, errs⟩ := r
  simp only [List.nil_append]
  have hend : ∀ s' : Store P V, (if (errs.map (Error.invalidValue (V := V))).isEmpty then done s' [(name, val)]
      else fail s' (errs.map .invalidValue)) = ⟨s', errs.map .invalidValue, errs.isEmpty, errs.isEmpty⟩ := by
    intro s'
    cases errs <;> simp [done, fail]
  by_cases hempty : (cur.attributeAllowEmpty && data.reduceOption.isEmpty) = true
  · simp only [if_pos hempty, hend, true_and]
    rw [Store.list_delete, if_pos ⟨rfl, rfl⟩]
    rw [Bool.and_eq_true, List.isEmpty_iff] at hempty
    simp [hempty.2]
  · simp only [if_neg hempty, hend, true_and]
    rw [Store.list_put, if_pos ⟨rfl, rfl⟩]
    rfl

/-- `remove_call` on a list: what it stores and reports is left by its tokens, and up to every token the positions named have been
    removed and the others reported, exactly where each token does what it names. -/
theorem remove_iff {params : Obj (Param P V)} {name : String} {cur : Param P V} {s : Store P V} {obj : P}
    (hfound : (removeParams params).get? name = some cur) (hremove : cur.remove = none)
    (hl : s.list (cur.getParamObject obj) (cur.key name) = some l) (hlen : l.length < 2 ^ 63) (val : List Text) :
    (call L C params s ⟨some obj, .remove [(name, val)]⟩).errors = (removeTokens L C (l.map some) val).2.map .invalidValue ∧
      ((call L C params s ⟨some obj, .remove [(name, val)]⟩).store.list (cur.getParamObject obj) (cur.key name)).getD [] =
        (removeTokens L C (l.map some) val).1.reduceOption ∧
      ((∀ before, before <+: val → Removes L C l before) ↔
        ∀ before idx, before ++ [idx] <+: val → TokenOk L C l (before.filterMap (named L l)) idx) := by
  obtain ⟨herrors, hstored⟩ := call_remove hfound hremove hl val
  exact ⟨herrors, hstored, removes_iff_tokens hlen val⟩

theorem remove_iff_members : Removes texts .simple [['a'], ['b']] [['2'], ['a']] :=
  ((@remove_iff _ _ _ texts .simple _ serviceParams "member" _ (fun _ => [("members", .list [['a'], ['b']])]) Service.service
    rfl rfl rfl (by decide) [['2'], ['a']]).2.2.mpr (by
      intro before idx hpre
      match before, hpre.length_le with
      | [], _ =>
        have : idx = ['2'] := by simpa using hpre
        subst this
        exact ⟨by decide, Or.inl (by decide)⟩
      | [t], _ =>
        have : t = ['2'] ∧ idx = ['a'] := by simpa using hpre
        obtain ⟨rfl, rfl⟩ := this
        exact (by decide : 0 ∉ [1])
      | _ :: _ :: before, h => simp at h)) _ (List.prefix_refl _)

/-- Zero removes the last entry, with no error. -/
theorem zero_removes :
    (call texts .simple serviceParams (fun _ => [("members", .list [['a'], ['b']])])
      ⟨some .service, .remove [("member", [['0']])]⟩).errors = [] ∧
    (call texts .simple serviceParams (fun _ => [("members", .list [['a'], ['b']])])
      ⟨some .service, .remove [("member", [['0']])]⟩).store.list .service "members" = some [['a']] ∧
    ¬Removes texts .simple [['a'], ['b']] [['0']] := by
  unfold Removes
  decide

end RainWrt.Cli
