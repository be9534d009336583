import RainWrt.Cli.Editor

/-! Lists of an object editor stay free of duplicates where the list that is checked is the one that is stored. -/

namespace RainWrt.Cli

variable {P V : Type} [DecidableEq P] {L : Values V} {C : Coercion}

/-! ### Values that occur twice -/

/-- No value occurs twice. -/
def Distinct (L : Values V) (l : List V) : Prop := l.Pairwise fun a b => L.same a b = false

theorem Values.has_append (l l' : List V) (v : V) : L.has (l ++ l') v = (L.has l v || L.has l' v) := List.any_append

theorem Values.has_eq_false {l : List V} {v : V} : L.has l v = false ↔ ∀ x ∈ l, L.same x v = false := by
  simp [Values.has]

theorem duplicateFrom_eq_none {val : Option (Arg V)} : ∀ {new seen : List V}, duplicateFrom L val seen new = none ↔
    (∀ v ∈ new, L.holds val v = false) ∧ (∀ v ∈ new, L.has seen v = false) ∧ Distinct L new
  | [], seen => by simp [duplicateFrom, Distinct]
  | v :: rest, seen => by
    unfold duplicateFrom
    cases hv : L.holds val v with
    | true => simp [hv]
    | false =>
      cases hs : L.has seen v with
      | true => simp [hs]
      | false =>
        rw [Bool.or_self, if_neg Bool.false_ne_true, duplicateFrom_eq_none]
        simp only [List.forall_mem_cons, hv, hs, true_and, Distinct, List.pairwise_cons, Values.has_append, Bool.or_eq_false_iff]
        have hone : ∀ w, L.has [v] w = L.same v w := fun w => by simp [Values.has]
        simp only [hone]
        constructor
        · rintro ⟨hval, hseen, hdist⟩
          exact ⟨hval, fun w hw => (hseen w hw).1, fun w hw => (hseen w hw).2, hdist⟩
        · rintro ⟨hval, hseen, hfirst, hdist⟩
          exact ⟨hval, fun w hw => ⟨hseen w hw, hfirst w hw⟩, hdist⟩

theorem checkDuplicate_eq_none {val : Option (Arg V)} {new : List V} : checkDuplicate L val new = none ↔
    (∀ v ∈ new, L.holds val v = false) ∧ Distinct L new := by
  rw [checkDuplicate, duplicateFrom_eq_none]
  simp [Values.has]

theorem distinct_append {l new : List V} (hl : Distinct L l) (hnew : Distinct L new)
    (h : ∀ v ∈ new, L.has l v = false) : Distinct L (l ++ new) :=
  List.pairwise_append.mpr ⟨hl, hnew, fun x hx v hv => Values.has_eq_false.mp (h v hv) x hx⟩

/-! ### The store -/

section Store
variable {s : Store P V} {p q : P} {a b : String}

theorem Store.list_put {val : Arg V} : (s.put q b val).list p a =
    if p = q ∧ a = b then (match val with | .list l => some l | .one _ | .null => none) else s.list p a := by
  unfold Store.list Store.put
  by_cases hp : p = q
  · subst hp
    rw [Function.update_self, Obj.get?_set]
    by_cases ha : a = b
    · rw [if_pos ha, if_pos ⟨rfl, ha⟩]
      cases val <;> rfl
    · rw [if_neg ha, if_neg (fun h => ha h.2)]
  · rw [Function.update_of_ne hp, if_neg (fun h => hp h.1)]

theorem Store.list_delete : (s.delete q b).list p a = if p = q ∧ a = b then none else s.list p a := by
  unfold Store.list Store.delete
  by_cases hp : p = q
  · subst hp
    rw [Function.update_self, Obj.get?_del]
    by_cases ha : a = b
    · rw [if_pos ha, if_pos ⟨rfl, ha⟩]
    · rw [if_neg ha, if_neg (fun h => ha h.2)]
  · rw [Function.update_of_ne hp, if_neg (fun h => hp h.1)]

end Store

/-! ### Removing -/

theorem reduceOption_set_none (data : List (Option V)) (i : Nat) :
    ((data.set i none).reduceOption).Sublist data.reduceOption := by
  induction data generalizing i with
  | nil => simp
  | cons d data ih =>
    cases i with
    | zero =>
      rw [List.set_cons_zero, List.reduceOption_cons_of_none]
      cases d with
      | none => rw [List.reduceOption_cons_of_none]
      | some v =>
        rw [List.reduceOption_cons_of_some]
        exact List.sublist_cons_self v _
    | succ i =>
      rw [List.set_cons_succ]
      cases d with
      | none =>
        rw [List.reduceOption_cons_of_none, List.reduceOption_cons_of_none]
        exact ih i
      | some v =>
        rw [List.reduceOption_cons_of_some, List.reduceOption_cons_of_some]
        exact (ih i).cons_cons v

theorem setNull_sublist (data : List (Option V)) (k : Int) : ((setNull data k).reduceOption).Sublist data.reduceOption := by
  unfold setNull
  split_ifs
  · exact reduceOption_set_none data _
  · exact reduceOption_set_none data _
  · exact List.Sublist.refl _

theorem removeToken_sublist (data : List (Option V)) (idx : Text) :
    ((removeToken L C data idx).1.reduceOption).Sublist data.reduceOption := by
  unfold removeToken
  split_ifs
  · cases indexOf L data idx with
    | none => exact List.Sublist.refl _
    | some i => exact setNull_sublist data _
  · exact List.Sublist.refl _
  · cases C.index (C.number (some idx)).pred with
    | none => exact List.Sublist.refl _
    | some k => exact setNull_sublist data k

theorem removeTokens_sublist : ∀ (val : List Text) (data : List (Option V)),
    ((removeTokens L C data val).1.reduceOption).Sublist data.reduceOption
  | [], _ => List.Sublist.refl _
  | idx :: val, data => (removeTokens_sublist val _).trans (removeToken_sublist data idx)

/-! ### What a call does to one list -/

/-- The list of `p` under `a`, if there is one, has no value twice. -/
def Unique (L : Values V) (p : P) (a : String) (s : Store P V) : Prop := ∀ l, s.list p a = some l → Distinct L l

/-- The attribute `a` of `p` is kept by one parameter alone, with no functions of its own, and no duplicates. -/
structure Own (params : Obj (Param P V)) (p : P) (name : String) (cur : Param P V) : Prop where
  found : params.get? name = some cur
  multiple : cur.multiple = true
  strict : cur.allowDuplicate = false
  plain : cur.add = none ∧ cur.set = none ∧ cur.remove = none
  only : ∀ e ∈ params, ∀ obj, e.2.getParamObject obj = p → e.2.key e.1 = cur.key name → e = (name, cur)
  add : ∀ e ∈ params, ∀ f, e.2.add = some f → ∀ s val, (f s val).list p (cur.key name) = s.list p (cur.key name)
  set : ∀ e ∈ params, ∀ f, e.2.set = some f → ∀ s val, (f s val).list p (cur.key name) = s.list p (cur.key name)
  remove : ∀ e ∈ params, ∀ f, e.2.remove = some f → ∀ s val, (f s val).list p (cur.key name) = s.list p (cur.key name)

/-- Values that `add` stores elsewhere than where it looks for them are not there yet. -/
def Checked (L : Values V) (p : P) (name : String) (cur : Param P V) (s : Store P V) (c : Call P V) : Prop :=
  match c.obj, c.command with
  | some obj, .add named => cur.getParamObject obj = p → p = obj ∨
      (named.map (·.1)).Nodup ∧ ∀ val, (name, val) ∈ named → ∀ v ∈ val, L.has ((s.list p (cur.key name)).getD []) v = false
  | _, _ => True

section
variable {p : P} {a name : String} {s s' : Store P V} {params : Obj (Param P V)} {cur cur' : Param P V} {obj : P}

omit [DecidableEq P] in
theorem Unique.congr (h : Unique L p a s) (hs : s'.list p a = s.list p a) : Unique L p a s' := fun l hl => h l (hs ▸ hl)

omit [DecidableEq P] in
/-- Without a `get_object`, `add` looks where it stores. -/
theorem checked_of_getObject (h : cur.getObject = none) {c : Call P V} : Checked L p name cur s c := by
  obtain ⟨obj, command⟩ := c
  cases obj with
  | none => trivial
  | some obj =>
    cases command with
    | add named =>
      intro hobj
      rw [Param.getParamObject, h] at hobj
      exact Or.inl hobj.symm
    | set named => trivial
    | remove named => trivial

theorem list_ensure_of_ne {q : P} {b : String} (h : ¬(p = q ∧ a = b)) : (s.ensure q b).list p a = s.list p a := by
  unfold Store.ensure
  split
  · rw [Store.list_put, if_neg h]
  · rw [Store.list_put, if_neg h]
  · rfl

theorem list_ensure {q : P} {b : String} : ((s.ensure q b).list p a).getD [] = (s.list p a).getD [] := by
  by_cases hpa : p = q ∧ a = b
  · obtain ⟨rfl, rfl⟩ := hpa
    unfold Store.ensure
    split
    · rename_i hnone
      rw [Store.list_put, if_pos ⟨rfl, rfl⟩, Store.list, hnone]
      rfl
    · rename_i hnull
      rw [Store.list_put, if_pos ⟨rfl, rfl⟩, Store.list, hnull]
      rfl
    · rfl
  · rw [list_ensure_of_ne hpa]

omit [DecidableEq P] in
theorem Store.list_eq_some {l : List V} : s.list p a = some l ↔ (s p).get? a = some (.list l) := by
  unfold Store.list
  split
  · rename_i heq
    rw [heq, Option.some.injEq, Option.some.injEq, Arg.list.injEq]
  · rename_i hno
    exact ⟨fun h => (by cases h), fun h => absurd h (hno l)⟩

/-! #### add -/

theorem addEntry_frame {val : List V} (hadd : cur.add = none) (h : ¬(p = cur.getParamObject obj ∧ a = cur.key name)) :
    (addEntry L obj s cur name val).1.list p a = s.list p a := by
  have hens := list_ensure_of_ne (s := s) h
  simp only [addEntry, hadd]
  split
  · exact hens
  · split
    · rw [Store.list_put, if_neg h]
      exact hens
    · exact hens

theorem addEntry_unique {val : List V} (hadd : cur.add = none) (hstrict : cur.allowDuplicate = false)
    (h : Unique L p (cur.key name) s) (hp : cur.getParamObject obj = p)
    (hfresh : p = obj ∨ ∀ v ∈ val, L.has ((s.list p (cur.key name)).getD []) v = false) :
    Unique L p (cur.key name) (addEntry L obj s cur name val).1 := by
  simp only [addEntry, hadd, hstrict, hp, Bool.false_eq_true, if_false]
  have hens : ((s.ensure p (cur.key name)).list p (cur.key name)).getD [] = (s.list p (cur.key name)).getD [] := list_ensure
  generalize s.ensure p (cur.key name) = s₁ at hens
  have hs₁ : Unique L p (cur.key name) s₁ := by
    intro l hl
    have hl' : (s.list p (cur.key name)).getD [] = l := by rw [← hens, hl, Option.getD_some]
    cases hs : s.list p (cur.key name) with
    | none =>
      rw [hs, Option.getD_none] at hl'
      rw [← hl']
      exact List.Pairwise.nil
    | some l₀ =>
      rw [hs, Option.getD_some] at hl'
      exact hl' ▸ h l₀ hs
  split
  · exact hs₁
  · rename_i hcheck
    obtain ⟨hold, hnew⟩ := checkDuplicate_eq_none.mp hcheck
    split
    · rename_i l hl
      intro l' hl'
      rw [Store.list_put, if_pos ⟨rfl, rfl⟩] at hl'
      cases hl'
      refine distinct_append (hs₁ l hl) hnew fun v hv => ?_
      rcases hfresh with rfl | hfresh
      · have := hold v hv
        rwa [Store.list_eq_some.mp hl] at this
      · have := hfresh v hv
        rwa [← hens, hl] at this
    · exact hs₁

/-- What `add` looks up works as the parameter of the editor. -/
theorem mem_addParams {n : String} {c' : Param P V} (h : (addParams params).get? n = some c') :
    ∃ c, (n, c) ∈ params ∧ ∀ (obj : P) (s : Store P V) val, addEntry L obj s c' n val = addEntry L obj s c n val := by
  rw [addParams, Obj.get?_mapVals, Option.map_eq_some_iff] at h
  obtain ⟨c, hc, rfl⟩ := h
  exact ⟨c, List.mem_of_mem_filter (Obj.mem_of_get? hc), fun _ _ _ => rfl⟩

/-- The values that are added under `name` are new, where they are not looked for in the list itself. -/
def Fresh (L : Values V) (p : P) (name a : String) (obj : P) (s : Store P V) (named : List (String × List V)) : Prop :=
  p = obj ∨ (named.map (·.1)).Nodup ∧ ∀ val, (name, val) ∈ named → ∀ v ∈ val, L.has ((s.list p a).getD []) v = false

theorem addEntry_step (own : Own params p name cur) {n : String} {c : Param P V} (hc : (n, c) ∈ params) {val : List V}
    {named : List (String × List V)} (h : Unique L p (cur.key name) s)
    (hfresh : cur.getParamObject obj = p → Fresh L p name (cur.key name) obj s ((n, val) :: named)) :
    Unique L p (cur.key name) (addEntry L obj s c n val).1 ∧
      (cur.getParamObject obj = p → Fresh L p name (cur.key name) obj (addEntry L obj s c n val).1 named) := by
  by_cases hw : c.getParamObject obj = p ∧ c.key n = cur.key name
  · -- the parameter itself: it is not named again
    obtain ⟨rfl, rfl⟩ := Prod.mk.inj (own.only _ hc obj hw.1 hw.2)
    constructor
    · exact addEntry_unique own.plain.1 own.strict h hw.1 ((hfresh hw.1).imp_right fun hf => hf.2 val List.mem_cons_self)
    · intro hp
      refine (hfresh hp).imp_right fun hf => ?_
      rw [List.map_cons, List.nodup_cons] at hf
      exact ⟨hf.1.2, fun val' hval' => absurd (List.mem_map_of_mem hval') hf.1.1⟩
  · have hframe : (addEntry L obj s c n val).1.list p (cur.key name) = s.list p (cur.key name) := by
      cases hadd : c.add with
      | none => exact addEntry_frame hadd fun hpa => hw ⟨hpa.1.symm, hpa.2.symm⟩
      | some f =>
        simp only [addEntry, hadd]
        exact own.add _ hc f hadd s val
    refine ⟨h.congr hframe, fun hp => (hfresh hp).imp_right fun hf => ?_⟩
    rw [List.map_cons, List.nodup_cons] at hf
    rw [hframe]
    exact ⟨hf.1.2, fun val' hval' => hf.2 val' (List.mem_cons_of_mem _ hval')⟩

theorem addFrom_unique (own : Own params p name cur) {all : List (String × List V)} : ∀ {named : List (String × List V)}
    {s : Store P V}, Unique L p (cur.key name) s →
    (cur.getParamObject obj = p → Fresh L p name (cur.key name) obj s named) →
    Unique L p (cur.key name) (addFrom L (addParams params) obj all s named).store
  | [], _, h, _ => h
  | (n, val) :: named, s, h, hfresh => by
    unfold addFrom
    cases hspec : (addParams params).get? n with
    | none => exact h
    | some c' =>
      obtain ⟨c, hc, hcc⟩ := mem_addParams (L := L) hspec
      obtain ⟨hstep, hnext⟩ := addEntry_step own hc h hfresh
      simp only [hcc]
      cases he : addEntry L obj s c n val with
      | mk s' r =>
        rw [he] at hstep hnext
        cases r with
        | some v => exact hstep
        | none => exact addFrom_unique own hstep hnext

/-! #### set -/

theorem setEntry_frame {val : Option (Arg V)} (hset : cur.set = none)
    (h : ¬(p = cur.getParamObject obj ∧ a = cur.key name)) : (setEntry L obj s cur name val).1.list p a = s.list p a := by
  simp only [setEntry, hset]
  split
  · rw [Store.list_delete, if_neg h]
  · rw [Store.list_delete, if_neg h]
  · rw [Store.list_put, if_neg h]
  · split
    · rfl
    · rw [Store.list_put, if_neg h]

theorem setEntry_unique {val : Option (Arg V)} (hset : cur.set = none) (hm : cur.multiple = true)
    (hstrict : cur.allowDuplicate = false) (h : Unique L p (cur.key name) s) (hp : cur.getParamObject obj = p) :
    Unique L p (cur.key name) (setEntry L obj s cur name val).1 := by
  simp only [setEntry, hset, hm, hstrict, hp, Bool.not_false, Bool.and_self, if_true]
  intro l hl
  split at hl
  · rw [Store.list_delete, if_pos ⟨rfl, rfl⟩] at hl
    cases hl
  · rw [Store.list_delete, if_pos ⟨rfl, rfl⟩] at hl
    cases hl
  · rw [Store.list_put, if_pos ⟨rfl, rfl⟩] at hl
    cases hl
  · split at hl
    · exact h l hl
    · rename_i hcheck
      rw [Store.list_put, if_pos ⟨rfl, rfl⟩] at hl
      cases hl
      exact (checkDuplicate_eq_none.mp hcheck).2

theorem mem_setParams {n : String} {c' : Param P V} (h : (setParams params).get? n = some c') :
    ∃ c, (n, c) ∈ params ∧ ∀ (obj : P) (s : Store P V) val, setEntry L obj s c' n val = setEntry L obj s c n val := by
  rw [setParams, Obj.get?_mapVals, Option.map_eq_some_iff] at h
  obtain ⟨c, hc, rfl⟩ := h
  exact ⟨c, Obj.mem_of_get? hc, fun _ _ _ => rfl⟩

theorem setEntry_step (own : Own params p name cur) {n : String} {c : Param P V} (hc : (n, c) ∈ params)
    {val : Option (Arg V)} (h : Unique L p (cur.key name) s) : Unique L p (cur.key name) (setEntry L obj s c n val).1 := by
  by_cases hw : c.getParamObject obj = p ∧ c.key n = cur.key name
  · obtain ⟨rfl, rfl⟩ := Prod.mk.inj (own.only _ hc obj hw.1 hw.2)
    exact setEntry_unique own.plain.2.1 own.multiple own.strict h hw.1
  · refine h.congr ?_
    cases hset : c.set with
    | none => exact setEntry_frame hset fun hpa => hw ⟨hpa.1.symm, hpa.2.symm⟩
    | some f =>
      simp only [setEntry, hset]
      exact own.set _ hc f hset s val

theorem setFrom_unique (own : Own params p name cur) {all : List (String × Option (Arg V))} :
    ∀ {named : List (String × Option (Arg V))} {s : Store P V}, Unique L p (cur.key name) s →
    Unique L p (cur.key name) (setFrom L (setParams params) obj all s named).store
  | [], _, h => h
  | (n, val) :: named, s, h => by
    unfold setFrom
    cases hspec : (setParams params).get? n with
    | none => exact setFrom_unique own h
    | some c' =>
      obtain ⟨c, hc, hcc⟩ := mem_setParams (L := L) hspec
      have hstep : Unique L p (cur.key name) (setEntry L obj s c n val).1 := setEntry_step own hc h
      simp only [hcc]
      cases he : setEntry L obj s c n val with
      | mk s' r =>
        rw [he] at hstep
        cases r with
        | some v => exact hstep
        | none => exact setFrom_unique own hstep

/-! #### remove -/

theorem removeEntry_list {val : List Text} (hremove : cur.remove = none) {l' : List V}
    (h : (removeEntry L C obj s cur name val).1.list p a = some l') :
    ∃ l, s.list p a = some l ∧ l'.Sublist l := by
  have hdelete : (s.delete (cur.getParamObject obj) (cur.key name)).list p a = some l' → s.list p a = some l' := by
    rw [Store.list_delete]
    split_ifs
    · exact fun h => by cases h
    · exact id
  simp only [removeEntry, hremove] at h
  split at h
  · exact ⟨l', h, List.Sublist.refl _⟩
  · exact ⟨l', h, List.Sublist.refl _⟩
  · split_ifs at h
    · exact ⟨l', h, List.Sublist.refl _⟩
    · exact ⟨l', hdelete h, List.Sublist.refl _⟩
    · rw [Store.list_put] at h
      split_ifs at h
      exact ⟨l', h, List.Sublist.refl _⟩
  · rename_i l hl
    have hsub := removeTokens_sublist (L := L) (C := C) val (l.map some)
    have hall : (l.map some).reduceOption = l := by simp [List.reduceOption, List.filterMap_map]
    rw [hall] at hsub
    split_ifs at h
    · exact ⟨l', hdelete h, List.Sublist.refl _⟩
    · rw [Store.list_put] at h
      split_ifs at h with hpa
      · obtain ⟨rfl, rfl⟩ := hpa
        cases h
        exact ⟨l, Store.list_eq_some.mpr hl, hsub⟩
      · exact ⟨l', h, List.Sublist.refl _⟩

omit [DecidableEq P] in
theorem mem_removeParams {n : String} {c' : Param P V} (h : (removeParams params).get? n = some c') :
    ∃ c, (n, c) ∈ params ∧ c'.remove = c.remove := by
  rw [removeParams, Obj.get?_mapVals, Option.map_eq_some_iff] at h
  obtain ⟨c, hc, rfl⟩ := h
  exact ⟨c, List.mem_of_mem_filter (Obj.mem_of_get? hc), rfl⟩

theorem removeFrom_unique (own : Own params p name cur) {all : List (String × List Text)} :
    ∀ {named : List (String × List Text)} {s : Store P V} {errors : List (Error V)}, Unique L p (cur.key name) s →
    Unique L p (cur.key name) (removeFrom L C (removeParams params) obj all s errors named).store
  | [], _, errors, h => by
    unfold removeFrom
    split_ifs
    · exact h
    · exact h
  | (n, val) :: named, s, errors, h => by
    unfold removeFrom
    cases hspec : (removeParams params).get? n with
    | none => exact h
    | some c' =>
      obtain ⟨c, hc, hcc⟩ := mem_removeParams hspec
      dsimp only
      split_ifs
      · exact h
      · refine removeFrom_unique own fun l' hl' => ?_
        cases hremove : c.remove with
        | none =>
          obtain ⟨l, hl, hsub⟩ := removeEntry_list (hcc.trans hremove) hl'
          exact (h l hl).sublist hsub
        | some f =>
          simp only [removeEntry, hcc.trans hremove] at hl'
          exact h l' ((own.remove _ hc f hremove s val) ▸ hl')

/-! ### Runs -/

theorem call_unique (own : Own params p name cur) (h : Unique L p (cur.key name) s) {c : Call P V}
    (hc : Checked L p name cur s c) : Unique L p (cur.key name) (call L C params s c).store := by
  obtain ⟨obj, command⟩ := c
  cases obj with
  | none => exact h
  | some obj =>
    cases command with
    | add named => exact addFrom_unique own h hc
    | set named => exact setFrom_unique own h
    | remove named => exact removeFrom_unique own h

theorem run_unique (own : Own params p name cur) : ∀ {calls : List (Call P V)} {s : Store P V}, Unique L p (cur.key name) s →
    (∀ before c after, calls = before ++ c :: after → Checked L p name cur (run L C params s before) c) →
    Unique L p (cur.key name) (run L C params s calls)
  | [], _, h, _ => h
  | c :: calls, s, h, hc => by
    refine run_unique own (s := (call L C params s c).store) (call_unique own h (hc [] c calls rfl)) fun before c' after heq => ?_
    exact hc (c :: before) c' after (by rw [heq]; rfl)

/-- Setting a list without duplicates. -/
theorem set_iff (own : Own params p name cur) (s : Store P V) (obj : P) {l : List V} (hl : Distinct L l) :
    ((call L C params s ⟨some obj, .set [(name, some (.list l))]⟩).ok = true ∧
      (call L C params s ⟨some obj, .set [(name, some (.list l))]⟩).store.list (cur.getParamObject obj) (cur.key name) = some l) ↔
      ∀ v ∈ l, L.holds ((s obj).get? (cur.key name)) v = false := by
  have hspec : (setParams params).get? name = some { cur with required := false, allowEmpty := !cur.required } := by
    rw [setParams, Obj.get?_mapVals, own.found]
    rfl
  have hentry : setEntry L obj s { cur with required := false, allowEmpty := !cur.required } name (some (.list l)) =
      setEntry L obj s cur name (some (.list l)) := rfl
  simp only [call, setFrom, hspec, hentry]
  simp only [setEntry, own.plain.2.1, own.multiple, own.strict, Bool.not_false, Bool.and_self, if_true]
  cases hcheck : checkDuplicate L ((s obj).get? (cur.key name)) l with
  | none =>
    have hnone := (checkDuplicate_eq_none.mp hcheck).1
    refine ⟨fun _ => hnone, fun _ => ⟨rfl, ?_⟩⟩
    simp [done, Store.list_put]
  | some v =>
    simp only [fail, Bool.false_eq_true, false_and, false_iff]
    intro hnone
    rw [checkDuplicate_eq_none.mpr ⟨hnone, hl⟩] at hcheck
    cases hcheck

/-- A parameter that keeps its attribute for itself stays free of duplicates over calls whose `add` looks where it stores or
    brings new values. And a list without duplicates can be set exactly when no value of it is in the list looked at. -/
theorem distinct_and_settable (own : Own params p name cur) :
    (∀ (s : Store P V) (calls : List (Call P V)), Unique L p (cur.key name) s →
      (∀ before c after, calls = before ++ c :: after → Checked L p name cur (run L C params s before) c) →
      Unique L p (cur.key name) (run L C params s calls)) ∧
    ∀ (s : Store P V) (obj : P) (l : List V), Distinct L l →
      (((call L C params s ⟨some obj, .set [(name, some (.list l))]⟩).ok = true ∧
        (call L C params s ⟨some obj, .set [(name, some (.list l))]⟩).store.list (cur.getParamObject obj) (cur.key name) =
          some l) ↔ ∀ v ∈ l, L.holds ((s obj).get? (cur.key name)) v = false) :=
  ⟨fun _ _ h hc => run_unique own h hc, fun s obj _ hl => set_iff own s obj hl⟩

end

/-! ### The editor of a service -/

/-- Texts, in which `index` looks for parts. -/
def texts : Values Text where
  same := (· == ·)
  text := id
  inside x v := decide (v <:+: x)
  truthy x := x ≠ []
  size x := .int x.length

/-- The objects of a service: itself, and its `config`. -/
inductive Service
  | service
  | config
deriving DecidableEq

def member : Param Service Text :=
  ⟨some "members", true, false, false, false, false, none, none, none, none⟩

def forwardPort : Param Service Text :=
  ⟨some "forward_ports", true, false, false, false, false, some fun _ => .config, none, none, none⟩

def serviceParams : Obj (Param Service Text) := [("member", member), ("vxlan-forwarding-port", forwardPort)]

theorem own_forwardPort : Own serviceParams .config "vxlan-forwarding-port" forwardPort where
  found := rfl
  multiple := rfl
  strict := rfl
  plain := ⟨rfl, rfl, rfl⟩
  only := by
    intro e he obj _ hkey
    simp only [serviceParams, List.mem_cons, List.not_mem_nil, or_false] at he
    rcases he with rfl | rfl
    · simp [Param.key, member, forwardPort] at hkey
    · rfl
  add := by simp [serviceParams, member, forwardPort]
  set := by simp [serviceParams, member, forwardPort]
  remove := by simp [serviceParams, member, forwardPort]

/-- A port that is not there yet is added, another one removed, and the list replaced. -/
def portCalls : List (Call Service Text) :=
  [⟨some .service, .add [("vxlan-forwarding-port", [['a'], ['b']])]⟩, ⟨some .service, .add [("vxlan-forwarding-port", [['c']])]⟩,
    ⟨some .service, .remove [("vxlan-forwarding-port", [['1']])]⟩,
    ⟨some .service, .set [("vxlan-forwarding-port", some (.list [['b'], ['d']]))]⟩]

/-- Ports of a service that has a text of that name itself, and ones that are no part of it. -/
theorem port_distinct_and_settable :
    Unique texts .config "forward_ports" (run texts .simple serviceParams (fun _ => []) portCalls) ∧
    (call texts .simple serviceParams (fun _ => [("forward_ports", .one ['8', '0'])])
      ⟨some .service, .set [("vxlan-forwarding-port", some (.list [['8', '1']]))]⟩).store.list .config "forward_ports" =
        some [['8', '1']] := by
  obtain ⟨hdistinct, hsettable⟩ := distinct_and_settable (L := texts) (C := .simple) own_forwardPort
  refine ⟨hdistinct _ _ (fun l hl => by cases hl) fun before c after heq => ?_,
    ((hsettable (fun _ => [("forward_ports", .one ['8', '0'])]) .service [['8', '1']] (List.pairwise_singleton _ _)).mpr (by decide)).2⟩
  rcases before with - | ⟨c₁, - | ⟨c₂, - | ⟨c₃, - | ⟨c₄, before⟩⟩⟩⟩
  · cases heq
    refine fun _ => Or.inr ⟨by decide, fun val hval => ?_⟩
    obtain rfl := (Prod.mk.inj (List.mem_singleton.mp hval)).2
    decide
  · cases heq
    refine fun _ => Or.inr ⟨by decide, fun val hval => ?_⟩
    obtain rfl := (Prod.mk.inj (List.mem_singleton.mp hval)).2
    decide
  · cases heq
    trivial
  · cases heq
    trivial
  · simp [portCalls] at heq

/-- A port that is added twice is stored twice. Members cannot be replaced by one of them, nor a text by itself. -/
theorem twice_and_unsettable :
    (run texts .simple serviceParams (fun _ => []) [⟨some .service, .add [("vxlan-forwarding-port", [['a']])]⟩,
      ⟨some .service, .add [("vxlan-forwarding-port", [['a']])]⟩]).list .config "forward_ports" = some [['a'], ['a']] ∧
    (call texts .simple serviceParams
      (run texts .simple serviceParams (fun _ => []) [⟨some .service, .set [("member", some (.list [['a'], ['b']]))]⟩])
      ⟨some .service, .set [("member", some (.list [['a']]))]⟩).errors = [.duplicate ['a']] ∧
    (call texts .simple serviceParams (fun _ => [("members", .one ['l', 'a', 'n'])])
      ⟨some .service, .set [("member", some (.list [['l', 'a', 'n']]))]⟩).errors = [.duplicate ['l', 'a', 'n']] := by
  decide

end RainWrt.Cli
