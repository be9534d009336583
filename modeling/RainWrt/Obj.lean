import Mathlib

/-! Objects of a script: values under names, in the order in which they were set. And loops over a list that change a state
    and collect what they send. -/

namespace RainWrt

abbrev Obj (α : Type) := List (String × α)

namespace Obj
variable {α β : Type} {o : Obj α} {k k' : String} {v : α}

def get? (o : Obj α) (k : String) : Option α := (o.find? (·.1 = k)).map (·.2)

def set (o : Obj α) (k : String) (v : α) : Obj α :=
  if o.any (·.1 = k) then o.map fun e => if e.1 = k then (k, v) else e else o ++ [(k, v)]

def del (o : Obj α) (k : String) : Obj α := o.filter (·.1 ≠ k)

def keys (o : Obj α) : List String := o.map (·.1)

/-- All values are changed. -/
def mapVals (o : Obj α) (f : α → β) : Obj β := o.map fun e => (e.1, f e.2)

@[simp] theorem get?_nil (k : String) : get? ([] : Obj α) k = none := rfl

theorem get?_cons (e : String × α) (o : Obj α) (k : String) : get? (e :: o) k = if e.1 = k then some e.2 else get? o k := by
  unfold get?
  split_ifs with h <;> simp [h]

theorem get?_set_self : (o.set k v).get? k = some v := by
  unfold set
  split_ifs with h
  · induction o with
    | nil => simp at h
    | cons e o ih =>
      rw [List.map_cons, get?_cons]
      by_cases he : e.1 = k
      · simp [he]
      · rw [if_neg he, if_neg he]
        exact ih (by simpa [he] using h)
  · induction o with
    | nil => simp [get?]
    | cons e o ih =>
      simp only [List.any_cons, Bool.or_eq_true, not_or] at h
      rw [List.cons_append, get?_cons, if_neg (by simpa using h.1)]
      exact ih h.2

theorem get?_set_ne (hk : k' ≠ k) : (o.set k v).get? k' = o.get? k' := by
  unfold set
  split_ifs with h
  · clear h
    induction o with
    | nil => rfl
    | cons e o ih =>
      rw [List.map_cons, get?_cons, get?_cons, ih]
      by_cases he : e.1 = k
      · rw [if_pos he, if_neg (Ne.symm hk), if_neg (fun h => hk (h.symm.trans he))]
      · rw [if_neg he]
  · clear h
    induction o with
    | nil =>
      rw [List.nil_append, get?_cons, if_neg (Ne.symm hk)]
    | cons e o ih => rw [List.cons_append, get?_cons, get?_cons, ih]

theorem get?_set : (o.set k v).get? k' = if k' = k then some v else o.get? k' := by
  split_ifs with h
  · rw [h, get?_set_self]
  · exact get?_set_ne h

theorem get?_del : (o.del k).get? k' = if k' = k then none else o.get? k' := by
  unfold del
  induction o with
  | nil => simp
  | cons e o ih =>
    rw [List.filter_cons]
    by_cases he : e.1 = k
    · rw [if_neg (by simp [he]), ih, get?_cons]
      by_cases hk : k' = k
      · rw [if_pos hk, if_pos hk]
      · rw [if_neg hk, if_neg hk, if_neg (fun h => hk (h.symm.trans he))]
    · rw [if_pos (by simp [he]), get?_cons, ih, get?_cons]
      by_cases hk : k' = k
      · rw [if_pos hk, if_neg (fun h => he (h.trans hk)), if_pos hk]
      · rw [if_neg hk, if_neg hk]

@[simp] theorem get?_mapVals (f : α → β) : (o.mapVals f).get? k = (o.get? k).map f := by
  unfold mapVals
  induction o with
  | nil => rfl
  | cons e o ih =>
    rw [List.map_cons, get?_cons, get?_cons, ih]
    split_ifs <;> rfl

theorem mem_keys : k ∈ o.keys ↔ (o.get? k).isSome := by
  induction o with
  | nil => simp [keys]
  | cons e o ih =>
    rw [get?_cons]
    unfold keys at ih ⊢
    rw [List.map_cons, List.mem_cons, ih]
    by_cases he : e.1 = k
    · simp [he]
    · simp [he, Ne.symm he]

theorem mem_of_get? (h : o.get? k = some v) : (k, v) ∈ o := by
  induction o with
  | nil => cases h
  | cons e o ih =>
    rw [get?_cons] at h
    split_ifs at h with he
    · cases h
      rw [← he]
      exact List.mem_cons_self
    · exact List.mem_cons_of_mem _ (ih h)

theorem mem_set {e : String × α} (h : e ∈ o.set k v) : e ∈ o ∨ e = (k, v) := by
  unfold set at h
  split_ifs at h
  · obtain ⟨e', he', rfl⟩ := List.mem_map.mp h
    split_ifs
    · exact Or.inr rfl
    · exact Or.inl he'
  · rcases List.mem_append.mp h with h | h
    · exact Or.inl h
    · exact Or.inr (List.mem_singleton.mp h)

theorem keys_set : (o.set k v).keys = if o.any (·.1 = k) then o.keys else o.keys ++ [k] := by
  unfold set keys
  split_ifs with h
  · rw [List.map_map]
    apply List.map_congr_left
    intro e _
    by_cases he : e.1 = k
    · simp [he]
    · simp [he]
  · rw [List.map_append]
    rfl

theorem nodup_set (h : o.keys.Nodup) (k : String) (v : α) : (o.set k v).keys.Nodup := by
  rw [keys_set]
  split_ifs with hk
  · exact h
  · refine List.nodup_append.mpr ⟨h, List.pairwise_singleton _ k, ?_⟩
    rintro x hx y hy rfl
    obtain ⟨e, he, heq⟩ := List.mem_map.mp hx
    rw [List.mem_singleton] at hy
    exact hk (List.any_eq_true.mpr ⟨e, he, decide_eq_true (heq.trans hy)⟩)

theorem nodup_del (h : o.keys.Nodup) (k : String) : (o.del k).keys.Nodup :=
  h.sublist (List.filter_sublist.map _)

theorem get?_of_mem (h : o.keys.Nodup) (hmem : (k, v) ∈ o) : o.get? k = some v := by
  induction o with
  | nil => cases hmem
  | cons e o ih =>
    obtain ⟨hnot, hnodup⟩ := List.nodup_cons.mp h
    rw [get?_cons]
    rcases List.mem_cons.mp hmem with rfl | hmem
    · rw [if_pos rfl]
    · rw [if_neg, ih hnodup hmem]
      rintro rfl
      exact hnot (List.mem_map.mpr ⟨_, hmem, rfl⟩)

end Obj

/-! ### Loops -/

/-- A loop over a list, with what each round sends. -/
def collect {σ α ε : Type} (f : σ → α → σ × List ε) : σ → List α → σ × List ε
  | s, [] => (s, [])
  | s, a :: l =>
    let (s₁, out₁) := f s a
    let (s₂, out₂) := collect f s₁ l
    (s₂, out₁ ++ out₂)

section
variable {σ α ε : Type} {f : σ → α → σ × List ε}

theorem collect_cons (f : σ → α → σ × List ε) (s : σ) (a : α) (l : List α) :
    collect f s (a :: l) = ((collect f (f s a).1 l).1, (f s a).2 ++ (collect f (f s a).1 l).2) := rfl

/-- What each round keeps and sends holds for the loop. -/
theorem collect_induct {P : σ → Prop} {Q : ε → Prop} {l : List α} {s : σ} (h : P s)
    (hstep : ∀ s, ∀ a ∈ l, P s → P (f s a).1 ∧ ∀ e ∈ (f s a).2, Q e) :
    P (collect f s l).1 ∧ ∀ e ∈ (collect f s l).2, Q e := by
  induction l generalizing s with
  | nil => exact ⟨h, fun e he => nomatch he⟩
  | cons a l ih =>
    obtain ⟨h₁, hout₁⟩ := hstep s a List.mem_cons_self h
    obtain ⟨h₂, hout₂⟩ := ih h₁ fun s b hb => hstep s b (List.mem_cons_of_mem _ hb)
    rw [collect_cons]
    refine ⟨h₂, fun e he => ?_⟩
    rcases List.mem_append.mp he with he | he
    · exact hout₁ e he
    · exact hout₂ e he

end

end RainWrt
