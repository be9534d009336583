import Mathlib

/-! Programs that talk to their surroundings. A program is a tree: it ends with a value, or makes a call
    and goes on as the answer says. The surroundings may give any answer, so what holds of every path
    through the tree holds for every behaviour of theirs; a path that stops early is a crash. -/

namespace RainWrt

inductive Proc (Q : Type) (A : Q → Type) (α : Type) where
  | ret (a : α)
  | call (q : Q) (k : A q → Proc Q A α)

namespace Proc

variable {Q : Type} {A : Q → Type} {α β γ : Type}

/-- A call with the answer that it got. -/
abbrev Event (Q : Type) (A : Q → Type) := (q : Q) × A q

abbrev Trace (Q : Type) (A : Q → Type) := List (Event Q A)

protected def bind : Proc Q A α → (α → Proc Q A β) → Proc Q A β
  | .ret a, f => f a
  | .call q k, f => .call q fun r => (k r).bind f

instance : Monad (Proc Q A) where
  pure := .ret
  bind := Proc.bind

/-- One call. -/
def ask (q : Q) : Proc Q A (A q) := .call q .ret

/-! ### Paths -/

/-- The program ends with `a` after the calls `t`, the first one first. -/
inductive Runs : Proc Q A α → Trace Q A → α → Prop where
  | ret (a : α) : Runs (.ret a) [] a
  | call {q : Q} {k : A q → Proc Q A α} {r : A q} {t : Trace Q A} {a : α} (h : Runs (k r) t a) : Runs (.call q k) (⟨q, r⟩ :: t) a

/-- The program has made the calls `t`, and may have been cut off there. -/
inductive Steps : Proc Q A α → Trace Q A → Prop where
  | stop (p : Proc Q A α) : Steps p []
  | call {q : Q} {k : A q → Proc Q A α} {r : A q} {t : Trace Q A} (h : Steps (k r) t) : Steps (.call q k) (⟨q, r⟩ :: t)

section
variable {p : Proc Q A α} {f : α → Proc Q A β} {t : Trace Q A}

theorem Runs.steps {a : α} (h : Runs p t a) : Steps p t := by
  induction h with
  | ret a => exact .stop _
  | call _ ih => exact .call ih

/-- A program may be cut off anywhere on its way. -/
theorem Runs.steps_of_prefix {a : α} {t' : Trace Q A} (h : Runs p t a) (ht : t' <+: t) : Steps p t' := by
  induction h generalizing t' with
  | ret a =>
    rw [List.prefix_nil.mp ht]
    exact .stop _
  | call _ ih =>
    rcases List.prefix_cons_iff.mp ht with rfl | ⟨s, rfl, hs⟩
    · exact .stop _
    · exact .call (ih hs)

@[simp] theorem runs_pure {a b : α} : Runs (pure a : Proc Q A α) t b ↔ t = [] ∧ b = a := by
  constructor
  · rintro ⟨⟩
    exact ⟨rfl, rfl⟩
  · rintro ⟨rfl, rfl⟩
    exact .ret _

@[simp] theorem runs_ret {a b : α} : Runs (.ret a : Proc Q A α) t b ↔ t = [] ∧ b = a := runs_pure

@[simp] theorem runs_ask {q : Q} {r : A q} : Runs (ask q : Proc Q A (A q)) t r ↔ t = [⟨q, r⟩] := by
  constructor
  · rintro (_ | ⟨⟨⟩⟩)
    rfl
  · rintro rfl
    exact .call (.ret r)

/-- A sequence runs as its parts, one after the other. -/
theorem runs_bind {b : β} : Runs (p >>= f) t b ↔ ∃ t₁ t₂ a, t = t₁ ++ t₂ ∧ Runs p t₁ a ∧ Runs (f a) t₂ b := by
  induction p generalizing t with
  | ret a =>
    constructor
    · intro h
      exact ⟨[], t, a, rfl, .ret a, h⟩
    · rintro ⟨t₁, t₂, a', rfl, h1, h2⟩
      cases h1
      exact h2
  | call q k ih =>
    constructor
    · intro h
      rcases h with _ | h
      obtain ⟨t₁, t₂, a, rfl, h1, h2⟩ := (ih _).mp h
      exact ⟨_ :: t₁, t₂, a, rfl, .call h1, h2⟩
    · rintro ⟨t₁, t₂, a, rfl, h1, h2⟩
      rcases h1 with _ | h1
      exact .call ((ih _).mpr ⟨_, t₂, a, rfl, h1, h2⟩)

/-- A sequence is cut off in its first part or in its second. -/
theorem steps_bind : Steps (p >>= f) t ↔ Steps p t ∨ ∃ t₁ t₂ a, t = t₁ ++ t₂ ∧ Runs p t₁ a ∧ Steps (f a) t₂ := by
  induction p generalizing t with
  | ret a =>
    constructor
    · intro h
      exact .inr ⟨[], t, a, rfl, .ret a, h⟩
    · rintro (h | ⟨t₁, t₂, a', rfl, h1, h2⟩)
      · cases h
        exact .stop _
      · cases h1
        exact h2
  | call q k ih =>
    constructor
    · intro h
      rcases h with _ | h
      · exact .inl (.stop _)
      · rcases (ih _).mp h with h | ⟨t₁, t₂, a, rfl, h1, h2⟩
        · exact .inl (.call h)
        · exact .inr ⟨_ :: t₁, t₂, a, rfl, .call h1, h2⟩
    · rintro (h | ⟨t₁, t₂, a, rfl, h1, h2⟩)
      · rcases h with _ | h
        · exact .stop _
        · exact .call ((ih _).mpr (.inl h))
      · rcases h1 with _ | h1
        exact .call ((ih _).mpr (.inr ⟨_, t₂, a, rfl, h1, h2⟩))

/-! ### Fixed surroundings -/

/-- The path through surroundings that answer each question the same way every time. -/
def follow (answer : (q : Q) → A q) : Proc Q A α → Trace Q A × α
  | .ret a => ([], a)
  | .call q k => ((⟨q, answer q⟩ :: (follow answer (k (answer q))).1), (follow answer (k (answer q))).2)

@[simp] theorem follow_pure (answer : (q : Q) → A q) (a : α) : follow answer (pure a) = ([], a) := rfl

@[simp] theorem follow_ask (answer : (q : Q) → A q) (q : Q) : follow answer (ask q) = ([⟨q, answer q⟩], answer q) := rfl

@[simp] theorem follow_bind (answer : (q : Q) → A q) (p : Proc Q A α) (f : α → Proc Q A β) : follow answer (p >>= f) =
    ((follow answer p).1 ++ (follow answer (f (follow answer p).2)).1, (follow answer (f (follow answer p).2)).2) := by
  induction p with
  | ret a => rfl
  | call q k ih =>
    have h := ih (answer q)
    change (_ :: (follow answer (k (answer q) >>= f)).1, (follow answer (k (answer q) >>= f)).2) = _
    rw [h]
    rfl

theorem follow_bind_snd (answer : (q : Q) → A q) (p : Proc Q A α) (f : α → Proc Q A β) :
    (follow answer (p >>= f)).2 = (follow answer (f (follow answer p).2)).2 := by rw [follow_bind]

theorem runs_follow (answer : (q : Q) → A q) (p : Proc Q A α) : Runs p (follow answer p).1 (follow answer p).2 := by
  induction p with
  | ret a => exact .ret a
  | call q k ih => exact .call (ih _)

theorem mem_follow {answer : (q : Q) → A q} {q : Q} {a : A q} :
    (⟨q, a⟩ : Event Q A) ∈ (follow answer p).1 ↔ q ∈ (follow answer p).1.map Sigma.fst ∧ a = answer q := by
  have hsame : ∀ e ∈ (follow answer p).1, e = ⟨e.1, answer e.1⟩ := by
    induction p with
    | ret a => simp [follow]
    | call q k ih =>
      intro e he
      rcases List.mem_cons.mp he with rfl | he
      · rfl
      · exact ih _ e he
  constructor
  · intro h
    refine ⟨List.mem_map.mpr ⟨_, h, rfl⟩, ?_⟩
    have := hsame _ h
    simpa using this
  · rintro ⟨h, rfl⟩
    obtain ⟨e, he, rfl⟩ := List.mem_map.mp h
    rw [← hsame e he]
    exact he

end

/-! ### Calls of one kind -/

/-- Every call that the program may make satisfies `P`. -/
def Only (P : Q → Prop) : Proc Q A α → Prop
  | .ret _ => True
  | .call q k => P q ∧ ∀ r, Only P (k r)

section
variable {P : Q → Prop} {p : Proc Q A α} {f : α → Proc Q A β} {t : Trace Q A}

@[simp] theorem only_pure (a : α) : Only P (pure a : Proc Q A α) := trivial

@[simp] theorem only_ask {q : Q} : Only P (ask q : Proc Q A (A q)) ↔ P q := by
  constructor
  · rintro ⟨h, -⟩
    exact h
  · intro h
    exact ⟨h, fun _ => trivial⟩

theorem Only.bind (hp : Only P p) (hf : ∀ a, Only P (f a)) : Only P (p >>= f) := by
  induction p with
  | ret a => exact hf a
  | call q k ih => exact ⟨hp.1, fun r => ih r (hp.2 r)⟩

theorem Only.mono {P' : Q → Prop} (hp : Only P p) (h : ∀ q, P q → P' q) : Only P' p := by
  induction p with
  | ret a => trivial
  | call q k ih => exact ⟨h q hp.1, fun r => ih r (hp.2 r)⟩

theorem Only.steps (hp : Only P p) (h : Steps p t) : ∀ e ∈ t, P e.1 := by
  induction h with
  | stop => simp
  | call h ih =>
    intro e he
    rcases List.mem_cons.mp he with rfl | he
    · exact hp.1
    · exact ih (hp.2 _) e he

theorem Only.runs (hp : Only P p) {a : α} (h : Runs p t a) : ∀ e ∈ t, P e.1 := hp.steps h.steps

end

/-! ### Calls and results -/

/-- Every call that the program makes on a way to its end satisfies `P`, and every result satisfies `R`. -/
def Ensures (P : Q → Prop) (R : α → Prop) (p : Proc Q A α) : Prop := ∀ t a, Runs p t a → (∀ e ∈ t, P e.1) ∧ R a

section
variable {P : Q → Prop} {R R' : α → Prop} {S : β → Prop} {p : Proc Q A α} {f : α → Proc Q A β}

theorem ensures_pure {a : α} (h : R a) : Ensures P R (pure a : Proc Q A α) := by
  intro t b hr
  obtain ⟨rfl, rfl⟩ := runs_pure.mp hr
  exact ⟨by simp, h⟩

theorem Ensures.bind (hp : Ensures P R p) (hf : ∀ a, R a → Ensures P S (f a)) : Ensures P S (p >>= f) := by
  intro t b hr
  obtain ⟨t₁, t₂, a, rfl, h1, h2⟩ := runs_bind.mp hr
  obtain ⟨hP, hR⟩ := hp t₁ a h1
  obtain ⟨hP', hS⟩ := hf a hR t₂ b h2
  exact ⟨fun e he => (List.mem_append.mp he).elim (hP e) (hP' e), hS⟩

theorem Ensures.mono (hp : Ensures P R p) (h : ∀ a, R a → R' a) : Ensures P R' p :=
  fun t a hr => ⟨(hp t a hr).1, h a (hp t a hr).2⟩

theorem Only.ensures (h : Only P p) : Ensures P (fun _ => True) p := fun _ _ hr => ⟨h.runs hr, trivial⟩

end

end Proc

end RainWrt

/-! Programs that talk to their surroundings and may raise an exception. A sequence goes on only if its
    first part returns; what it raises is handed on. -/

namespace RainWrt.Proc

variable {Q : Type} {A : Q → Type} {E α β : Type}

/-- A program that returns a value or raises. -/
abbrev Raising (Q : Type) (A : Q → Type) (E : Type) := ExceptT E (Proc Q A)

namespace Raising

/-- One call. -/
def ask (q : Q) : Raising Q A E (A q) := ExceptT.lift (Proc.ask q)

/-- A value, or an exception. -/
def ofExcept (x : Except E α) : Raising Q A E α := ExceptT.mk (pure x)

/-- The outcome of a program, whether it returns or raises. -/
def outcome (x : Raising Q A E α) : Raising Q A E (Except E α) := ExceptT.mk (x.run >>= fun r => pure (.ok r))

/-! ### Paths -/

section
variable {x : Raising Q A E α} {f : α → Raising Q A E β} {t : Trace Q A}

@[simp] theorem runs_pure {a : α} {r : Except E α} : Runs (pure a : Raising Q A E α).run t r ↔ t = [] ∧ r = .ok a := Proc.runs_pure

@[simp] theorem runs_throw {e : E} {r : Except E α} : Runs (throw e : Raising Q A E α).run t r ↔ t = [] ∧ r = .error e := Proc.runs_pure

@[simp] theorem runs_ofExcept {y r : Except E α} : Runs (ofExcept y : Raising Q A E α).run t r ↔ t = [] ∧ r = y := Proc.runs_pure

theorem runs_ask {q : Q} {r : Except E (A q)} : Runs (ask q : Raising Q A E (A q)).run t r ↔ ∃ a, t = [⟨q, a⟩] ∧ r = .ok a := by
  constructor
  · intro h
    obtain ⟨t₁, t₂, a, rfl, h1, h2⟩ := Proc.runs_bind.mp h
    obtain rfl := Proc.runs_ask.mp h1
    obtain ⟨rfl, rfl⟩ := Proc.runs_pure.mp h2
    exact ⟨a, rfl, rfl⟩
  · rintro ⟨a, rfl, rfl⟩
    exact Proc.runs_bind.mpr ⟨_, _, a, (List.append_nil _).symm, Proc.runs_ask.mpr rfl, Proc.runs_pure.mpr ⟨rfl, rfl⟩⟩

/-- A sequence raises in its first part, or runs as its parts. -/
theorem runs_bind {r : Except E β} : Runs (x >>= f).run t r ↔
    (∃ e, Runs x.run t (.error e) ∧ r = .error e) ∨ ∃ t₁ t₂ a, t = t₁ ++ t₂ ∧ Runs x.run t₁ (.ok a) ∧ Runs (f a).run t₂ r := by
  constructor
  · intro h
    obtain ⟨t₁, t₂, y, rfl, h1, h2⟩ := Proc.runs_bind.mp h
    cases y with
    | error e =>
      obtain ⟨rfl, rfl⟩ := Proc.runs_pure.mp h2
      rw [List.append_nil]
      exact .inl ⟨e, h1, rfl⟩
    | ok a => exact .inr ⟨t₁, t₂, a, rfl, h1, h2⟩
  · rintro (⟨e, h1, rfl⟩ | ⟨t₁, t₂, a, rfl, h1, h2⟩)
    · exact Proc.runs_bind.mpr ⟨t, [], .error e, (List.append_nil _).symm, h1, Proc.runs_pure.mpr ⟨rfl, rfl⟩⟩
    · exact Proc.runs_bind.mpr ⟨t₁, t₂, .ok a, rfl, h1, h2⟩

/-- A sequence that returns. -/
theorem returns_bind {b : β} : Runs (x >>= f).run t (.ok b) ↔ ∃ t₁ t₂ a, t = t₁ ++ t₂ ∧ Runs x.run t₁ (.ok a) ∧ Runs (f a).run t₂ (.ok b) := by
  rw [runs_bind]
  constructor
  · rintro (⟨e, -, h⟩ | h)
    · cases h
    · exact h
  · exact .inr

/-- A sequence is cut off in its first part, or behind it if it returned. -/
theorem steps_bind : Steps (x >>= f).run t ↔ Steps x.run t ∨ ∃ t₁ t₂ a, t = t₁ ++ t₂ ∧ Runs x.run t₁ (.ok a) ∧ Steps (f a).run t₂ := by
  constructor
  · intro h
    rcases Proc.steps_bind.mp h with h | ⟨t₁, t₂, y, rfl, h1, h2⟩
    · exact .inl h
    · cases y with
      | error e =>
        cases h2
        rw [List.append_nil]
        exact .inl h1.steps
      | ok a => exact .inr ⟨t₁, t₂, a, rfl, h1, h2⟩
  · rintro (h | ⟨t₁, t₂, a, rfl, h1, h2⟩)
    · exact Proc.steps_bind.mpr (.inl h)
    · exact Proc.steps_bind.mpr (.inr ⟨t₁, t₂, .ok a, rfl, h1, h2⟩)

theorem runs_outcome {r : Except E (Except E α)} : Runs (outcome x).run t r ↔ ∃ y, Runs x.run t y ∧ r = .ok y := by
  constructor
  · intro h
    obtain ⟨t₁, t₂, y, rfl, h1, h2⟩ := Proc.runs_bind.mp h
    obtain ⟨rfl, rfl⟩ := Proc.runs_pure.mp h2
    rw [List.append_nil]
    exact ⟨y, h1, rfl⟩
  · rintro ⟨y, h, rfl⟩
    exact Proc.runs_bind.mpr ⟨t, [], y, (List.append_nil _).symm, h, Proc.runs_pure.mpr ⟨rfl, rfl⟩⟩

theorem steps_outcome : Steps (outcome x).run t ↔ Steps x.run t := by
  constructor
  · intro h
    rcases Proc.steps_bind.mp h with h | ⟨t₁, t₂, y, rfl, h1, h2⟩
    · exact h
    · cases h2
      rw [List.append_nil]
      exact h1.steps
  · intro h
    exact Proc.steps_bind.mpr (.inl h)

end

end Raising

end RainWrt.Proc
