import RainWrt.Proc

/-! Programs in surroundings that have a state, such as the time. A history is a trace with the state after
    each call, and a relation says which states may follow which call. -/

namespace RainWrt.Proc

variable {Q : Type} {A : Q → Type} {σ E α β : Type}

/-- The calls, each with the state that it leaves. -/
abbrev History (Q : Type) (A : Q → Type) (σ : Type) := List (Event Q A × σ)

namespace History

/-- The state at the end. -/
def last (s : σ) : History Q A σ → σ
  | [] => s
  | e :: T => last e.2 T

/-- The calls change the state as the surroundings allow. -/
def Follows (R : σ → Event Q A → σ → Prop) (s : σ) : History Q A σ → Prop
  | [] => True
  | e :: T => R s e.1 e.2 ∧ Follows R e.2 T

section
variable {R : σ → Event Q A → σ → Prop} {s : σ} {T T' : History Q A σ}

@[simp] theorem last_nil : last s ([] : History Q A σ) = s := rfl

@[simp] theorem last_cons {e : Event Q A × σ} : last s (e :: T) = last e.2 T := rfl

@[simp] theorem last_append : last s (T ++ T') = last (last s T) T' := by
  induction T generalizing s with
  | nil => rfl
  | cons e T ih => exact ih

@[simp] theorem follows_nil : Follows R s ([] : History Q A σ) := trivial

@[simp] theorem follows_cons {e : Event Q A × σ} : Follows R s (e :: T) ↔ R s e.1 e.2 ∧ Follows R e.2 T := Iff.rfl

@[simp] theorem follows_append : Follows R s (T ++ T') ↔ Follows R s T ∧ Follows R (last s T) T' := by
  induction T generalizing s with
  | nil => simp
  | cons e T ih => simp [ih, and_assoc]

/-- What no call makes smaller is not smaller at the end. -/
theorem Follows.le [Preorder σ] (hR : ∀ s e s', R s e s' → s ≤ s') (h : Follows R s T) : s ≤ last s T := by
  induction T generalizing s with
  | nil => exact le_refl s
  | cons e T ih => exact le_trans (hR _ _ _ h.1) (ih h.2)

end

end History

open History

/-- The program runs in these surroundings, and ends with `r`. -/
structure Within (R : σ → Event Q A → σ → Prop) (s : σ) (x : Raising Q A E α) (T : History Q A σ) (r : Except E α) : Prop where
  runs : Runs x.run (T.map Prod.fst) r
  follows : Follows R s T

section
variable {R : σ → Event Q A → σ → Prop} {s : σ} {T : History Q A σ} {x : Raising Q A E α} {f : α → Raising Q A E β}

theorem bind_assoc {γ : Type} {p : Proc Q A α} {k : α → Proc Q A β} {l : β → Proc Q A γ} : (p >>= k) >>= l = p >>= fun a => k a >>= l := by
  induction p with
  | ret a => rfl
  | call q k' ih => exact congrArg (Proc.call q) (funext ih)

theorem Raising.assoc {γ : Type} {g : β → Raising Q A E γ} : (x >>= f) >>= g = x >>= fun a => f a >>= g := by
  refine (bind_assoc (p := x.run)).trans (bind_congr fun r => ?_)
  cases r with
  | error e => rfl
  | ok a => rfl

theorem within_ofExcept {y r : Except E α} : Within R s (Raising.ofExcept y : Raising Q A E α) T r ↔ T = [] ∧ r = y := by
  constructor
  · rintro ⟨h, -⟩
    obtain ⟨hT, rfl⟩ := Raising.runs_ofExcept.mp h
    exact ⟨List.map_eq_nil_iff.mp hT, rfl⟩
  · rintro ⟨rfl, rfl⟩
    exact ⟨Raising.runs_ofExcept.mpr ⟨rfl, rfl⟩, trivial⟩

theorem within_pure {a : α} {r : Except E α} : Within R s (pure a : Raising Q A E α) T r ↔ T = [] ∧ r = .ok a := within_ofExcept

theorem map_fst_eq_singleton {e : Event Q A} : T.map Prod.fst = [e] ↔ ∃ s', T = [(e, s')] := by
  constructor
  · intro h
    obtain ⟨⟨e', s'⟩, hT, rfl⟩ := List.map_eq_singleton_iff.mp h
    exact ⟨s', hT⟩
  · rintro ⟨s', rfl⟩
    rfl

/-- A call whose answer is the result. -/
theorem within_ask {q : Q} {r : Except E (A q)} : Within R s (Raising.ask q : Raising Q A E (A q)) T r ↔
    ∃ a s', T = [(⟨q, a⟩, s')] ∧ r = .ok a ∧ R s ⟨q, a⟩ s' := by
  constructor
  · rintro ⟨h, hf⟩
    obtain ⟨a, hT, rfl⟩ := Raising.runs_ask.mp h
    obtain ⟨s', rfl⟩ := map_fst_eq_singleton.mp hT
    exact ⟨a, s', rfl, rfl, hf.1⟩
  · rintro ⟨a, s', rfl, rfl, hR⟩
    exact ⟨Raising.runs_ask.mpr ⟨a, rfl, rfl⟩, hR, trivial⟩

/-- A sequence raises in its first part, or runs as its parts. -/
theorem within_bind {r : Except E β} : Within R s (x >>= f) T r ↔
    (∃ e, Within R s x T (.error e) ∧ r = .error e) ∨ ∃ T₁ T₂ a, T = T₁ ++ T₂ ∧ Within R s x T₁ (.ok a) ∧ Within R (last s T₁) (f a) T₂ r := by
  constructor
  · rintro ⟨h, hf⟩
    rcases Raising.runs_bind.mp h with ⟨e, h1, rfl⟩ | ⟨t₁, t₂, a, hT, h1, h2⟩
    · exact .inl ⟨e, ⟨h1, hf⟩, rfl⟩
    · obtain ⟨T₁, T₂, rfl, rfl, rfl⟩ := List.map_eq_append_iff.mp hT
      obtain ⟨hf1, hf2⟩ := follows_append.mp hf
      exact .inr ⟨T₁, T₂, a, rfl, ⟨h1, hf1⟩, h2, hf2⟩
  · rintro (⟨e, ⟨h1, hf⟩, rfl⟩ | ⟨T₁, T₂, a, rfl, ⟨h1, hf1⟩, h2, hf2⟩)
    · exact ⟨Raising.runs_bind.mpr (.inl ⟨e, h1, rfl⟩), hf⟩
    · exact ⟨Raising.runs_bind.mpr (.inr ⟨_, _, a, List.map_append, h1, h2⟩), follows_append.mpr ⟨hf1, hf2⟩⟩

/-- A sequence that returns. -/
theorem within_returns {b : β} : Within R s (x >>= f) T (.ok b) ↔
    ∃ T₁ T₂ a, T = T₁ ++ T₂ ∧ Within R s x T₁ (.ok a) ∧ Within R (last s T₁) (f a) T₂ (.ok b) := by
  rw [within_bind]
  constructor
  · rintro (⟨e, -, h⟩ | h)
    · cases h
    · exact h
  · exact .inr

end

/-! ### Surroundings that behave as a machine -/

/-- The path through surroundings whose answers depend on their state. -/
def play (answer : σ → (q : Q) → A q × σ) (s : σ) : Proc Q A α → History Q A σ × α
  | .ret a => ([], a)
  | .call q k => ((⟨q, (answer s q).1⟩, (answer s q).2) :: (play answer (answer s q).2 (k (answer s q).1)).1,
      (play answer (answer s q).2 (k (answer s q).1)).2)

theorem within_play {R : σ → Event Q A → σ → Prop} {answer : σ → (q : Q) → A q × σ} (hR : ∀ s q, R s ⟨q, (answer s q).1⟩ (answer s q).2)
    (s : σ) (x : Raising Q A E α) : Within R s x (play answer s x.run).1 (play answer s x.run).2 := by
  have h : ∀ p : Proc Q A (Except E α), ∀ s, Runs p ((play answer s p).1.map Prod.fst) (play answer s p).2 ∧ Follows R s (play answer s p).1 := by
    intro p
    induction p with
    | ret a => exact fun s => ⟨.ret a, trivial⟩
    | call q k ih =>
      intro s
      obtain ⟨h1, h2⟩ := ih (answer s q).1 (answer s q).2
      exact ⟨.call h1, hR s q, h2⟩
  exact ⟨(h x.run s).1, (h x.run s).2⟩

/-- What such surroundings answer is a run. -/
theorem runs_play (answer : σ → (q : Q) → A q × σ) (s : σ) (x : Raising Q A E α) :
    Runs x.run ((play answer s x.run).1.map Prod.fst) (play answer s x.run).2 := by
  have hwithin : Within (fun _ _ _ => True) s x (play answer s x.run).1 (play answer s x.run).2 := within_play (fun _ _ => trivial) s x
  exact hwithin.1

end RainWrt.Proc
