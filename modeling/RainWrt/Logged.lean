import Mathlib

/-! Computations that keep a log of their operations. What holds of every operation of a sequence holds of those of its
    parts, so a condition on all operations is taken apart along the program. -/

namespace RainWrt

/-- A value, with the operations that led to it. -/
structure Logged (O α : Type) where
  val : α
  ops : List O

namespace Logged

variable {O α β σ : Type}

instance : Monad (Logged O) where
  pure a := ⟨a, []⟩
  bind x f := ⟨(f x.val).val, x.ops ++ (f x.val).ops⟩

/-- One operation. -/
def log (o : O) : Logged O Unit := ⟨(), [o]⟩

/-- Every operation satisfies `P`. -/
def All (P : O → Prop) (x : Logged O α) : Prop := ∀ o ∈ x.ops, P o

section
variable {P : O → Prop} {x : Logged O α} {f : α → Logged O β}

@[simp] theorem val_pure (a : α) : (pure a : Logged O α).val = a := rfl

@[simp] theorem val_bind : (x >>= f).val = (f x.val).val := rfl

@[simp] theorem all_pure (a : α) : All P (pure a : Logged O α) := fun _ h => (nomatch h)

@[simp] theorem all_log {o : O} : All P (log o) ↔ P o := List.forall_mem_singleton

@[simp] theorem all_bind : All P (x >>= f) ↔ All P x ∧ All P (f x.val) := List.forall_mem_append

@[simp] theorem all_map {g : α → β} : All P (g <$> x) ↔ All P x := by
  change All P (x >>= fun a => pure (g a)) ↔ _
  rw [all_bind]
  exact and_iff_left (all_pure _)

theorem all_ite {c : Prop} [Decidable c] {y : Logged O α} : All P (if c then x else y) ↔ (c → All P x) ∧ (¬c → All P y) := by
  split
  · rename_i h
    exact ⟨fun hx => ⟨fun _ => hx, fun hn => absurd h hn⟩, fun hx => hx.1 h⟩
  · rename_i h
    exact ⟨fun hy => ⟨fun hc => absurd hc h, fun _ => hy⟩, fun hy => hy.2 h⟩

theorem val_ite {c : Prop} [Decidable c] {y : Logged O α} : (if c then x else y).val = if c then x.val else y.val := by
  split
  · rfl
  · rfl

theorem all_forM {f : β → Logged O Unit} {l : List β} : All P (l.forM f) ↔ ∀ b ∈ l, All P (f b) := by
  induction l with
  | nil => exact iff_of_true (all_pure ()) fun _ h => (nomatch h)
  | cons b l ih =>
    change All P (f b >>= fun _ => l.forM f) ↔ _
    rw [all_bind, ih, List.forall_mem_cons]

/-- Each round of a loop satisfies `Q`, with the state that it starts from. -/
def Throughout (Q : σ → β → Prop) (f : σ → β → Logged O σ) (s : σ) : List β → Prop
  | [] => True
  | b :: l => Q s b ∧ Throughout Q f (f s b).val l

theorem all_foldlM {f : σ → β → Logged O σ} {l : List β} {s : σ} : All P (l.foldlM f s) ↔ Throughout (fun s b => All P (f s b)) f s l := by
  induction l generalizing s with
  | nil => exact iff_of_true (all_pure s) trivial
  | cons b l ih =>
    rw [List.foldlM_cons, all_bind, ih]
    rfl

theorem throughout_congr {Q Q' : σ → β → Prop} {f : σ → β → Logged O σ} {l : List β} {s : σ} (h : ∀ s, ∀ b ∈ l, Q s b ↔ Q' s b) :
    Throughout Q f s l ↔ Throughout Q' f s l := by
  induction l generalizing s with
  | nil => exact Iff.rfl
  | cons b l ih =>
    exact and_congr (h s b List.mem_cons_self) (ih fun s x hx => h s x (List.mem_cons_of_mem b hx))

end

end Logged

end RainWrt
