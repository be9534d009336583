import Mathlib

/-! Singly linked lists in one heap, each with a head of its own: walking along a list with a pointer to the pointer that was
    followed, taking a cell out of one list and putting it in front of another. Nothing here knows a program. -/

namespace RainWrt

structure Cell (α : Type) where
  val : α
  next : Option Nat
  deriving DecidableEq

/-- A pointer is the number of a cell. -/
structure Heap (ι α : Type) where
  cells : List (Cell α)
  head : ι → Option Nat

/-- A place that holds a pointer. -/
inductive Slot (ι : Type)
  | head (i : ι)
  | next (t : Nat)
  deriving DecidableEq

namespace Heap

variable {ι α : Type}

/-! ### Reading -/

def load (h : Heap ι α) : Slot ι → Option Nat
  | .head i => h.head i
  | .next t => (h.cells[t]?).bind Cell.next

/-- The place of the pointer to the first cell that `p` holds of, and this cell, if there is one. -/
def find (h : Heap ι α) (p : α → Bool) : (fuel : Nat) → Slot ι → Option (Slot ι × Option Nat)
  | 0, _ => none
  | fuel + 1, prev =>
    match h.load prev with
    | none => some (prev, none)
    | some t =>
      match h.cells[t]? with
      | none => none
      | some c => if p c.val then some (prev, some t) else find h p fuel (.next t)

/-- The values of a list. -/
def walk (h : Heap ι α) : (fuel : Nat) → Option Nat → Option (List α)
  | 0, _ => none
  | _ + 1, none => some []
  | fuel + 1, some t => do
    let c ← h.cells[t]?
    let vals ← walk h fuel c.next
    return c.val :: vals

/-- The cells from a pointer on, with their addresses. -/
def Links (h : Heap ι α) : Option Nat → List (Nat × α) → Prop
  | ptr, [] => ptr = none
  | ptr, (t, a) :: l => ptr = some t ∧ ∃ next, h.cells[t]? = some ⟨a, next⟩ ∧ Links h next l

/-- The place of the pointer behind the cells `a`. -/
def slotAt (prev : Slot ι) : List (Nat × α) → Slot ι
  | [] => prev
  | (t, _) :: a => slotAt (.next t) a

section
variable {h h' : Heap ι α} {ptr : Option Nat} {a b l : List (Nat × α)} {prev : Slot ι} {t : Nat} {x : α}

theorem Links.congr (hl : Links h ptr l) (heq : ∀ t ∈ l.map Prod.fst, h'.cells[t]? = h.cells[t]?) : Links h' ptr l := by
  induction l generalizing ptr with
  | nil => exact hl
  | cons c l ih =>
    obtain ⟨rfl, next, hc, hl⟩ := hl
    rw [List.map_cons, List.forall_mem_cons] at heq
    exact ⟨rfl, next, by rw [heq.1, hc], ih hl heq.2⟩

theorem Links.valid (hl : Links h ptr l) : ∀ t ∈ l.map Prod.fst, t < h.cells.length := by
  induction l generalizing ptr with
  | nil => simp
  | cons c l ih =>
    obtain ⟨rfl, next, hc, hl⟩ := hl
    rw [List.map_cons, List.forall_mem_cons]
    exact ⟨(List.getElem?_eq_some_iff.mp hc).1, ih hl⟩

theorem Links.length_le (hl : Links h ptr l) (hnodup : (l.map Prod.fst).Nodup) : l.length ≤ h.cells.length := by
  have hsub : l.map Prod.fst ⊆ List.range h.cells.length := fun t ht => List.mem_range.mpr (hl.valid t ht)
  simpa using (hnodup.subperm hsub).length_le

theorem load_next {c : Cell α} (hc : h.cells[t]? = some c) : h.load (.next t) = c.next := by
  rw [load, hc]
  rfl

/-- The cells behind `a` start where the last pointer of `a` points to. -/
theorem Links.drop (hl : Links h (h.load prev) (a ++ b)) : Links h (h.load (slotAt prev a)) b := by
  induction a generalizing prev with
  | nil => exact hl
  | cons c a ih =>
    obtain ⟨-, next, hc, hl⟩ := hl
    exact ih (by rwa [load_next hc])

/-- Searching stops at the first cell that `p` holds of. -/
theorem Links.find {p : α → Bool} {fuel : Nat} (hl : Links h (h.load prev) l) (hfuel : l.length < fuel) :
    h.find p fuel prev = some (slotAt prev (l.takeWhile fun c => !p c.2), (l.dropWhile fun c => !p c.2).head?.map Prod.fst) := by
  induction fuel generalizing prev l with
  | zero => omega
  | succ fuel ih =>
    cases l with
    | nil =>
      have hnone : h.load prev = none := hl
      simp [Heap.find, hnone, slotAt]
    | cons c l =>
      obtain ⟨hprev, next, hc, hl⟩ := hl
      rw [Heap.find, hprev]
      simp only [hc]
      cases hp : p c.2 with
      | true => simp [hp, slotAt]
      | false =>
        have hnext : h.load (.next c.1) = next := load_next hc
        rw [← hnext] at hl
        rw [ih hl (by simpa using hfuel)]
        simp [hp, slotAt]

theorem Links.walk {fuel : Nat} (hl : Links h ptr l) (hfuel : l.length < fuel) : h.walk fuel ptr = some (l.map Prod.snd) := by
  induction fuel generalizing ptr l with
  | zero => omega
  | succ fuel ih =>
    cases l with
    | nil =>
      have hnone : ptr = none := hl
      rw [hnone]
      rfl
    | cons c l =>
      obtain ⟨rfl, next, hc, hl⟩ := hl
      simp [Heap.walk, hc, ih hl (by simpa using hfuel)]

end

/-- No cell is in a list twice, or in two of them. -/
structure Distinct (l : ι → List (Nat × α)) : Prop where
  nodup : ∀ i, ((l i).map Prod.fst).Nodup
  disjoint : ∀ i j, i ≠ j → List.Disjoint ((l i).map Prod.fst) ((l j).map Prod.fst)

/-- What the lists of a heap hold. -/
structure Lists (h : Heap ι α) (l : ι → List (Nat × α)) : Prop where
  links : ∀ i, Links h (h.head i) (l i)
  distinct : Distinct l

section
variable {h : Heap ι α} {l : ι → List (Nat × α)}

theorem Lists.length_le (hl : Lists h l) (i : ι) : (l i).length ≤ h.cells.length := (hl.links i).length_le (hl.distinct.nodup i)

/-- Searching a list ends at its end, or at the first cell that `p` holds of. -/
theorem Lists.find_cases (hl : Lists h l) (p : α → Bool) (i : ι) :
    (∃ prev, h.find p (h.cells.length + 1) (.head i) = some (prev, none) ∧ ∀ c ∈ l i, p c.2 = false) ∨
      ∃ a t x b, l i = a ++ (t, x) :: b ∧ (∀ c ∈ a, p c.2 = false) ∧ p x = true ∧
        h.find p (h.cells.length + 1) (.head i) = some (slotAt (.head i) a, some t) := by
  have hfind := Links.find (p := p) (show Links h (h.load (.head i)) (l i) from hl.links i) (Nat.lt_succ_of_le (hl.length_le i))
  have hsplit := List.takeWhile_append_dropWhile (p := fun c : Nat × α => !p c.2) (l := l i)
  have hall : ∀ c ∈ (l i).takeWhile fun c => !p c.2, p c.2 = false := fun c hc => by
    simpa using List.all_eq_true.mp List.all_takeWhile c hc
  rw [hfind]
  cases hrest : (l i).dropWhile fun c => !p c.2 with
  | nil =>
    rw [hrest, List.append_nil] at hsplit
    exact .inl ⟨_, rfl, hsplit ▸ hall⟩
  | cons c b =>
    have hstop := List.head?_dropWhile_not (fun c : Nat × α => !p c.2) (l i)
    rw [hrest] at hsplit hstop
    exact .inr ⟨_, c.1, c.2, b, hsplit.symm, hall, by simpa using hstop, rfl⟩

theorem Lists.cell (hl : Lists h l) {i : ι} {a b : List (Nat × α)} {t : Nat} {x : α} (hi : l i = a ++ (t, x) :: b) :
    ∃ next, h.cells[t]? = some ⟨x, next⟩ := by
  obtain ⟨-, next, hc, -⟩ := Links.drop (show Links h (h.load (.head i)) (a ++ (t, x) :: b) from hi ▸ hl.links i)
  exact ⟨next, hc⟩

theorem Lists.walk (hl : Lists h l) (i : ι) : h.walk (h.cells.length + 1) (h.head i) = some ((l i).map Prod.snd) :=
  (hl.links i).walk (Nat.lt_succ_of_le (hl.length_le i))

end

/-! ### Writing -/

/-- A new cell, which is in no list. -/
def alloc (h : Heap ι α) (a : α) : Heap ι α := { h with cells := h.cells ++ [⟨a, none⟩] }

def setVal (h : Heap ι α) (t : Nat) (f : α → α) : Heap ι α := { h with cells := h.cells.modify t fun c => { c with val := f c.val } }

variable [DecidableEq ι]

def store (h : Heap ι α) (slot : Slot ι) (ptr : Option Nat) : Heap ι α :=
  match slot with
  | .head i => { h with head := Function.update h.head i ptr }
  | .next t => { h with cells := h.cells.modify t fun c => { c with next := ptr } }

/-- The cell that `prev` points to is taken out. -/
def unlink (h : Heap ι α) (prev : Slot ι) (t : Nat) : Heap ι α := h.store prev (h.load (.next t))

/-- A cell is put in front of list `j`. -/
def front (h : Heap ι α) (t : Nat) (j : ι) : Heap ι α := (h.store (.next t) (h.head j)).store (.head j) (some t)

section
variable {h : Heap ι α} {ptr next : Option Nat} {a b : List (Nat × α)} {l : ι → List (Nat × α)} {prev slot : Slot ι} {t : Nat} {x : α} {f : α → α} {i j : ι}

theorem cells_store_of_ne (ht : slot ≠ .next t) : (h.store slot ptr).cells[t]? = h.cells[t]? := by
  cases slot with
  | head i => rfl
  | next q =>
    have hne : q ≠ t := fun heq => ht (heq ▸ rfl)
    simp [store, hne]

theorem load_store_of_ne (hne : slot ≠ prev) : (h.store slot ptr).load prev = h.load prev := by
  cases prev with
  | head i =>
    cases slot with
    | head j => exact Function.update_of_ne (fun heq => hne (congrArg Slot.head heq.symm)) _ _
    | next q => rfl
  | next t => rw [load, load, cells_store_of_ne hne]

theorem load_store (hvalid : ∀ t, slot = .next t → t < h.cells.length) : (h.store slot ptr).load slot = ptr := by
  cases slot with
  | head i => exact Function.update_self _ _ _
  | next t => simp [store, load, hvalid t rfl]

theorem val_store {c : Cell α} (hc : h.cells[t]? = some c) : ∃ next, (h.store slot ptr).cells[t]? = some ⟨c.val, next⟩ := by
  by_cases ht : slot = .next t
  · rw [ht]
    exact ⟨ptr, by simp [store, hc]⟩
  · exact ⟨c.next, by rw [cells_store_of_ne ht, hc]⟩

omit [DecidableEq ι] in
theorem slotAt_next (q : Nat) (a : List (Nat × α)) : ∃ q' ∈ q :: a.map Prod.fst, slotAt (.next q : Slot ι) a = .next q' := by
  induction a generalizing q with
  | nil => exact ⟨q, List.mem_cons_self, rfl⟩
  | cons c a ih =>
    obtain ⟨q', hq, heq⟩ := ih c.1
    exact ⟨q', List.mem_cons_of_mem _ hq, heq⟩

omit [DecidableEq ι] in
theorem slotAt_head (i : ι) (a : List (Nat × α)) : slotAt (.head i) a = .head i ∨ ∃ q ∈ a.map Prod.fst, slotAt (.head i) a = .next q := by
  cases a with
  | nil => exact .inl rfl
  | cons c a => exact .inr (slotAt_next c.1 a)

/-- Taking a cell out of a list. -/
theorem Links.unlink (hl : Links h (h.load prev) (a ++ (t, x) :: b)) (hnodup : ((a ++ (t, x) :: b).map Prod.fst).Nodup)
    (hprev : ∀ q, prev = .next q → q < h.cells.length ∧ q ∉ (a ++ (t, x) :: b).map Prod.fst) :
    Links (h.unlink (slotAt prev a) t) ((h.unlink (slotAt prev a) t).load prev) (a ++ b) := by
  induction a generalizing prev with
  | nil =>
    obtain ⟨-, next, hc, hl⟩ := hl
    rw [slotAt, Heap.unlink, load_store fun q hq => (hprev q hq).1, load_next hc]
    refine hl.congr fun q hq => cells_store_of_ne fun heq => (hprev q heq).2 ?_
    exact List.mem_cons_of_mem _ hq
  | cons c a ih =>
    obtain ⟨hload, next, hc, hl⟩ := hl
    obtain ⟨hnot, hnodup⟩ := List.nodup_cons.mp hnodup
    have hrest := @ih (.next c.1) (by rwa [load_next hc]) hnodup fun q hq => by
      obtain rfl := Slot.next.inj hq
      exact ⟨(List.getElem?_eq_some_iff.mp hc).1, hnot⟩
    obtain ⟨q', hq', hslot⟩ := @slotAt_next ι α c.1 a
    have hne : slotAt (.next c.1) a ≠ prev := fun heq => by
      refine (hprev q' (heq.symm.trans hslot)).2 ?_
      rw [List.cons_append, List.map_cons, List.map_append]
      rcases List.mem_cons.mp hq' with rfl | hq'
      · exact List.mem_cons_self
      · exact List.mem_cons_of_mem _ (List.mem_append_left _ hq')
    obtain ⟨next', hc'⟩ : ∃ next', (h.unlink (slotAt (.next c.1) a) t).cells[c.1]? = some ⟨c.2, next'⟩ := val_store hc
    rw [load_next hc'] at hrest
    exact ⟨(load_store_of_ne hne).trans hload, next', hc', hrest⟩

/-! ### The operations on all lists -/

theorem Distinct.update {m : List (Nat × α)} (hd : Distinct l) (hm : (m.map Prod.fst).Nodup)
    (hapart : ∀ j ≠ i, List.Disjoint (m.map Prod.fst) ((l j).map Prod.fst)) : Distinct (Function.update l i m) := by
  constructor
  · intro j
    by_cases hj : j = i
    · rw [hj, Function.update_self]
      exact hm
    · rw [Function.update_of_ne hj]
      exact hd.nodup j
  · intro j k hjk
    by_cases hj : j = i
    · have hk : k ≠ i := fun hk => hjk (hj.trans hk.symm)
      rw [hj, Function.update_self, Function.update_of_ne hk]
      exact hapart k hk
    · rw [Function.update_of_ne hj]
      by_cases hk : k = i
      · rw [hk, Function.update_self]
        exact fun t ht ht' => hapart j hj ht' ht
      · rw [Function.update_of_ne hk]
        exact hd.disjoint j k hjk

omit [DecidableEq ι] in
theorem Lists.alloc (hl : Lists h l) (a : α) : Lists (h.alloc a) l ∧ (h.alloc a).cells[h.cells.length]? = some ⟨a, none⟩ ∧
    ∀ i, h.cells.length ∉ (l i).map Prod.fst := by
  refine ⟨⟨fun i => (hl.links i).congr fun t ht => ?_, hl.distinct⟩, by simp [Heap.alloc], fun i hi => ?_⟩
  · exact List.getElem?_append_left ((hl.links i).valid t ht)
  · exact Nat.lt_irrefl _ ((hl.links i).valid _ hi)

omit [DecidableEq ι] in
theorem cells_setVal_of_ne {q : Nat} (hq : q ≠ t) : (h.setVal t f).cells[q]? = h.cells[q]? := by
  simp [Heap.setVal, hq.symm]

omit [DecidableEq ι] in
theorem Links.setVal (hl : Links h ptr (a ++ (t, x) :: b)) (hnodup : ((a ++ (t, x) :: b).map Prod.fst).Nodup) :
    Links (h.setVal t f) ptr (a ++ (t, f x) :: b) := by
  induction a generalizing ptr with
  | nil =>
    obtain ⟨rfl, next, hc, hl⟩ := hl
    refine ⟨rfl, next, by simp [Heap.setVal, hc], hl.congr fun q hq => cells_setVal_of_ne fun heq => ?_⟩
    exact (List.nodup_cons.mp hnodup).1 (heq ▸ hq)
  | cons c a ih =>
    obtain ⟨rfl, next, hc, hl⟩ := hl
    obtain ⟨hnot, hnodup⟩ := List.nodup_cons.mp hnodup
    have hne : c.1 ≠ t := fun heq => hnot (by rw [heq]; simp)
    exact ⟨rfl, next, by rw [cells_setVal_of_ne hne, hc], ih hl hnodup⟩

/-- A cell is given another value. -/
theorem Lists.setVal (hl : Lists h l) (hi : l i = a ++ (t, x) :: b) : Lists (h.setVal t f) (Function.update l i (a ++ (t, f x) :: b)) := by
  have haddr : (a ++ (t, f x) :: b).map Prod.fst = (l i).map Prod.fst := by simp [hi]
  constructor
  · intro j
    by_cases hj : j = i
    · subst hj
      rw [Function.update_self]
      exact Links.setVal (hi ▸ hl.links j) (hi ▸ hl.distinct.nodup j)
    · rw [Function.update_of_ne hj]
      refine (hl.links j).congr fun q hq => cells_setVal_of_ne fun heq => ?_
      exact hl.distinct.disjoint j i hj hq (by rw [hi, heq]; simp)
  · exact hl.distinct.update (haddr ▸ hl.distinct.nodup i) fun j hj => haddr ▸ hl.distinct.disjoint i j hj.symm

/-- Taking a cell out of a list leaves the others, and the cell itself, which is then in none. -/
theorem Lists.unlink (hl : Lists h l) (hi : l i = a ++ (t, x) :: b) :
    Lists (h.unlink (slotAt (.head i) a) t) (Function.update l i (a ++ b)) ∧
      (∃ next, (h.unlink (slotAt (.head i) a) t).cells[t]? = some ⟨x, next⟩) ∧
      ∀ k, t ∉ (Function.update l i (a ++ b) k).map Prod.fst := by
  have hlinks : Links h (h.load (.head i)) (a ++ (t, x) :: b) := hi ▸ hl.links i
  have hnodup : ((a ++ (t, x) :: b).map Prod.fst).Nodup := hi ▸ hl.distinct.nodup i
  have hsub : List.Sublist ((a ++ b).map Prod.fst) ((l i).map Prod.fst) := by
    rw [hi]
    exact ((List.Sublist.refl a).append (List.sublist_cons_self _ _)).map _
  refine ⟨⟨fun k => ?_, ?_⟩, ?_, fun k => ?_⟩
  · by_cases hk : k = i
    · rw [hk, Function.update_self]
      exact hlinks.unlink hnodup fun q hq => by cases hq
    · rw [Function.update_of_ne hk]
      change Links _ ((h.store _ _).load (.head k)) _
      rcases slotAt_head i a with heq | ⟨q, hq, heq⟩
      · rw [heq, load_store_of_ne fun h => hk (Slot.head.inj h).symm]
        exact (hl.links k).congr fun q _ => cells_store_of_ne fun h => by cases h
      · rw [heq, load_store_of_ne fun h => by cases h]
        refine (hl.links k).congr fun q' hq' => cells_store_of_ne fun h => ?_
        obtain rfl := Slot.next.inj h
        exact hl.distinct.disjoint k i hk hq' (by rw [hi, List.map_append]; exact List.mem_append_left _ hq)
  · exact hl.distinct.update (hsub.nodup (hl.distinct.nodup i)) fun k hk q hq => hl.distinct.disjoint i k hk.symm (hsub.subset hq)
  · obtain ⟨next, hc⟩ := hl.cell hi
    exact val_store hc
  · by_cases hk : k = i
    · rw [hk, Function.update_self]
      rw [List.map_append, List.map_cons, List.nodup_middle, List.nodup_cons] at hnodup
      simpa using hnodup.1
    · rw [Function.update_of_ne hk]
      exact fun ht => hl.distinct.disjoint k i hk ht (by rw [hi]; simp)

/-- Putting a cell that is in no list in front of one. -/
theorem Lists.front (hl : Lists h l) (hc : h.cells[t]? = some ⟨x, next⟩) (hout : ∀ k, t ∉ (l k).map Prod.fst) (j : ι) :
    Lists (h.front t j) (Function.update l j ((t, x) :: l j)) := by
  have hkeep : ∀ k, Links (h.front t j) (h.head k) (l k) := by
    intro k
    refine (hl.links k).congr fun q hq => (cells_store_of_ne fun heq => ?_ : (h.store (.next t) (h.head j)).cells[q]? = h.cells[q]?)
    obtain rfl : t = q := Slot.next.inj heq
    exact hout k hq
  constructor
  · intro k
    by_cases hk : k = j
    · subst hk
      rw [Function.update_self]
      refine ⟨by simp [Heap.front, store], h.head k, by simp [Heap.front, store, hc], hkeep k⟩
    · rw [Function.update_of_ne hk]
      have hhead : (h.front t j).head k = h.head k := Function.update_of_ne hk _ _
      rw [hhead]
      exact hkeep k
  · exact hl.distinct.update (List.nodup_cons.mpr ⟨hout j, hl.distinct.nodup j⟩) fun k hk =>
      List.disjoint_cons_left.mpr ⟨hout k, hl.distinct.disjoint j k (Ne.symm hk)⟩

end

end Heap

end RainWrt
