import RainWrt.Nvram.Store
import RainWrt.Theorems.Nvram

/-! The hash table in memory is a finite map: each call on the linked tuples does what it does on the chains, and the chains
    hold the last value of each name. -/

namespace RainWrt.Nvram

variable {s s' : Store} {h : Handle} {name value : Bytes} {t : Tuple}

/-! ### The table in memory -/

/-- The lists of the table are the chains of the handle. -/
structure Represents (s : Store) (h : Handle) : Prop where
  space : s.space = h.space
  lists : ∃ l, Heap.Lists s.heap l ∧ ∀ i, (l (.hash i)).map Prod.snd = h.chain i

/-- Looking for a name ends at the end of its chain, or at the first tuple with this name. -/
theorem Represents.find_cases (hr : Represents s h) (name : Bytes) : ∃ l, Heap.Lists s.heap l ∧ (∀ i, (l (.hash i)).map Prod.snd = h.chain i) ∧
    ((∃ prev, s.find name = some (prev, none) ∧ ∀ t ∈ h.chain (bucket name), t.name ≠ name) ∨
      ∃ a t x b, l (.hash (bucket name)) = a ++ (t, x) :: b ∧ (∀ y ∈ a.map Prod.snd, y.name ≠ name) ∧ x.name = name ∧
        s.find name = some (Heap.slotAt (.head (.hash (bucket name))) a, some t)) := by
  obtain ⟨l, hl, hchain⟩ := hr.lists
  refine ⟨l, hl, hchain, ?_⟩
  rcases hl.find_cases (fun t => t.name = name) (.hash (bucket name)) with ⟨prev, hfind, hall⟩ | ⟨a, t, x, b, hsplit, hall, hx, hfind⟩
  · refine .inl ⟨prev, hfind, fun t ht => ?_⟩
    rw [← hchain] at ht
    obtain ⟨c, hc, rfl⟩ := List.mem_map.mp ht
    simpa using hall c hc
  · refine .inr ⟨a, t, x, b, hsplit, fun y hy => ?_, by simpa using hx, hfind⟩
    obtain ⟨c, hc, rfl⟩ := List.mem_map.mp hy
    simpa using hall c hc

theorem chain_split {l : Anchor → List (Nat × Tuple)} {i : Nat} {a b : List (Nat × Tuple)} {p : Nat} {x : Tuple}
    (hchain : ∀ i, (l (.hash i)).map Prod.snd = h.chain i) (hsplit : l (.hash i) = a ++ (p, x) :: b) :
    h.chain i = a.map Prod.snd ++ x :: b.map Prod.snd := by
  rw [← hchain, hsplit]
  simp

theorem Represents.get (hr : Represents s h) (name : Bytes) : s.get name = some (h.get name) := by
  obtain ⟨l, hl, hchain, ⟨prev, hfind, hall⟩ | ⟨a, t, x, b, hsplit, hall, hx, hfind⟩⟩ := hr.find_cases name
  · have hnone : (h.chain (bucket name)).find? (·.name = name) = none := by simpa [List.find?_eq_none] using hall
    rw [Store.get, hfind, Handle.get, hnone]
    rfl
  · obtain ⟨next, hc⟩ := hl.cell hsplit
    have hnone : (a.map Prod.snd).find? (·.name = name) = none := List.find?_eq_none.mpr fun y hy => by simpa using hall y hy
    rw [Store.get, hfind, Handle.get, chain_split hchain hsplit, List.find?_append, hnone]
    simp [hc, hx]

theorem replace_append {a b : List Tuple} {x : Tuple} (ha : ∀ y ∈ a, y.name ≠ name) (hx : x.name = name) (value : Bytes) :
    Handle.replace name value (a ++ x :: b) = a ++ { x with value } :: b := by
  induction a with
  | nil => rw [List.nil_append, Handle.replace, if_pos hx, List.nil_append]
  | cons y a ih =>
    obtain ⟨hy, ha⟩ := List.forall_mem_cons.mp ha
    rw [List.cons_append, Handle.replace, if_neg hy, ih ha, List.cons_append]

/-- A chain of the handle is replaced as a list of the table is. -/
theorem Represents.update {heap : Heap Anchor Tuple} {l : Anchor → List (Nat × Tuple)} (hr : Represents s h) (hl : Heap.Lists heap l) {i : Nat}
    {c : List Tuple} (hi : (l (.hash i)).map Prod.snd = c) (hother : ∀ j ≠ i, (l (.hash j)).map Prod.snd = h.chain j) :
    Represents { s with heap } { h with chain := Function.update h.chain i c } := by
  refine ⟨hr.space, l, hl, fun j => ?_⟩
  by_cases hj : j = i
  · rw [hj]
    exact hi.trans (Function.update_self i c h.chain).symm
  · rw [hother j hj]
    exact (Function.update_of_ne hj c h.chain).symm

theorem Represents.set (hr : Represents s h) (name value : Bytes) :
    ∃ s', s.set name value = some ((h.set name value).1, s') ∧ Represents s' (h.set name value).2 := by
  obtain ⟨l, hl, hchain, hcases⟩ := hr.find_cases name
  by_cases hfits : value.length + 1 > h.space
  · refine ⟨s, ?_, ?_⟩
    · rcases hcases with ⟨prev, hfind, -⟩ | ⟨a, t, x, b, -, -, -, hfind⟩ <;>
        simp [Store.set, hfind, Store.realloc, hr.space, hfits, Handle.set]
    · rw [Handle.set, if_pos hfits]
      exact hr
  rw [Handle.set, if_neg hfits]
  rcases hcases with ⟨prev, hfind, hall⟩ | ⟨a, t, x, b, hsplit, hall, hx, hfind⟩
  · obtain ⟨halloc, hcell, hout⟩ := hl.alloc { name, value }
    refine ⟨{ s with heap := (s.heap.alloc { name, value }).front s.heap.cells.length (.hash (bucket name)) }, ?_, ?_⟩
    · simp [Store.set, hfind, Store.realloc, hr.space, hfits]
    · have hnone : ¬(h.chain (bucket name)).any (·.name = name) := by simpa using hall
      rw [Handle.setChain, if_neg hnone]
      refine hr.update (halloc.front hcell hout (.hash (bucket name))) ?_ fun j hj => ?_
      · rw [Function.update_self, List.map_cons, hchain]
      · rw [Function.update_of_ne fun heq => hj (Anchor.hash.inj heq), hchain]
  · refine ⟨{ s with heap := s.heap.setVal t fun old => { old with value } }, ?_, ?_⟩
    · simp [Store.set, hfind, Store.realloc, hr.space, hfits]
    · have hsome : (h.chain (bucket name)).any (·.name = name) := by
        rw [chain_split hchain hsplit]
        simp [hx]
      rw [Handle.setChain, if_pos hsome]
      refine hr.update (hl.setVal hsplit) ?_ fun j hj => ?_
      · rw [Function.update_self, chain_split hchain hsplit, replace_append hall hx]
        simp
      · rw [Function.update_of_ne fun heq => hj (Anchor.hash.inj heq), hchain]

theorem Represents.unset (hr : Represents s h) (name : Bytes) : ∃ s', s.unset name = some s' ∧ Represents s' (h.unset name) := by
  obtain ⟨l, hl, hchain, ⟨prev, hfind, hall⟩ | ⟨a, t, x, b, hsplit, hall, hx, hfind⟩⟩ := hr.find_cases name
  · refine ⟨s, by simp [Store.unset, hfind], ?_⟩
    have hsame : (h.chain (bucket name)).eraseP (·.name = name) = h.chain (bucket name) :=
      List.eraseP_of_forall_not fun t ht => by simpa using hall t ht
    rw [Handle.unset, hsame, Function.update_eq_self]
    exact hr
  · obtain ⟨hunlink, ⟨next, hc⟩, hout⟩ := hl.unlink hsplit
    refine ⟨_, by rw [Store.unset, hfind]; rfl, ?_⟩
    have hne : Anchor.hash (bucket name) ≠ .dead := nofun
    refine hr.update (hunlink.front hc hout .dead) ?_ fun j hj => ?_
    · rw [Function.update_of_ne hne, Function.update_self, chain_split hchain hsplit, List.eraseP_append_right _ fun y hy => by simpa using hall y hy,
        List.eraseP_cons_of_pos (by simpa using hx), List.map_append]
    · rw [Function.update_of_ne (show Anchor.hash j ≠ .dead from nofun), Function.update_of_ne fun heq => hj (Anchor.hash.inj heq), hchain]

/-- Each tuple is in the chain of its name, once. -/
structure Keyed (chain : Nat → List Tuple) : Prop where
  placed : ∀ i, ∀ t ∈ chain i, bucket t.name = i
  names : ∀ i, ((chain i).map Tuple.name).Nodup

/-- What a call does to a handle. -/
def Handle.call (h : Handle) : Call → Handle
  | .get _ => h
  | .set name value => (h.set name value).2
  | .unset name => h.unset name

theorem Represents.call (hr : Represents s h) (c : Call) : ∃ s', s.call c = some s' ∧ Represents s' (h.call c) := by
  cases c with
  | get name => exact ⟨s, by rw [Store.call, hr.get]; rfl, hr⟩
  | set name value =>
    obtain ⟨s', hs', hr'⟩ := hr.set name value
    exact ⟨s', by rw [Store.call, hs']; rfl, hr'⟩
  | unset name => exact hr.unset name

theorem Represents.calls (hr : Represents s h) (calls : List Call) :
    ∃ s', calls.foldlM Store.call s = some s' ∧ Represents s' (calls.foldl Handle.call h) := by
  induction calls generalizing s h with
  | nil => exact ⟨s, rfl, hr⟩
  | cons c calls ih =>
    obtain ⟨s₁, hs₁, hr₁⟩ := hr.call c
    obtain ⟨s', hs', hr'⟩ := ih hr₁
    exact ⟨s', by rw [List.foldlM_cons, hs₁]; exact hs', hr'⟩

theorem Keyed.update {chain : Nat → List Tuple} (hk : Keyed chain) {i : Nat} {c : List Tuple} (hplaced : ∀ t ∈ c, bucket t.name = i)
    (hnames : (c.map Tuple.name).Nodup) : Keyed (Function.update chain i c) := by
  refine ⟨fun j => ?_, fun j => ?_⟩
  all_goals by_cases hj : j = i
  · rw [hj, Function.update_self]
    exact hplaced
  · rw [Function.update_of_ne hj]
    exact hk.placed j
  · rw [hj, Function.update_self]
    exact hnames
  · rw [Function.update_of_ne hj]
    exact hk.names j

theorem Keyed.call (hk : Keyed h.chain) (c : Call) : Keyed (h.call c).chain := by
  cases c with
  | get name => exact hk
  | set name value =>
    rw [Handle.call, Handle.set]
    split_ifs
    · exact hk
    · refine hk.update (fun t ht => ?_) (names_setChain (hk.names _))
      rcases mem_setChain ht with hold | rfl
      · exact hk.placed _ t hold
      · rfl
  | unset name =>
    exact hk.update (fun t ht => hk.placed _ t (List.mem_of_mem_eraseP ht)) ((List.eraseP_sublist.map _).nodup (hk.names _))

end RainWrt.Nvram
