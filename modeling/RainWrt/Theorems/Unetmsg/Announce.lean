import RainWrt.Theorems.Unetmsg.Core
import RainWrt.Unetmsg.Link

/-! What `B` knows of the names of `A`. On an authenticated connection the names that `B` has on its list, with all that is
    still in flight, are those that `A` has. -/

namespace RainWrt.Unetmsg

/-! ### What is in flight -/

/-- What a message leaves of the knowledge about a name. -/
def tell (kind : Kind) (name : String) (b : Bool) : ToB → Bool
  | .auth => b
  | .pubsub k n enabled => if k = kind ∧ n = name then enabled else b

/-- What is known of a name when all in flight has come. -/
def told (kind : Kind) (name : String) (b : Bool) (q : List ToB) : Bool := q.foldl (tell kind name) b

section
variable {kind : Kind} {name : String} {b : Bool}

theorem told_append (b : Bool) (q q' : List ToB) : told kind name b (q ++ q') = told kind name (told kind name b q) q' :=
  List.foldl_append ..

theorem told_of_auth {q : List ToB} (h : ∀ m ∈ q, m = .auth) : told kind name b q = b := by
  induction q with
  | nil => rfl
  | cons m q ih =>
    obtain ⟨rfl, hq⟩ := List.forall_mem_cons.mp h
    exact ih hq

theorem told_enable (b : Bool) (k : Kind) (names : List String) :
    told kind name b (names.map fun n => .pubsub k n true) = (b || decide (k = kind ∧ name ∈ names)) := by
  induction names generalizing b with
  | nil => simp [told]
  | cons n names ih =>
    rw [List.map_cons]
    refine (ih (tell kind name b (.pubsub k n true))).trans ?_
    by_cases h : k = kind ∧ n = name
    · obtain ⟨rfl, rfl⟩ := h
      simp [tell]
    · simp only [tell, if_neg h]
      congr 1
      rw [decide_eq_decide, List.mem_cons]
      exact ⟨fun hk => ⟨hk.1, Or.inr hk.2⟩, fun hk => ⟨hk.1, hk.2.resolve_left fun heq => h ⟨hk.1, heq.symm⟩⟩⟩

/-- All names with an entry are announced, also those whose entry has no handle left. -/
theorem told_wholesale (a : Core) (b : Bool) :
    told kind name b (Link.wholesale a) = (b || ((a.table kind).get? name).isSome) := by
  unfold Link.wholesale
  rw [told_append, told_enable, told_enable, Bool.or_assoc]
  cases kind <;> simp [Obj.mem_keys]

end

/-! ### What the clients of `A` do -/

/-- What is sent says how the entries changed. -/
def Follows (c c' : Core) (out : List Effect) : Prop :=
  ∀ kind name, told kind name (decide (c.entry kind name ≠ [])) (out.filterMap Link.announcement) =
    decide (c'.entry kind name ≠ [])

namespace Follows
variable {c c' c'' : Core} {out out' : List Effect}

theorem refl (c : Core) : Follows c c [] := fun _ _ => rfl

theorem trans (h : Follows c c' out) (h' : Follows c' c'' out') : Follows c c'' (out ++ out') := by
  intro kind name
  rw [List.filterMap_append, told_append, h, h']

theorem collect {α : Type} {f : Core → α → Core × List Effect} (h : ∀ c a, Follows c (f c a).1 (f c a).2) (l : List α) (c : Core) :
    Follows c (collect f c l).1 (collect f c l).2 := by
  induction l generalizing c with
  | nil => exact refl c
  | cons a l ih =>
    rw [collect_cons]
    exact (h c a).trans (ih _)

end Follows

namespace Core

theorem filterMap_send (c : Core) (method : Method) (name : String) (handles : List Handle × List Remote) :
    (c.send method name handles).filterMap Link.announcement = [] := by
  unfold send
  rw [List.filterMap_append, List.filterMap_map, List.filterMap_map, List.append_eq_nil_iff]
  exact ⟨List.filterMap_eq_nil_iff.mpr fun _ _ => rfl, List.filterMap_eq_nil_iff.mpr fun _ _ => rfl⟩

/-- Telling local clients announces nothing. -/
theorem follows_handlePublish {c c' : Core} (h : ∀ k n, c'.entry k n = c.entry k n) (own : Option Nat) (name : String) (c₀ : Core)
    (p : Prop) [Decidable p] : Follows c c' (if p then c₀.handlePublish own name else []) := by
  intro k n
  have hnil : (if p then c₀.handlePublish own name else []).filterMap Link.announcement = [] := by
    split_ifs
    · exact filterMap_send ..
    · rfl
  rw [hnil, h]
  rfl

theorem follows_pubsubAdd (c : Core) (kind : Kind) (name : String) (i : Nat) :
    Follows c (c.pubsubAdd kind name i).1 (c.pubsubAdd kind name i).2.2 := by
  intro k n
  rw [entry_pubsubAdd]
  have hout : (c.pubsubAdd kind name i).2.2 =
      if c.entry kind name = [] ∨ kind = .publish then [.announce kind name true] else [] := rfl
  rw [hout]
  by_cases heq : k = kind ∧ n = name
  · obtain ⟨rfl, rfl⟩ := heq
    rw [if_pos (And.intro rfl rfl)]
    split_ifs with hcond
    · simp [Link.announcement, told, tell]
    · simp only [not_or] at hcond
      simp [told, hcond.1]
  · rw [if_neg heq]
    split_ifs
    · have hne : ¬(kind = k ∧ name = n) := fun h => heq ⟨h.1.symm, h.2.symm⟩
      simp [Link.announcement, told, tell, hne]
    · rfl

theorem follows_pubsubDel (c : Core) (kind : Kind) (name : String) (h : Handle) :
    Follows c (c.pubsubDel kind name h).1 (c.pubsubDel kind name h).2 := by
  intro k n
  rw [entry_pubsubDel]
  generalize hlist : (c.entry kind name).filter (·.id ≠ h.id) = list
  have hout : (c.pubsubDel kind name h).2 = if list = [] ∨ kind = .publish then [.announce kind name (list ≠ [])] else [] := by
    rw [← hlist]
    rfl
  rw [hout]
  by_cases heq : k = kind ∧ n = name
  · obtain ⟨rfl, rfl⟩ := heq
    rw [if_pos (And.intro rfl rfl)]
    split_ifs with hcond
    · simp [Link.announcement, told, tell]
    · simp only [not_or] at hcond
      -- a handle is left, so there was one before
      have hne : c.entry k n ≠ [] := fun hnil => hcond.1 (by rw [← hlist, hnil]; rfl)
      simp [told, hcond.1, hne]
  · rw [if_neg heq]
    split_ifs
    · have hne : ¬(kind = k ∧ name = n) := fun h => heq ⟨h.1.symm, h.2.symm⟩
      simp [Link.announcement, told, tell, hne]
    · rfl

theorem follows_clientAdd (kind : Kind) (i : Nat) (c : Core) (name : String) :
    Follows c (clientAdd kind i c name).1 (clientAdd kind i c name).2 := by
  rcases clientAdd_cases kind i c name with heq | ⟨cl, -, -, heq⟩
  · rw [heq]
    exact Follows.refl c
  · rw [heq]
    have htell : Follows (c.pubsubAdd kind name i).1 (c.afterAdd kind i name cl)
        (if kind = .publish then (c.afterAdd kind i name cl).handlePublish (some i) name else []) :=
      follows_handlePublish (fun _ _ => rfl) (some i) name _ _
    exact (follows_pubsubAdd c kind name i).trans htell

theorem follows_clientPubsub (wildcard : String → String → Bool → Bool) (c : Core) (kind : Kind) (i : Nat) (names : List String) :
    Follows c (c.clientPubsub wildcard kind i names).1 (c.clientPubsub wildcard kind i names).2 := by
  unfold clientPubsub
  cases c.clients i with
  | none => exact Follows.refl c
  | some cl =>
    dsimp only
    split_ifs
    · exact Follows.collect (follows_clientAdd kind i) names c
    · exact Follows.refl c

theorem follows_clientDel (kind : Kind) (c : Core) (e : String × Handle) :
    Follows c (clientDel kind c e).1 (clientDel kind c e).2 := by
  have htell : Follows c c (if kind = .publish then c.handlePublish (some e.2.client) e.1 else []) :=
    follows_handlePublish (fun _ _ => rfl) (some e.2.client) e.1 c _
  exact htell.trans (follows_pubsubDel c kind e.1 e.2)

theorem follows_clientDisconnect (c : Core) (i : Nat) : Follows c (c.clientDisconnect i).1 (c.clientDisconnect i).2 := by
  unfold clientDisconnect
  cases c.clients i with
  | none => exact Follows.refl c
  | some cl =>
    exact (Follows.collect (follows_clientDel .publish) (cl.handles .publish) c).trans
      (Follows.collect (follows_clientDel .subscribe) (cl.handles .subscribe) _)

end Core

end RainWrt.Unetmsg
