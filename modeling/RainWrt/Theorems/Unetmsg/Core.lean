import RainWrt.Unetmsg.Core

/-! The tables of a daemon: what its clients hold, and what a peer has announced. -/

namespace RainWrt.Unetmsg

/-! ### Entries -/

namespace Core
variable {c : Core} {kind : Kind} {name : String}

theorem entry_setEntry (c : Core) (kind : Kind) (name : String) (list : List Handle) (k : Kind) (n : String) :
    (c.setEntry kind name list).entry k n = if k = kind ∧ n = name then list else c.entry k n := by
  unfold entry setEntry
  dsimp only
  by_cases hk : k = kind
  · rw [hk, Function.update_self, Obj.get?_set]
    by_cases hn : n = name
    · rw [if_pos hn, if_pos ⟨rfl, hn⟩]
      rfl
    · rw [if_neg hn, if_neg fun h => hn h.2]
  · rw [Function.update_of_ne hk, if_neg fun h => hk h.1]

theorem entry_pubsubAdd (c : Core) (kind : Kind) (name : String) (i : Nat) (k : Kind) (n : String) :
    (c.pubsubAdd kind name i).1.entry k n =
      if k = kind ∧ n = name then c.entry kind name ++ [{ id := c.nextId, client := i }] else c.entry k n :=
  entry_setEntry c kind name _ k n

theorem entry_pubsubDel (c : Core) (kind : Kind) (name : String) (h : Handle) (k : Kind) (n : String) :
    (c.pubsubDel kind name h).1.entry k n =
      if k = kind ∧ n = name then (c.entry kind name).filter (·.id ≠ h.id) else c.entry k n :=
  entry_setEntry c kind name _ k n

/-- What holds of the tables: the handles of a client are in the entries, and each handle there belongs to a client. -/
structure Tidy (c : Core) : Prop where
  held : ∀ i cl, c.clients i = some cl → ∀ kind, ∀ e ∈ cl.handles kind, e.2 ∈ c.entry kind e.1 ∧ e.2.client = i
  owned : ∀ kind name, ∀ h ∈ c.entry kind name, ∃ cl, c.clients h.client = some cl ∧ (name, h) ∈ cl.handles kind
  ids : ∀ kind name, ∀ h ∈ c.entry kind name, h.id < c.nextId
  distinct : ∀ kind name, ∀ h ∈ c.entry kind name, ∀ h' ∈ c.entry kind name, h.id = h'.id → h = h'

/-- A client that is there has the name. -/
def Live (c : Core) (kind : Kind) (name : String) : Prop :=
  ∃ i cl, c.clients i = some cl ∧ ((cl.handles kind).get? name).isSome

theorem live_iff (h : c.Tidy) : c.Live kind name ↔ c.entry kind name ≠ [] := by
  constructor
  · rintro ⟨i, cl, hcl, hname⟩ hnil
    obtain ⟨e, he, rfl⟩ := List.mem_map.mp (Obj.mem_keys.mpr hname)
    have hmem := (h.held i cl hcl kind e he).1
    rw [hnil] at hmem
    cases hmem
  · intro hne
    obtain ⟨x, hx⟩ := List.exists_mem_of_ne_nil _ hne
    obtain ⟨cl, hcl, hmem⟩ := h.owned kind name x hx
    exact ⟨x.client, cl, hcl, Obj.mem_keys.mp (List.mem_map.mpr ⟨_, hmem, rfl⟩)⟩

theorem tidy_clientNew (h : c.Tidy) {i : Nat} (hi : c.clients i = none) (user : String) (group : Option String) :
    (c.clientNew i user group).Tidy := by
  refine ⟨fun j cl hcl k e he => ?_, fun k n x hx => ?_, h.ids, h.distinct⟩
  · simp only [clientNew] at hcl
    by_cases hj : j = i
    · rw [hj, Function.update_self] at hcl
      cases hcl
      cases he
    · rw [Function.update_of_ne hj] at hcl
      exact h.held j cl hcl k e he
  · obtain ⟨cl, hcl, hmem⟩ := h.owned k n x hx
    refine ⟨cl, ?_, hmem⟩
    have hne : x.client ≠ i := fun heq => by
      rw [heq, hi] at hcl
      cases hcl
    simp only [clientNew]
    rw [Function.update_of_ne hne]
    exact hcl

theorem mem_set_of_get?_eq_none {α : Type} {o : Obj α} {k : String} {v : α} (h : o.get? k = none) (e : String × α) :
    e ∈ o.set k v ↔ e ∈ o ∨ e = (k, v) := by
  have hany : ¬o.any (·.1 = k) = true := by
    intro hany
    obtain ⟨x, hx, hk⟩ := List.any_eq_true.mp hany
    have := Obj.mem_keys.mp (List.mem_map.mpr ⟨x, hx, of_decide_eq_true hk⟩)
    rw [h] at this
    cases this
  rw [Obj.set, if_neg hany, List.mem_append, List.mem_singleton]

/-- The state behind a name that a client takes. -/
def afterAdd (c : Core) (kind : Kind) (i : Nat) (name : String) (cl : Client) : Core :=
  { (c.pubsubAdd kind name i).1 with
    clients := Function.update c.clients i (some { cl with
      handles := Function.update cl.handles kind ((cl.handles kind).set name { id := c.nextId, client := i }) }) }

theorem clientAdd_cases (kind : Kind) (i : Nat) (c : Core) (name : String) :
    clientAdd kind i c name = (c, []) ∨
      ∃ cl, c.clients i = some cl ∧ (cl.handles kind).get? name = none ∧
        clientAdd kind i c name = (c.afterAdd kind i name cl, (c.pubsubAdd kind name i).2.2 ++
          if kind = .publish then (c.afterAdd kind i name cl).handlePublish (some i) name else []) := by
  unfold clientAdd
  cases hcl : c.clients i with
  | none => exact Or.inl rfl
  | some cl =>
    dsimp only
    by_cases hsome : ((cl.handles kind).get? name).isSome = true
    · rw [if_pos hsome]
      exact Or.inl rfl
    · rw [if_neg hsome]
      exact Or.inr ⟨cl, rfl, by simpa using hsome, rfl⟩

theorem tidy_afterAdd (h : c.Tidy) {i : Nat} {cl : Client} (hcl : c.clients i = some cl) (hnone : (cl.handles kind).get? name = none) :
    (c.afterAdd kind i name cl).Tidy := by
  have hentry : ∀ k n, (c.afterAdd kind i name cl).entry k n =
      if k = kind ∧ n = name then c.entry kind name ++ [{ id := c.nextId, client := i }] else c.entry k n :=
    entry_pubsubAdd c kind name i
  have hclients : ∀ j, (c.afterAdd kind i name cl).clients j = if j = i then some { cl with
      handles := Function.update cl.handles kind ((cl.handles kind).set name { id := c.nextId, client := i }) } else c.clients j := by
    intro j
    exact Function.update_apply ..
  have hgrow : ∀ k n x, x ∈ c.entry k n → x ∈ (c.afterAdd kind i name cl).entry k n := by
    intro k n x hx
    rw [hentry]
    split_ifs with heq
    · rw [heq.1, heq.2] at hx
      exact List.mem_append_left _ hx
    · exact hx
  -- a handle of the new entry is an old one or the one that was added
  have hold : ∀ k n x, x ∈ (c.afterAdd kind i name cl).entry k n →
      x ∈ c.entry k n ∨ (k = kind ∧ n = name ∧ x = { id := c.nextId, client := i }) := by
    intro k n x hx
    rw [hentry] at hx
    split_ifs at hx with heq
    · rcases List.mem_append.mp hx with hx | hx
      · rw [heq.1, heq.2]
        exact Or.inl hx
      · exact Or.inr ⟨heq.1, heq.2, List.mem_singleton.mp hx⟩
    · exact Or.inl hx
  refine ⟨fun j cl' hj k e he => ?_, fun k n x hx => ?_, fun k n x hx => ?_, fun k n x hx y hy hid => ?_⟩
  · rw [hclients] at hj
    split_ifs at hj with hji
    · cases hj
      subst hji
      by_cases hk : k = kind
      · subst hk
        dsimp only at he
        rw [Function.update_self, mem_set_of_get?_eq_none hnone] at he
        rcases he with he | rfl
        · exact ⟨hgrow _ _ _ (h.held j cl hcl k e he).1, (h.held j cl hcl k e he).2⟩
        · refine ⟨?_, rfl⟩
          rw [hentry, if_pos ⟨rfl, rfl⟩]
          exact List.mem_append_right _ (List.mem_singleton_self _)
      · dsimp only at he
        rw [Function.update_of_ne hk] at he
        exact ⟨hgrow _ _ _ (h.held j cl hcl k e he).1, (h.held j cl hcl k e he).2⟩
    · exact ⟨hgrow _ _ _ (h.held j cl' hj k e he).1, (h.held j cl' hj k e he).2⟩
  · rcases hold k n x hx with hx | ⟨rfl, rfl, rfl⟩
    · obtain ⟨cl', hcl', hmem⟩ := h.owned k n x hx
      by_cases hxi : x.client = i
      · rw [hxi, hcl] at hcl'
        cases hcl'
        refine ⟨_, by rw [hclients, if_pos hxi], ?_⟩
        by_cases hk : k = kind
        · subst hk
          dsimp only
          rw [Function.update_self, mem_set_of_get?_eq_none hnone]
          exact Or.inl hmem
        · dsimp only
          rw [Function.update_of_ne hk]
          exact hmem
      · exact ⟨cl', by rw [hclients, if_neg hxi]; exact hcl', hmem⟩
    · refine ⟨_, by rw [hclients, if_pos rfl], ?_⟩
      dsimp only
      rw [Function.update_self, mem_set_of_get?_eq_none hnone]
      exact Or.inr rfl
  · show x.id < c.nextId + 1
    rcases hold k n x hx with hx | ⟨-, -, rfl⟩
    · exact Nat.lt_succ_of_lt (h.ids k n x hx)
    · exact Nat.lt_succ_self _
  · rcases hold k n x hx with hx | ⟨hk, hn, rfl⟩ <;> rcases hold k n y hy with hy | ⟨hk', hn', rfl⟩
    · exact h.distinct k n x hx y hy hid
    · exact absurd hid (Nat.ne_of_lt (h.ids k n x hx))
    · exact absurd hid.symm (Nat.ne_of_lt (h.ids k n y hy))
    · rfl

theorem tidy_clientAdd (h : c.Tidy) (kind : Kind) (i : Nat) (name : String) : (clientAdd kind i c name).1.Tidy := by
  rcases clientAdd_cases kind i c name with heq | ⟨cl, hcl, hnone, heq⟩
  · rw [heq]
    exact h
  · rw [heq]
    exact tidy_afterAdd h hcl hnone

theorem tidy_clientPubsub (wildcard : String → String → Bool → Bool) (h : c.Tidy) (kind : Kind) (i : Nat) (names : List String) :
    (c.clientPubsub wildcard kind i names).1.Tidy := by
  unfold clientPubsub
  cases c.clients i with
  | none => exact h
  | some cl =>
    dsimp only
    split_ifs
    · exact (collect_induct (P := Tidy) (Q := fun _ => True) h fun c name _ hc => ⟨tidy_clientAdd hc kind i name, fun _ _ => trivial⟩).1
    · exact h

/-- What is left of the entries when the handles of a list are taken out. -/
theorem collect_clientDel (kind : Kind) (l : List (String × Handle)) (c : Core) :
    (collect (clientDel kind) c l).1.clients = c.clients ∧ (collect (clientDel kind) c l).1.nextId = c.nextId ∧
      ∀ k n, (collect (clientDel kind) c l).1.entry k n =
        if k = kind then (c.entry k n).filter fun x => ∀ e ∈ l, e.1 = n → e.2.id ≠ x.id else c.entry k n := by
  induction l generalizing c with
  | nil =>
    refine ⟨rfl, rfl, fun k n => ?_⟩
    split_ifs
    · exact (List.filter_eq_self.mpr (by simp)).symm
    · rfl
  | cons e l ih =>
    obtain ⟨hclients, hid, hentry⟩ := ih (clientDel kind c e).1
    rw [collect_cons]
    refine ⟨hclients, hid, fun k n => ?_⟩
    rw [hentry, show (clientDel kind c e).1.entry k n = (c.pubsubDel kind e.1 e.2).1.entry k n from rfl, entry_pubsubDel]
    by_cases hk : k = kind
    · rw [if_pos hk, if_pos hk]
      by_cases hn : n = e.1
      · rw [if_pos ⟨hk, hn⟩, List.filter_filter, hk, hn]
        apply List.filter_congr
        intro x _
        rw [Bool.eq_iff_iff, Bool.and_eq_true, decide_eq_true_eq, decide_eq_true_eq, decide_eq_true_eq, List.forall_mem_cons]
        exact ⟨fun h => ⟨fun _ => Ne.symm h.2, h.1⟩, fun h => ⟨h.2, Ne.symm (h.1 rfl)⟩⟩
      · rw [if_neg fun h => hn h.2]
        apply List.filter_congr
        intro x _
        simp [Ne.symm hn]
    · rw [if_neg hk, if_neg hk, if_neg fun h => hk h.1]

theorem tidy_clientDisconnect (h : c.Tidy) (i : Nat) : (c.clientDisconnect i).1.Tidy := by
  unfold clientDisconnect
  cases hcl : c.clients i with
  | none => exact h
  | some cl =>
    dsimp only
    obtain ⟨hclients₁, hid₁, hentry₁⟩ := collect_clientDel .publish (cl.handles .publish) c
    obtain ⟨hclients₂, hid₂, hentry₂⟩ := collect_clientDel .subscribe (cl.handles .subscribe)
      (collect (clientDel .publish) c (cl.handles .publish)).1
    generalize (collect (clientDel .subscribe) (collect (clientDel .publish) c (cl.handles .publish)).1 (cl.handles .subscribe)).1 =
      c₂ at hclients₂ hid₂ hentry₂ ⊢
    -- both loops together
    have hentry : ∀ k n x, x ∈ c₂.entry k n ↔ x ∈ c.entry k n ∧ ∀ e ∈ cl.handles k, e.1 = n → e.2.id ≠ x.id := by
      intro k n x
      rw [hentry₂, hentry₁]
      cases k <;> simp
    have hsub : ∀ k n x, x ∈ c₂.entry k n → x ∈ c.entry k n := fun k n x hx => ((hentry k n x).mp hx).1
    refine ⟨fun j cl' hj k e he => ?_, fun k n x hx => ?_, fun k n x hx => ?_, fun k n x hx y hy => ?_⟩
    · dsimp only at hj
      have hji : j ≠ i := fun heq => by
        rw [heq, Function.update_self] at hj
        cases hj
      rw [Function.update_of_ne hji, hclients₂, hclients₁] at hj
      obtain ⟨hmem, hclient⟩ := h.held j cl' hj k e he
      refine ⟨(hentry k e.1 e.2).mpr ⟨hmem, fun e' he' hname hid => ?_⟩, hclient⟩
      obtain ⟨hmem', hclient'⟩ := h.held i cl hcl k e' he'
      rw [hname] at hmem'
      rw [← h.distinct k e.1 _ hmem' _ hmem hid, hclient'] at hclient
      exact hji hclient.symm
    · obtain ⟨hmem, hnot⟩ := (hentry k n x).mp hx
      obtain ⟨cl', hcl', hown⟩ := h.owned k n x hmem
      have hxi : x.client ≠ i := fun heq => by
        rw [heq, hcl] at hcl'
        cases hcl'
        exact hnot _ hown rfl rfl
      refine ⟨cl', ?_, hown⟩
      dsimp only
      rw [Function.update_of_ne hxi, hclients₂, hclients₁]
      exact hcl'
    · show x.id < c₂.nextId
      rw [hid₂, hid₁]
      exact h.ids k n x (hsub k n x hx)
    · exact h.distinct k n x (hsub k n x hx) y (hsub k n y hy)

end Core

/-! ### Announcements of a peer -/

namespace Core
variable {c : Core} {kind k : Kind} {name n host h : String}

/-- The peer is in the table under the name. -/
def Has (c : Core) (kind : Kind) (name host : String) : Prop := ((c.peers kind name).get? host).isSome = true

theorem peers_update (c : Core) (kind : Kind) (name : String) (o : Obj Remote) (k : Kind) (n : String) :
    ({ c with remote := Function.update c.remote kind ((c.remote kind).set name o) } : Core).peers k n =
      if k = kind ∧ n = name then o else c.peers k n := by
  unfold peers
  dsimp only
  by_cases hk : k = kind
  · rw [hk, Function.update_self, Obj.get?_set]
    by_cases hn : n = name
    · rw [if_pos hn, if_pos ⟨rfl, hn⟩]
      rfl
    · rw [if_neg hn, if_neg fun h => hn h.2]
  · rw [Function.update_of_ne hk, if_neg fun h => hk h.1]

theorem peers_rxCleanupState (c : Core) (host : String) (k : Kind) (n : String) :
    (c.rxCleanupState host).1.peers k n = (c.peers k n).del host := by
  cases k <;> simp [rxCleanupState, peers, Function.update] <;> cases Obj.get? _ n <;> rfl

theorem has_rxCleanupState : (c.rxCleanupState host).1.Has k n h ↔ h ≠ host ∧ c.Has k n h := by
  unfold Has
  rw [peers_rxCleanupState, Obj.get?_del]
  split_ifs with hh
  · simp [hh]
  · simp [hh]

/-- What an announcement does: nothing but telling local clients of a name that is on the list, adding a name or removing
    one. -/
theorem rxPubsub_cases (allowed : String → Bool) (txAuth : Bool) (c : Core) (sock : RxSock) (kind : Kind) (name : String)
    (enabled : Bool) :
    let r := c.rxPubsub allowed txAuth sock kind name enabled
    let notify := fun c : Core => if kind = .publish then c.handlePublish none name else []
    (r.1 = c ∧ r.2.1 = sock ∧ (name = "" ∨ (enabled = true ∧ (name ∈ sock.lists kind ∨ allowed name = false)) ∨
        (enabled = false ∧ name ∉ sock.lists kind)) ∧ (r.2.2 = [] ∨ (name ∈ sock.lists kind ∧ r.2.2 = notify c))) ∨
    (name ≠ "" ∧ enabled = true ∧ name ∉ sock.lists kind ∧ allowed name = true ∧
      r.1 = { c with remote := Function.update c.remote kind ((c.remote kind).set name
        ((c.peers kind name).set sock.name { network := sock.network, name := sock.name })) } ∧
      r.2.1 = { sock with lists := Function.update sock.lists kind (sock.lists kind ++ [name]) } ∧
      (r.2.2 = [] ∨ r.2.2 = notify r.1)) ∨
    (name ≠ "" ∧ enabled = false ∧ name ∈ sock.lists kind ∧
      r.1 = { c with remote := Function.update c.remote kind ((c.remote kind).set name ((c.peers kind name).del sock.name)) } ∧
      r.2.1 = { sock with lists := Function.update sock.lists kind ((sock.lists kind).filter (· ≠ name)) } ∧
      r.2.2 = notify c) := by
  intro r notify
  by_cases hname : name = ""
  · have hr : r = (c, sock, []) := by simp only [r, rxPubsub, if_pos hname]
    rw [hr]
    exact Or.inl ⟨rfl, rfl, Or.inl hname, Or.inl rfl⟩
  · cases enabled with
    | true =>
      by_cases hlist : name ∈ sock.lists kind
      · have hr : r = (c, sock, if txAuth then notify c else []) := by simp [r, rxPubsub, hname, hlist, notify]
        rw [hr]
        refine Or.inl ⟨rfl, rfl, Or.inr (Or.inl ⟨rfl, Or.inl hlist⟩), ?_⟩
        cases txAuth
        · exact Or.inl rfl
        · exact Or.inr ⟨hlist, rfl⟩
      · cases hallowed : allowed name with
        | false =>
          have hr : r = (c, sock, []) := by simp [r, rxPubsub, hname, hlist, hallowed]
          rw [hr]
          exact Or.inl ⟨rfl, rfl, Or.inr (Or.inl ⟨rfl, Or.inr rfl⟩), Or.inl rfl⟩
        | true =>
          refine Or.inr (Or.inl ⟨hname, rfl, hlist, rfl, ?_⟩)
          simp only [r, rxPubsub, if_neg hname, if_neg hlist, hallowed, if_true, Bool.not_true, Bool.false_eq_true, if_false, true_and]
          cases txAuth
          · exact Or.inl rfl
          · exact Or.inr rfl
    | false =>
      by_cases hlist : name ∈ sock.lists kind
      · refine Or.inr (Or.inr ⟨hname, rfl, hlist, ?_⟩)
        simp only [r, rxPubsub, if_neg hname, Bool.false_eq_true, if_false, hlist, not_true_eq_false, true_and]
        rfl
      · have hr : r = (c, sock, []) := by simp [r, rxPubsub, hname, hlist]
        rw [hr]
        exact Or.inl ⟨rfl, rfl, Or.inr (Or.inr ⟨rfl, hlist⟩), Or.inl rfl⟩

end Core

end RainWrt.Unetmsg
