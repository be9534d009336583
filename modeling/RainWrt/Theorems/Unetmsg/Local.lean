import RainWrt.Theorems.Unetmsg.Confined

/-! Local clients: the tables have one handle for each client that is there and each name that it has registered, and a
    message gets to each other subscriber once. -/

namespace RainWrt.Unetmsg
open Daemon

/-! ### What the peers leave -/

/-- The tables of the local clients are the same. -/
structure SameLocal (c c' : Core) : Prop where
  clients : c'.clients = c.clients
  table : c'.table = c.table
  next : c'.nextId = c.nextId

section
variable {c c' c'' : Core} {d : Daemon}

theorem SameLocal.refl (c : Core) : SameLocal c c := ⟨rfl, rfl, rfl⟩

theorem SameLocal.trans (h : SameLocal c c') (h' : SameLocal c' c'') : SameLocal c c'' :=
  ⟨h'.clients.trans h.clients, h'.table.trans h.table, h'.next.trans h.next⟩

theorem SameLocal.rxPubsub (allowed : String → Bool) (txAuth : Bool) (c : Core) (sock : RxSock) (kind : Kind) (name : String)
    (enabled : Bool) : SameLocal c (c.rxPubsub allowed txAuth sock kind name enabled).1 := by
  rcases Core.rxPubsub_cases allowed txAuth c sock kind name enabled with
    ⟨hcore, -⟩ | ⟨-, -, -, -, hcore, -⟩ | ⟨-, -, -, hcore, -⟩
  · rw [hcore]
    exact .refl c
  · rw [hcore]
    exact ⟨rfl, rfl, rfl⟩
  · rw [hcore]
    exact ⟨rfl, rfl, rfl⟩

theorem SameLocal.rxSocketClose (d : Daemon) (s : Nat) : SameLocal d.core (d.rxSocketClose s).1.core := by
  unfold Daemon.rxSocketClose
  cases d.rxSocks s with
  | none => exact .refl d.core
  | some sock =>
    dsimp only
    cases d.networks.get? sock.network with
    | none => exact .refl d.core
    | some net =>
      dsimp only
      split_ifs
      · exact ⟨rfl, rfl, rfl⟩
      · exact .refl d.core

theorem core_txSocketClose (d : Daemon) (s : Nat) : (d.txSocketClose s).core = d.core := by
  unfold txSocketClose
  cases d.txSocks s with
  | none => rfl
  | some sock =>
    dsimp only
    cases d.networks.get? sock.network with
    | none => rfl
    | some net =>
      dsimp only
      split_ifs <;> rfl

theorem core_openSocket (d : Daemon) (network name : String) (socket : Bool) : (d.openSocket network name socket).core = d.core := by
  unfold openSocket
  cases d.networks.get? network with
  | none => rfl
  | some net =>
    dsimp only
    split_ifs <;> rfl

theorem SameLocal.rxRequest (wildcard : String → String → Bool → Bool) (d : Daemon) (s : Nat) (req : RxRequest) :
    SameLocal d.core (d.rxRequest wildcard s req).1.core := by
  have hclose := SameLocal.rxSocketClose d s
  unfold Daemon.rxRequest
  cases d.rxSocks s with
  | none => exact .refl d.core
  | some sock =>
    dsimp only
    split_ifs
    · unfold socketHandleRequest
      cases d.networks.get? sock.network with
      | none => exact .refl d.core
      | some net =>
        cases req with
        | pubsub kind name enabled => exact .rxPubsub _ _ d.core sock kind name enabled
        | _ => exact .refl d.core
    · cases req with
      | hello => exact .refl d.core
      | auth valid =>
        cases valid with
        | false => exact hclose
        | true =>
          dsimp only
          cases hr : d.checkAuth s sock with
          | none => exact hclose
          | some r =>
            unfold checkAuth at hr
            cases hnet : d.networks.get? sock.network with
            | none =>
              rw [hnet] at hr
              cases hr
            | some net =>
              rw [hnet] at hr
              dsimp only at hr
              split_ifs at hr
              cases hr
              have hold := keeps_rxChannelClose (P := fun d' => SameLocal d.core d'.core) (fun d' s hd => hd.trans (.rxSocketClose d' s))
                (.refl d.core) sock.network sock.name
              exact ⟨hold.clients, hold.table, hold.next⟩
      | _ => exact hclose

/-- Only the requests of local clients change their tables. -/
theorem sameLocal_step (wildcard : String → String → Bool → Bool) (d : Daemon) {e : DaemonEvent}
    (he : match e with
      | .client .. | .clientPubsub .. | .clientDisconnect _ => False
      | _ => True) : SameLocal d.core (d.step wildcard e).1.core := by
  have htx : ∀ (d' : Daemon) s, SameLocal d.core d'.core → SameLocal d.core (d'.txSocketClose s).core := fun d' s hd => by
    rw [core_txSocketClose]
    exact hd
  have hrx : ∀ (d' : Daemon) s, SameLocal d.core d'.core → SameLocal d.core (d'.rxSocketClose s).1.core := fun d' s hd =>
    hd.trans (.rxSocketClose d' s)
  cases e with
  | client i user group => exact he.elim
  | clientPubsub kind i names => exact he.elim
  | clientDisconnect i => exact he.elim
  | clientRequest method i name host => exact .refl d.core
  | acl acl => exact ⟨rfl, rfl, rfl⟩
  | accept network address =>
    simp only [Daemon.step, accept]
    cases d.networks.get? network with
    | none => exact .refl d.core
    | some net =>
      dsimp only
      cases (net.peers.filter (·.2.address = address)).getLast? with
      | none => exact .refl d.core
      | some x =>
        dsimp only
        split_ifs
        · exact .refl d.core
        · exact .refl d.core
  | rx s req => exact .rxRequest wildcard d s req
  | rxDisconnect s => exact .rxSocketClose d s
  | rxTimeout s =>
    simp only [Daemon.step, rxTimeout]
    split_ifs
    · exact .refl d.core
    · exact .refl d.core
  | connectPeers network socket =>
    refine keeps_connectPeers (P := fun d' => SameLocal d.core d'.core) htx (fun d' n x socket hd => ?_) hrx (.refl d.core) network socket
    rw [core_openSocket]
    exact hd
  | txRequest s hello token =>
    simp only [Daemon.step, txRequest]
    split_ifs
    · exact .refl d.core
    · exact .refl d.core
    · exact htx d s (.refl d.core)
  | txReply s valid =>
    simp only [Daemon.step, txReply]
    cases d.txSocks s with
    | none => exact .refl d.core
    | some sock =>
      dsimp only
      split_ifs
      · exact .refl d.core
      · exact .refl d.core
  | txDisconnect s => exact htx d s (.refl d.core)
  | networkUpdate data listen =>
    exact keeps_unetdNetworkUpdate (P := fun d' => SameLocal d.core d'.core) htx hrx (fun _ _ _ hd => hd) (.refl d.core) data listen

end

/-! ### What clients have registered -/

/-- The names that each client has registered: those of its requests that were accepted. -/
abbrev Registry := Kind → Nat → List String

/-- The request of a client is accepted. -/
def Daemon.permits (wildcard : String → String → Bool → Bool) (d : Daemon) (kind : Kind) (i : Nat) (names : List String) : Bool :=
  (d.core.clients i).any fun cl => d.core.aclCheck wildcard kind cl.user cl.group names

def Registry.add (reg : Registry) (kind : Kind) (i : Nat) (names : List String) : Registry :=
  fun k j => if k = kind ∧ j = i then reg k j ++ names else reg k j

def register (wildcard : String → String → Bool → Bool) (d : Daemon) (reg : Registry) : DaemonEvent → Registry
  | .clientPubsub kind i names => if d.permits wildcard kind i names = true then reg.add kind i names else reg
  | .clientDisconnect i => fun k j => if j = i then [] else reg k j
  | _ => reg

def registered (wildcard : String → String → Bool → Bool) : Daemon → Registry → List DaemonEvent → Registry
  | _, reg, [] => reg
  | d, reg, e :: l => registered wildcard (d.step wildcard e).1 (register wildcard d reg e) l

/-- The tables have what is registered, once. -/
structure LocalOk (c : Core) (reg : Registry) : Prop where
  tidy : c.Tidy
  once : ∀ kind name, ((c.entry kind name).map (·.client)).Nodup
  reg : ∀ kind i name, name ∈ reg kind i ↔ ∃ cl, c.clients i = some cl ∧ ((cl.handles kind).get? name).isSome = true

namespace LocalOk
variable {c c' : Core} {reg : Registry} {kind : Kind} {name : String}

theorem same (h : LocalOk c reg) (hs : SameLocal c c') : LocalOk c' reg := by
  have hentry : ∀ k n, c'.entry k n = c.entry k n := by
    intro k n
    unfold Core.entry
    rw [hs.table]
  refine ⟨⟨fun i cl hcl k e he => ?_, fun k n x hx => ?_, fun k n x hx => ?_, fun k n x hx y hy => ?_⟩, fun k n => ?_, fun k i n => ?_⟩
  · rw [hs.clients] at hcl
    rw [hentry]
    exact h.tidy.held i cl hcl k e he
  · rw [hentry] at hx
    rw [hs.clients]
    exact h.tidy.owned k n x hx
  · rw [hentry] at hx
    rw [hs.next]
    exact h.tidy.ids k n x hx
  · rw [hentry] at hx hy
    exact h.tidy.distinct k n x hx y hy
  · rw [hentry]
    exact h.once k n
  · rw [hs.clients]
    exact h.reg k i n

/-- A client is in an entry when it has registered the name. -/
theorem mem_entry (h : LocalOk c reg) {j : Nat} : j ∈ (c.entry kind name).map (·.client) ↔ name ∈ reg kind j := by
  rw [h.reg, List.mem_map]
  constructor
  · rintro ⟨x, hx, rfl⟩
    obtain ⟨cl, hcl, hmem⟩ := h.tidy.owned kind name x hx
    exact ⟨cl, hcl, Obj.mem_keys.mp (List.mem_map.mpr ⟨_, hmem, rfl⟩)⟩
  · rintro ⟨cl, hcl, hname⟩
    obtain ⟨e, he, rfl⟩ := List.mem_map.mp (Obj.mem_keys.mpr hname)
    obtain ⟨hmem, hclient⟩ := h.tidy.held j cl hcl kind e he
    exact ⟨e.2, hmem, hclient⟩

theorem count_entry (h : LocalOk c reg) (kind : Kind) (name : String) (j : Nat) :
    ((c.entry kind name).map (·.client)).count j = if name ∈ reg kind j then 1 else 0 := by
  rw [(h.once kind name).count]
  simp only [h.mem_entry]

theorem clientNew (h : LocalOk c reg) {i : Nat} (hi : c.clients i = none) (user : String) (group : Option String) :
    LocalOk (c.clientNew i user group) reg := by
  refine ⟨Core.tidy_clientNew h.tidy hi user group, h.once, fun k j n => ?_⟩
  rw [h.reg]
  unfold Core.clientNew
  dsimp only
  by_cases hj : j = i
  · rw [hj, Function.update_self, hi]
    simp
  · rw [Function.update_of_ne hj]

theorem clientAdd (h : LocalOk c reg) {i : Nat} (hlive : c.clients i ≠ none) (kind : Kind) (name : String) :
    LocalOk (Core.clientAdd kind i c name).1 (reg.add kind i [name]) ∧ (Core.clientAdd kind i c name).1.clients i ≠ none := by
  obtain ⟨cl, hcl⟩ := Option.ne_none_iff_exists'.mp hlive
  rcases Core.clientAdd_cases kind i c name with heq | ⟨cl', hcl', hnone, heq⟩
  · -- the client has the name already
    rw [heq]
    have hold : name ∈ reg kind i := by
      rw [h.reg]
      refine ⟨cl, hcl, ?_⟩
      by_contra hnot
      have hclients := congrArg (fun r => r.1.nextId) heq
      simp only [Core.clientAdd, hcl, hnot, if_false] at hclients
      exact absurd hclients (Nat.succ_ne_self _)
    refine ⟨⟨h.tidy, h.once, fun k j n => ?_⟩, hlive⟩
    rw [← h.reg]
    unfold Registry.add
    split_ifs with hkj
    · rw [List.mem_append, List.mem_singleton, or_iff_left_of_imp]
      rintro rfl
      rw [hkj.1, hkj.2]
      exact hold
    · exact Iff.rfl
  · rw [hcl] at hcl'
    cases hcl'
    have htidy := Core.tidy_clientAdd h.tidy kind i name
    rw [heq] at htidy ⊢
    refine ⟨⟨htidy, fun k n => ?_, fun k j n => ?_⟩, ?_⟩
    · show ((((c.pubsubAdd kind name i).1).entry k n).map (·.client)).Nodup
      rw [Core.entry_pubsubAdd]
      split_ifs
      · rw [List.map_append]
        refine List.nodup_append.mpr ⟨h.once kind name, List.pairwise_singleton _ _, ?_⟩
        rintro j hj y hy rfl
        rw [List.map_singleton, List.mem_singleton] at hy
        -- a handle of the client would be under its name
        obtain ⟨cl', hcl', hsome⟩ := (h.reg kind j name).mp (h.mem_entry.mp hj)
        rw [hy, hcl] at hcl'
        cases hcl'
        rw [hnone] at hsome
        cases hsome
      · exact h.once k n
    · show n ∈ reg.add kind i [name] k j ↔ ∃ cl', Function.update c.clients i (some { cl with
        handles := Function.update cl.handles kind ((cl.handles kind).set name { id := c.nextId, client := i }) }) j = some cl' ∧ _
      unfold Registry.add
      by_cases hj : j = i
      · subst hj
        rw [Function.update_self]
        by_cases hk : k = kind
        · subst hk
          rw [if_pos ⟨rfl, rfl⟩, List.mem_append, List.mem_singleton, h.reg, hcl]
          simp only [Option.some.injEq, exists_eq_left', Function.update_self, Obj.get?_set]
          by_cases hn : n = name
          · simp [hn]
          · simp [hn]
        · rw [if_neg fun hkj => hk hkj.1, h.reg, hcl]
          simp only [Option.some.injEq, exists_eq_left', Function.update_of_ne hk]
      · rw [if_neg fun hkj => hj hkj.2, Function.update_of_ne hj, h.reg]
    · show Function.update c.clients i _ i ≠ none
      rw [Function.update_self]
      exact Option.some_ne_none _

theorem clientAdds (h : LocalOk c reg) {i : Nat} (hlive : c.clients i ≠ none) (kind : Kind) (names : List String) :
    LocalOk (collect (Core.clientAdd kind i) c names).1 (reg.add kind i names) := by
  induction names generalizing c reg with
  | nil =>
    have hreg : reg.add kind i [] = reg := by
      funext k j
      unfold Registry.add
      split_ifs
      · rw [List.append_nil]
      · rfl
    rw [hreg]
    exact h
  | cons name names ih =>
    obtain ⟨hadd, hlive'⟩ := h.clientAdd hlive kind name
    have hreg : reg.add kind i (name :: names) = (reg.add kind i [name]).add kind i names := by
      funext k j
      unfold Registry.add
      split_ifs
      · rw [List.append_assoc]
        rfl
      · rfl
    rw [collect_cons, hreg]
    exact ih hadd hlive'

theorem clientDisconnect (h : LocalOk c reg) (i : Nat) :
    LocalOk (c.clientDisconnect i).1 fun k j => if j = i then [] else reg k j := by
  have htidy := Core.tidy_clientDisconnect h.tidy i
  refine ⟨htidy, fun k n => ?_, fun k j n => ?_⟩
  · refine (h.once k n).sublist (List.Sublist.map _ ?_)
    unfold Core.clientDisconnect
    cases hcl : c.clients i with
    | none => exact List.Sublist.refl _
    | some cl =>
      obtain ⟨-, -, hentry₁⟩ := Core.collect_clientDel .publish (cl.handles .publish) c
      obtain ⟨-, -, hentry₂⟩ := Core.collect_clientDel .subscribe (cl.handles .subscribe)
        (collect (Core.clientDel .publish) c (cl.handles .publish)).1
      show ((collect (Core.clientDel .subscribe) (collect (Core.clientDel .publish) c (cl.handles .publish)).1
        (cl.handles .subscribe)).1.entry k n).Sublist (c.entry k n)
      rw [hentry₂, hentry₁]
      cases k
      · exact List.filter_sublist
      · exact List.filter_sublist
  · unfold Core.clientDisconnect
    cases hcl : c.clients i with
    | none =>
      dsimp only
      split_ifs with hj
      · rw [hj, hcl]
        simp
      · exact h.reg k j n
    | some cl =>
      obtain ⟨hclients₁, -⟩ := Core.collect_clientDel .publish (cl.handles .publish) c
      obtain ⟨hclients₂, -⟩ := Core.collect_clientDel .subscribe (cl.handles .subscribe)
        (collect (Core.clientDel .publish) c (cl.handles .publish)).1
      dsimp only
      rw [hclients₂, hclients₁]
      split_ifs with hj
      · rw [hj, Function.update_self]
        simp
      · rw [Function.update_of_ne hj]
        exact h.reg k j n

/-! ### Runs -/

variable {wildcard : String → String → Bool → Bool} {d : Daemon}

theorem step (h : LocalOk d.core reg) (e : DaemonEvent) : LocalOk (d.step wildcard e).1.core (register wildcard d reg e) := by
  cases e with
  | client i user group =>
    simp only [Daemon.step, register]
    split_ifs with hi
    · exact h
    · exact h.clientNew (not_not.mp hi) user group
  | clientPubsub kind i names =>
    cases hcl : d.core.clients i with
    | none =>
      have hstep : (d.step wildcard (.clientPubsub kind i names)).1.core = d.core := by simp [Daemon.step, Core.clientPubsub, hcl]
      have hreg : register wildcard d reg (.clientPubsub kind i names) = reg := by simp [register, permits, hcl]
      rw [hstep, hreg]
      exact h
    | some cl =>
      cases hacl : d.core.aclCheck wildcard kind cl.user cl.group names with
      | false =>
        have hstep : (d.step wildcard (.clientPubsub kind i names)).1.core = d.core := by simp [Daemon.step, Core.clientPubsub, hcl, hacl]
        have hreg : register wildcard d reg (.clientPubsub kind i names) = reg := by simp [register, permits, hcl, hacl]
        rw [hstep, hreg]
        exact h
      | true =>
        have hstep : (d.step wildcard (.clientPubsub kind i names)).1.core = (collect (Core.clientAdd kind i) d.core names).1 := by
          simp [Daemon.step, Core.clientPubsub, hcl, hacl]
        have hreg : register wildcard d reg (.clientPubsub kind i names) = reg.add kind i names := by simp [register, permits, hcl, hacl]
        rw [hstep, hreg]
        exact h.clientAdds (by rw [hcl]; exact Option.some_ne_none cl) kind names
  | clientDisconnect i => exact h.clientDisconnect i
  | _ => exact h.same (sameLocal_step wildcard d trivial)

theorem run (h : LocalOk d.core reg) (events : List DaemonEvent) :
    LocalOk (d.run wildcard events).core (registered wildcard d reg events) := by
  induction events generalizing d reg with
  | nil => exact h
  | cons e events ih => exact ih (h.step e)

theorem start (acl : Kind → Obj (List String)) : LocalOk (Daemon.start acl).core fun _ _ => [] := by
  refine ⟨⟨fun i cl hcl => ?_, fun k n x hx => ?_, fun k n x hx => ?_, fun k n x hx => ?_⟩, fun k n => List.Pairwise.nil, fun k i n => ?_⟩
  · cases hcl
  · cases hx
  · cases hx
  · cases hx
  · constructor
    · intro hmem
      cases hmem
    · rintro ⟨cl, hcl, -⟩
      cases hcl

/-! ### Messages -/

/-- What a message of a client makes local clients get. -/
theorem count_deliver (h : LocalOk c reg) (i : Nat) (name : String) (host : Option String) (j : Nat) (m : Method) (n : String) :
    (c.handleMessage (some i) name true host).count (.deliver j m n) =
      if m = .message ∧ n = name ∧ (host = none ∨ host = some "") ∧ j ≠ i ∧ name ∈ reg .subscribe j then 1 else 0 := by
  unfold Core.handleMessage Core.send
  have hforward : ∀ l : List Remote, (l.map fun cur => Effect.forward cur .message name).count (.deliver j m n) = 0 := by
    intro l
    refine List.count_eq_zero_of_not_mem fun hmem => ?_
    obtain ⟨cur, -, heq⟩ := List.mem_map.mp hmem
    cases heq
  rw [List.count_append, hforward, Nat.add_zero]
  by_cases hmn : m = .message ∧ n = name
  · obtain ⟨rfl, rfl⟩ := hmn
    have hlocal : ∀ l : List Handle, (l.map fun cur => Effect.deliver cur.client .message n).count (.deliver j .message n) =
        (l.map (·.client)).count j := by
      intro l
      have hinj : Function.Injective fun j => Effect.deliver j .message n := fun a b hab => by cases hab; rfl
      rw [← List.count_map_of_injective (l.map (·.client)) _ hinj j, List.map_map]
      rfl
    rw [hlocal]
    by_cases hhost : host = none ∨ host = some ""
    · have hnot : ¬(host ≠ none ∧ host ≠ some "") := fun hh => hhost.elim hh.1 hh.2
      simp only [Core.getHandles, if_neg hnot, true_and, hhost]
      -- each client is in the entry once
      have hsub : (((c.entry .subscribe n).filter fun cur => some i ≠ some cur.client).filter fun cur =>
          (c.clients cur.client).isSome).Sublist (c.entry .subscribe n) := List.filter_sublist.trans List.filter_sublist
      rw [((h.once .subscribe n).sublist (hsub.map _)).count]
      refine if_congr ?_ rfl rfl
      rw [List.mem_map]
      constructor
      · rintro ⟨x, hx, rfl⟩
        obtain ⟨hx, hown⟩ := List.mem_filter.mp (List.mem_of_mem_filter hx)
        rw [decide_eq_true_eq] at hown
        exact ⟨fun heq => hown (by rw [heq]), h.mem_entry.mp (List.mem_map.mpr ⟨x, hx, rfl⟩)⟩
      · rintro ⟨hne, hreg⟩
        obtain ⟨x, hx, hxj⟩ := List.mem_map.mp (h.mem_entry.mpr hreg)
        obtain ⟨cl, hcl, -⟩ := h.tidy.owned .subscribe n x hx
        refine ⟨x, List.mem_filter.mpr ⟨List.mem_filter.mpr ⟨hx, ?_⟩, by rw [hcl]; rfl⟩, hxj⟩
        rw [decide_eq_true_eq, hxj]
        exact fun heq => hne (Option.some.inj heq).symm
    · have hyes : host ≠ none ∧ host ≠ some "" := not_or.mp hhost
      simp [Core.getHandles, hyes]
  · have hnot : ¬(m = .message ∧ n = name ∧ (host = none ∨ host = some "") ∧ j ≠ i ∧ name ∈ reg .subscribe j) :=
      fun hh => hmn ⟨hh.1, hh.2.1⟩
    rw [if_neg hnot]
    refine List.count_eq_zero_of_not_mem fun hmem => hmn ?_
    obtain ⟨cur, -, heq⟩ := List.mem_map.mp hmem
    cases heq
    exact ⟨rfl, rfl⟩

end LocalOk

/-- After every run the tables have one handle for each client that is there and each name that it has registered, a
    message of a publishing client gets to each other subscriber once when no host is given, and a name is registered only
    when it is permitted. -/
theorem local_delivery (wildcard : String → String → Bool → Bool) (acl : Kind → Obj (List String)) (events : List DaemonEvent) :
    let d := (Daemon.start acl).run wildcard events
    let reg := registered wildcard (Daemon.start acl) (fun _ _ => []) events
    (∀ kind name j, ((d.core.entry kind name).map (·.client)).count j = if name ∈ reg kind j then 1 else 0) ∧
    (∀ kind name j, name ∈ reg kind j → d.core.clients j ≠ none) ∧
    (∀ i name host, name ∈ reg .publish i → ∀ j m n,
      (d.step wildcard (.clientRequest .message i name host)).2.count (.deliver j m n) =
        if m = .message ∧ n = name ∧ (host = none ∨ host = some "") ∧ j ≠ i ∧ name ∈ reg .subscribe j then 1 else 0) ∧
    ∀ e kind name j, j ∈ ((d.step wildcard e).1.core.entry kind name).map (·.client) → j ∉ (d.core.entry kind name).map (·.client) →
      ∃ cl, d.core.clients j = some cl ∧ d.core.aclCheck wildcard kind cl.user cl.group [name] = true := by
  intro d reg
  have hok : LocalOk d.core reg := (LocalOk.start acl).run events
  refine ⟨hok.count_entry, fun kind name j hreg => ?_, fun i name host hreg j m n => ?_, fun e kind name j hnew hold => ?_⟩
  · obtain ⟨cl, hcl, -⟩ := (hok.reg kind j name).mp hreg
    rw [hcl]
    exact Option.some_ne_none cl
  · obtain ⟨cl, hcl, hname⟩ := (hok.reg .publish i name).mp hreg
    simp only [Daemon.step, Core.clientRequest, hcl, hname, if_true]
    exact hok.count_deliver i name host j m n
  · rw [(hok.step e).mem_entry] at hnew
    rw [hok.mem_entry] at hold
    cases e with
    | clientPubsub k i names =>
      simp only [register] at hnew
      split_ifs at hnew with hpermits
      · unfold Registry.add at hnew
        split_ifs at hnew with hkj
        · obtain ⟨rfl, rfl⟩ := hkj
          obtain ⟨cl, hcl, hacl⟩ := (Option.any_eq_true _ _).mp hpermits
          refine ⟨cl, hcl, ?_⟩
          have hmem := (List.mem_append.mp hnew).resolve_left hold
          unfold Core.aclCheck at hacl ⊢
          split_ifs at hacl ⊢
          · rfl
          · rw [List.all_eq_true] at hacl
            exact List.all_eq_true.mpr fun x hx => hacl x (List.mem_singleton.mp hx ▸ hmem)
        · exact absurd hnew hold
      · exact absurd hnew hold
    | clientDisconnect i =>
      simp only [register] at hnew
      split_ifs at hnew
      · cases hnew
      · exact absurd hnew hold
    | _ => exact absurd hnew hold

end RainWrt.Unetmsg
