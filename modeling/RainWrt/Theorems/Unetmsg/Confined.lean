import RainWrt.Theorems.Unetmsg.Networks

/-! What the requests of a peer make the daemon tell its local clients. The names of `publish` and `subscribe` are checked
    against the patterns of the peer, those of `message` and `request` are not. -/

namespace RainWrt.Unetmsg
open Daemon

/-! ### What is delivered -/

namespace Core
variable {c : Core} {i : Nat} {method : Method} {name n : String}

theorem deliver_send {m : Method} {handles : List Handle × List Remote} (h : Effect.deliver i m n ∈ c.send method name handles) :
    m = method ∧ n = name ∧ handles.1 ≠ [] := by
  unfold send at h
  rcases List.mem_append.mp h with h | h
  · obtain ⟨cur, hcur, heq⟩ := List.mem_map.mp h
    cases heq
    exact ⟨rfl, rfl, List.ne_nil_of_mem (List.mem_of_mem_filter hcur)⟩
  · obtain ⟨cur, -, heq⟩ := List.mem_map.mp h
    cases heq

theorem deliver_handlePublish {own : Option Nat} (h : Effect.deliver i method n ∈ c.handlePublish own name) :
    method = .publish ∧ n = name :=
  ⟨(deliver_send h).1, (deliver_send h).2.1⟩

theorem deliver_handleMessage (h : Effect.deliver i method n ∈ c.handleMessage none name false none) :
    n = name ∧ c.entry .subscribe name ≠ [] := by
  obtain ⟨-, hn, hne⟩ := deliver_send h
  refine ⟨hn, fun hnil => hne ?_⟩
  simp [getHandles, hnil]

theorem deliver_handleRequest (h : Effect.deliver i method n ∈ c.handleRequest none name false none) :
    n = name ∧ c.entry .publish name ≠ [] := by
  obtain ⟨-, hn, hne⟩ := deliver_send h
  refine ⟨hn, fun hnil => hne ?_⟩
  simp [getHandles, hnil]

theorem deliver_rxCleanupState {host : String} (h : Effect.deliver i method n ∈ (c.rxCleanupState host).2) :
    method = .publish ∧ ∃ r, (c.peers .publish n).get? host = some r := by
  obtain ⟨cur, hcur, hmem⟩ := List.mem_flatMap.mp h
  obtain ⟨rfl, rfl⟩ := deliver_handlePublish hmem
  exact ⟨rfl, Option.isSome_iff_exists.mp (List.mem_filter.mp hcur).2⟩

/-- The names of what a peer announces are on its list, or allowed. -/
theorem deliver_rxPubsub {allowed : String → Bool} {txAuth : Bool} {sock : RxSock} {kind : Kind} {enabled : Bool}
    (h : Effect.deliver i method n ∈ (c.rxPubsub allowed txAuth sock kind name enabled).2.2) :
    n = name ∧ (name ∈ sock.lists kind ∨ allowed name = true) := by
  have hnotify : ∀ c' : Core, Effect.deliver i method n ∈ (if kind = .publish then c'.handlePublish none name else []) → n = name := by
    intro c' hmem
    split_ifs at hmem
    · exact (deliver_handlePublish hmem).2
    · cases hmem
  rcases rxPubsub_cases allowed txAuth c sock kind name enabled with
    ⟨-, -, -, hnil | ⟨hlist, hout⟩⟩ | ⟨-, -, -, hallowed, -, -, hnil | hout⟩ | ⟨-, -, hlist, -, -, hout⟩
  · rw [hnil] at h
    cases h
  · rw [hout] at h
    exact ⟨hnotify _ h, Or.inl hlist⟩
  · rw [hnil] at h
    cases h
  · rw [hout] at h
    exact ⟨hnotify _ h, Or.inr hallowed⟩
  · rw [hout] at h
    exact ⟨hnotify _ h, Or.inl hlist⟩

/-! ### Local clients leave the tables of the peers -/

theorem remote_clientPubsub (wildcard : String → String → Bool → Bool) (c : Core) (kind : Kind) (i : Nat) (names : List String) :
    (c.clientPubsub wildcard kind i names).1.remote = c.remote := by
  unfold clientPubsub
  cases c.clients i with
  | none => rfl
  | some cl =>
    dsimp only
    split_ifs
    · refine (collect_induct (P := fun c' : Core => c'.remote = c.remote) (Q := fun _ => True) rfl fun c' name _ h => ⟨?_, fun _ _ => trivial⟩).1
      rcases clientAdd_cases kind i c' name with heq | ⟨cl', -, -, heq⟩
      · rw [heq]
        exact h
      · rw [heq]
        exact h
    · rfl

theorem remote_clientDisconnect (c : Core) (i : Nat) : (c.clientDisconnect i).1.remote = c.remote := by
  have hloop : ∀ kind (c : Core) (l : Obj Handle), (collect (clientDel kind) c l).1.remote = c.remote := by
    intro kind c l
    exact (collect_induct (P := fun c' : Core => c'.remote = c.remote) (Q := fun _ => True) rfl fun c' e _ h => ⟨h, fun _ _ => trivial⟩).1
  unfold clientDisconnect
  cases c.clients i with
  | none => rfl
  | some cl => exact (hloop .subscribe _ _).trans (hloop .publish _ _)

end Core

/-! ### Confinement -/

/-- The configuration gives the peer these patterns. -/
def Daemon.Restricted (d : Daemon) (network host : String) (ps : List String) : Prop :=
  ∃ p, d.peer network host = some p ∧ p.allowed = some ps

section
variable (wildcard : String → String → Bool → Bool)

/-- A published name that goes with a channel of this host. Where this peer published it, it is allowed. -/
def Withdrawn (d : Daemon) (sock : RxSock) (name : String) : Prop :=
  ∃ r, (d.core.peers .publish name).get? sock.name = some r ∧
    (r.network = sock.network → ∀ ps, d.Restricted sock.network sock.name ps → nameAllowed wildcard ps name = true)

/-- What an event of a peer makes local clients get: for an authenticated peer names that its patterns allow, for another
    connection nothing but names that a successful authentication withdraws. -/
def Confined (d : Daemon) (e : DaemonEvent) : Prop :=
  ∀ i method name, Effect.deliver i method name ∈ (d.step wildcard e).2 →
    match e with
    | .rx c req => ∀ sock, d.rxSocks c = some sock →
      if sock.auth = true then ∀ ps, d.Restricted sock.network sock.name ps → nameAllowed wildcard ps name = true
      else req = .auth true ∧ method = .publish ∧ Withdrawn wildcard d sock name
    | .rxDisconnect c => ∀ sock, d.rxSocks c = some sock → sock.auth = true ∧ method = .publish ∧ Withdrawn wildcard d sock name
    | .txReply c _ => ∀ sock, d.txSocks c = some sock →
      ∀ ps, d.Restricted sock.network sock.name ps → nameAllowed wildcard ps name = true
    | _ => True

/-- A peer with patterns sends a message or a request under a name that they allow or that no local client has, and no peer
    comes back to a channel with names that its patterns do not allow. -/
def Allowed (d : Daemon) : DaemonEvent → Prop
  | .rx c (.message name) => ∀ sock ps, d.rxSocks c = some sock → sock.auth = true → d.Restricted sock.network sock.name ps →
    nameAllowed wildcard ps name = true ∨ d.core.entry .subscribe name = []
  | .rx c (.request name) => ∀ sock ps, d.rxSocks c = some sock → sock.auth = true → d.Restricted sock.network sock.name ps →
    nameAllowed wildcard ps name = true ∨ d.core.entry .publish name = []
  | .networkUpdate data _ => ∀ e ∈ data.networks, ComesBack wildcard d e
  | _ => True

def AlwaysAllowed : Daemon → List DaemonEvent → Prop
  | _, [] => True
  | d, e :: l => Allowed wildcard d e ∧ AlwaysAllowed (d.step wildcard e).1 l

end

section
variable {wildcard : String → String → Bool → Bool} {d : Daemon}

theorem DaemonOk.start (acl : Kind → Obj (List String)) : DaemonOk wildcard (Daemon.start acl) := by
  refine ⟨fun _ _ => rfl, fun c sock hs => ?_, fun n x c hc => ?_, fun c sock hs => ?_, fun c sock hs => ?_, fun k x y r hr => ?_⟩
  · cases hs
  · cases hc
  · cases hs
  · cases hs
  · cases hr

/-- What the requests on outgoing connections and of local clients leave. -/
theorem same_step (wildcard : String → String → Bool → Bool) (d : Daemon) {e : DaemonEvent}
    (he : match e with
      | .accept .. | .rx .. | .rxDisconnect _ | .rxTimeout _ | .connectPeers .. | .networkUpdate .. => False
      | _ => True) : SameRx d (d.step wildcard e).1 := by
  have hlocal : ∀ core : Core, core.remote = d.core.remote → SameRx d { d with core } := fun core hcore =>
    ⟨rfl, hcore, Nat.le_refl _, fun _ => rfl, fun _ _ => rfl⟩
  cases e with
  | client i user group =>
    simp only [Daemon.step]
    split_ifs
    · exact .refl d
    · exact hlocal _ rfl
  | clientPubsub kind i names => exact hlocal _ (Core.remote_clientPubsub wildcard d.core kind i names)
  | clientRequest method i name host => exact .refl d
  | clientDisconnect i => exact hlocal _ (Core.remote_clientDisconnect d.core i)
  | acl acl => exact hlocal _ rfl
  | txRequest c hello token =>
    simp only [Daemon.step, txRequest]
    split_ifs
    · exact .refl d
    · exact .refl d
    · exact same_txSocketClose d c
  | txReply c valid =>
    simp only [Daemon.step, txReply]
    cases d.txSocks c with
    | none => exact .refl d
    | some sock =>
      dsimp only
      split_ifs
      · exact .refl d
      · exact ⟨rfl, rfl, Nat.le_refl _, fun _ => rfl, fun _ _ => rfl⟩
  | txDisconnect c => exact same_txSocketClose d c
  | _ => exact he.elim

theorem DaemonOk.step (h : DaemonOk wildcard d) {w : String → String → Bool → Bool}
    (hw : ∀ ps x, nameAllowed w ps x = true → nameAllowed wildcard ps x = true) {e : DaemonEvent}
    (hback : ∀ data listen, e = .networkUpdate data listen → ∀ x ∈ data.networks, ComesBack wildcard d x) :
    DaemonOk wildcard (d.step w e).1 := by
  cases e with
  | accept network address => exact h.accept network address
  | rx c req => exact h.rxRequest hw c req
  | rxDisconnect c => exact h.rxSocketClose c
  | rxTimeout c => exact h.rxTimeout c
  | connectPeers network socket => exact h.connectPeers network socket
  | networkUpdate data listen => exact h.unetdNetworkUpdate data listen (hback data listen rfl)
  | _ => exact h.same (same_step w d trivial)

/-- The tables name a peer only under names that its patterns allow. -/
theorem DaemonOk.withdrawn (h : DaemonOk wildcard d) {sock : RxSock} {name : String} {r : Remote}
    (hr : (d.core.peers .publish name).get? sock.name = some r) : Withdrawn wildcard d sock name := by
  refine ⟨r, hr, fun hnetwork ps ⟨p, hp, hps⟩ => ?_⟩
  obtain ⟨c, sock', hs, -, hname', hnetwork', hmem⟩ := h.entries .publish name sock.name r hr
  rw [← hname', ← hnetwork, ← hnetwork'] at hp
  exact h.listed c sock' hs p ps hp hps .publish name hmem

theorem DaemonOk.confined_close (h : DaemonOk wildcard d) {c : Nat} {sock : RxSock} (hs : d.rxSocks c = some sock) {i : Nat}
    {method : Method} {name : String} (hmem : Effect.deliver i method name ∈ (d.rxSocketClose c).2) :
    sock.auth = true ∧ method = .publish ∧ Withdrawn wildcard d sock name := by
  cases ha : sock.auth with
  | false =>
    rw [rxSocketClose_unauth h hs ha] at hmem
    cases hmem
  | true =>
    rw [(rxSocketClose_auth h hs ha).1] at hmem
    obtain ⟨hmethod, r, hr⟩ := Core.deliver_rxCleanupState hmem
    exact ⟨rfl, hmethod, h.withdrawn hr⟩

/-- What an authentication withdraws, also from an older channel. -/
theorem DaemonOk.confined_checkAuth (h : DaemonOk wildcard d) {c : Nat} {sock : RxSock} (hs : d.rxSocks c = some sock)
    (ha : sock.auth = false) {r : Daemon × List Effect} (hr : d.checkAuth c sock = some r) {i : Nat} {method : Method} {name : String}
    (hmem : Effect.deliver i method name ∈ r.2) : method = .publish ∧ Withdrawn wildcard d sock name := by
  obtain ⟨d₁, out₁, net₁, hclose, -, -, -, -, rfl⟩ := checkAuth_some h hs ha hr
  rcases hclose with ⟨rfl, rfl⟩ | ⟨old, hclose, hold⟩
  · rw [List.nil_append] at hmem
    obtain ⟨hmethod, x, hx⟩ := Core.deliver_rxCleanupState hmem
    exact ⟨hmethod, h.withdrawn hx⟩
  · obtain ⟨sock', hs', ha', hn', hx'⟩ := h.inUse _ _ _ hold
    obtain ⟨hout, hcore, -⟩ := rxSocketClose_auth h hs' ha'
    rw [hclose] at hout hcore
    dsimp only at hout hcore
    rcases List.mem_append.mp hmem with hmem | hmem
    · rw [hout, hx'] at hmem
      obtain ⟨hmethod, x, hx⟩ := Core.deliver_rxCleanupState hmem
      exact ⟨hmethod, h.withdrawn hx⟩
    · obtain ⟨hmethod, x, hx⟩ := Core.deliver_rxCleanupState hmem
      -- the older channel's names are already gone
      rw [hcore, Core.peers_rxCleanupState, hx', Obj.get?_del, if_pos rfl] at hx
      cases hx

theorem DaemonOk.confined_rx (h : DaemonOk wildcard d) {c : Nat} {req : RxRequest} (hallowed : Allowed wildcard d (.rx c req)) :
    Confined wildcard d (.rx c req) := by
  intro i method name hmem sock hs
  simp only [Daemon.step, Daemon.rxRequest, hs] at hmem
  cases ha : sock.auth with
  | true =>
    rw [if_pos rfl]
    rintro ps ⟨p, hp, hps⟩
    rw [ha, if_pos rfl] at hmem
    unfold socketHandleRequest at hmem
    cases hnet : d.networks.get? sock.network with
    | none =>
      rw [hnet] at hmem
      cases hmem
    | some net =>
      rw [hnet] at hmem
      cases req with
      | hello => cases hmem
      | auth valid => cases hmem
      | other => cases hmem
      | pubsub kind x enabled =>
        obtain ⟨rfl, hlist | hok⟩ := Core.deliver_rxPubsub hmem
        · exact h.listed c sock hs p ps hp hps kind name hlist
        · exact nameAllowed_of_allows hnet hok hp hps
      | request x =>
        obtain ⟨rfl, hne⟩ := Core.deliver_handleRequest hmem
        exact (hallowed sock ps hs ha ⟨p, hp, hps⟩).resolve_right hne
      | message x =>
        obtain ⟨rfl, hne⟩ := Core.deliver_handleMessage hmem
        exact (hallowed sock ps hs ha ⟨p, hp, hps⟩).resolve_right hne
  | false =>
    rw [if_neg Bool.false_ne_true]
    rw [ha, if_neg Bool.false_ne_true] at hmem
    -- all but a token that is valid closes the connection, which is in no table
    have hclose : Effect.deliver i method name ∉ (d.rxSocketClose c).2 := by
      intro hmem
      have := (h.confined_close hs hmem).1
      rw [ha] at this
      cases this
    cases req with
    | hello => cases hmem
    | other => exact absurd hmem hclose
    | pubsub kind x enabled => exact absurd hmem hclose
    | request x => exact absurd hmem hclose
    | message x => exact absurd hmem hclose
    | auth valid =>
      cases valid with
      | false => exact absurd hmem hclose
      | true =>
        dsimp only at hmem
        cases hr : d.checkAuth c sock with
        | none =>
          rw [hr] at hmem
          exact absurd hmem hclose
        | some r =>
          rw [hr] at hmem
          exact ⟨rfl, h.confined_checkAuth hs ha hr hmem⟩

theorem DaemonOk.confined_txReply (h : DaemonOk wildcard d) (c : Nat) (valid : Bool) : Confined wildcard d (.txReply c valid) := by
  rintro i method name hmem sock hs ps ⟨p, hp, hps⟩
  simp only [Daemon.step, Daemon.txReply, hs] at hmem
  split_ifs at hmem
  · cases hmem
  · obtain ⟨x, hx, hmem⟩ := List.mem_flatMap.mp hmem
    obtain ⟨-, rfl⟩ := Core.deliver_handlePublish hmem
    cases hrx : (d.rxChannels sock.network).get? sock.name with
    | none =>
      rw [hrx] at hx
      cases hx
    | some c' =>
      obtain ⟨sock', hs', -, hn, hname⟩ := h.inUse _ _ _ hrx
      rw [hrx, Option.bind_some, hs'] at hx
      exact h.listed c' sock' hs' p ps (by rw [hn, hname, hp]) hps .publish name hx

theorem DaemonOk.confined (h : DaemonOk wildcard d) {e : DaemonEvent} (hallowed : Allowed wildcard d e) : Confined wildcard d e := by
  cases e with
  | rx c req => exact h.confined_rx hallowed
  | rxDisconnect c => exact fun i method name hmem sock hs => h.confined_close hs hmem
  | txReply c valid => exact h.confined_txReply c valid
  | _ => exact fun _ _ _ _ => trivial

theorem DaemonOk.run (h : DaemonOk wildcard d) {events : List DaemonEvent} {e : DaemonEvent}
    (hallowed : AlwaysAllowed wildcard d (events ++ [e])) :
    DaemonOk wildcard (d.run wildcard events) ∧ Allowed wildcard (d.run wildcard events) e := by
  induction events generalizing d with
  | nil => exact ⟨h, hallowed.1⟩
  | cons e' events ih =>
    refine ih (h.step (fun _ _ => id) fun data listen heq => ?_) hallowed.2
    rw [heq] at hallowed
    exact hallowed.1

end

/-- In a run where peers with patterns send messages and requests only under names that these allow or that no local client
    has, all that a peer makes local clients get is confined. -/
theorem remote_confined (wildcard : String → String → Bool → Bool) (acl : Kind → Obj (List String)) (events : List DaemonEvent)
    (e : DaemonEvent) (hallowed : AlwaysAllowed wildcard (Daemon.start acl) (events ++ [e])) :
    Confined wildcard ((Daemon.start acl).run wildcard events) e := by
  obtain ⟨hok, he⟩ := (DaemonOk.start acl).run hallowed
  exact hok.confined he

/-! ### A network with one peer, which has one pattern -/

/-- The match of patterns without wildcards. -/
def literally (name pattern : String) (_ : Bool) : Bool := name = pattern

def onePeer : NetData where
  networks := [("net", {
    localHost := some "me"
    localAddress := "fd00::1"
    peers := [("peer", "fd00::2")]
    services := [("msg", { type := "unetmsg", members := ["me", "peer"], allowed := some ["a"] })] })]
  nodup := by decide

/-- The peer is authenticated, and a local client has a name. -/
def onePeerEvents (name : String) : List DaemonEvent :=
  [.networkUpdate onePeer fun _ => true, .client 0 "root" none, .clientPubsub .subscribe 0 [name], .accept "net" "fd00::2", .rx 0 (.auth true)]

theorem onePeer_comesBack (acl : Kind → Obj (List String)) : ∀ e ∈ onePeer.networks, ComesBack literally (Daemon.start acl) e :=
  fun _ _ _ _ _ hc => nomatch hc

/-- A message under a name that the pattern allows. -/
theorem remote_confined_message : Effect.deliver 0 .message "a" ∈
      (((Daemon.start fun _ => []).run literally (onePeerEvents "a")).step literally (.rx 0 (.message "a"))).2 ∧
    Confined literally ((Daemon.start fun _ => []).run literally (onePeerEvents "a")) (.rx 0 (.message "a")) := by
  refine ⟨List.mem_singleton_self _, remote_confined literally (fun _ => []) (onePeerEvents "a") (.rx 0 (.message "a"))
    ⟨onePeer_comesBack _, trivial, trivial, trivial, trivial, ?_, trivial⟩⟩
  rintro sock ps hs - ⟨p, hp, hps⟩
  cases hs
  cases hp
  cases hps
  exact Or.inl (by decide)

/-- A message under a name that the pattern does not allow gets to the local client. -/
theorem remote_message_unchecked :
    ¬Confined literally ((Daemon.start fun _ => []).run literally (onePeerEvents "secret")) (.rx 0 (.message "secret")) := by
  intro h
  have hmem : Effect.deliver 0 .message "secret" ∈
      (((Daemon.start fun _ => []).run literally (onePeerEvents "secret")).step literally (.rx 0 (.message "secret"))).2 :=
    List.mem_singleton_self _
  have hnot := h 0 .message "secret" hmem { network := "net", name := "peer", auth := true } rfl ["a"] ⟨_, rfl, rfl⟩
  exact absurd hnot (by decide)

end RainWrt.Unetmsg
