import RainWrt.Theorems.Unetmsg.Confined

/-! Networks of one daemon. The tables of the peers have one entry for each host name, whatever its network, so an event on a
    connection of one network may take or replace an entry of another. -/

namespace RainWrt.Unetmsg
open Daemon

/-! ### Entries of the peers -/

/-- The entries have the names under which they stand, each once. -/
def Core.Keyed (c : Core) : Prop := ∀ k x, (c.peers k x).keys.Nodup ∧ ∀ e ∈ c.peers k x, e.2.name = e.1

theorem Core.Keyed.rxCleanupState {c : Core} (h : c.Keyed) (host : String) : (c.rxCleanupState host).1.Keyed := by
  intro k x
  rw [Core.peers_rxCleanupState]
  obtain ⟨hnodup, hname⟩ := h k x
  exact ⟨Obj.nodup_del hnodup host, fun e he => hname e (List.mem_of_mem_filter he)⟩

theorem Core.Keyed.rxPubsub {c : Core} (h : c.Keyed) (allowed : String → Bool) (txAuth : Bool) (sock : RxSock) (kind : Kind)
    (name : String) (enabled : Bool) : (c.rxPubsub allowed txAuth sock kind name enabled).1.Keyed := by
  intro k x
  obtain ⟨hnodup, hname⟩ := h k x
  rcases Core.rxPubsub_cases allowed txAuth c sock kind name enabled with
    ⟨hcore, -⟩ | ⟨-, -, -, -, hcore, -⟩ | ⟨-, -, -, hcore, -⟩
  · rw [hcore]
    exact h k x
  · rw [hcore, Core.peers_update]
    split_ifs with hkx
    · obtain ⟨rfl, rfl⟩ := hkx
      refine ⟨Obj.nodup_set hnodup _ _, fun e he => ?_⟩
      rcases Obj.mem_set he with he | rfl
      · exact hname e he
      · rfl
    · exact h k x
  · rw [hcore, Core.peers_update]
    split_ifs with hkx
    · obtain ⟨rfl, rfl⟩ := hkx
      exact ⟨Obj.nodup_del hnodup _, fun e he => hname e (List.mem_of_mem_filter he)⟩
    · exact h k x

theorem Core.Keyed.rxSocketClose {d : Daemon} (h : d.core.Keyed) (c : Nat) : (d.rxSocketClose c).1.core.Keyed := by
  unfold Daemon.rxSocketClose
  cases d.rxSocks c with
  | none => exact h
  | some sock =>
    dsimp only
    cases d.networks.get? sock.network with
    | none => exact h
    | some net =>
      dsimp only
      split_ifs
      · exact h.rxCleanupState sock.name
      · exact h

theorem Core.Keyed.same {d d' : Daemon} (h : d.core.Keyed) (hs : SameRx d d') : d'.core.Keyed := by
  intro k x
  unfold Core.peers
  rw [hs.remote]
  exact h k x

theorem Core.Keyed.rxRequest {d : Daemon} (h : d.core.Keyed) (wildcard : String → String → Bool → Bool) (c : Nat) (req : RxRequest) :
    (d.rxRequest wildcard c req).1.core.Keyed := by
  unfold Daemon.rxRequest
  cases d.rxSocks c with
  | none => exact h
  | some sock =>
    dsimp only
    split_ifs
    · unfold socketHandleRequest
      cases d.networks.get? sock.network with
      | none => exact h
      | some net =>
        cases req with
        | pubsub kind name enabled => exact h.rxPubsub _ _ sock kind name enabled
        | _ => exact h
    · cases req with
      | hello => exact h
      | auth valid =>
        cases valid with
        | false => exact h.rxSocketClose c
        | true =>
          dsimp only
          cases hr : d.checkAuth c sock with
          | none => exact h.rxSocketClose c
          | some r =>
            unfold checkAuth at hr
            cases hnet : d.networks.get? sock.network with
            | none =>
              rw [hnet] at hr
              cases hr
            | some net =>
              rw [hnet] at hr
              dsimp only at hr
              split_ifs at hr
              cases hr
              have hold : (d.rxChannelClose sock.network sock.name).1.core.Keyed :=
                keeps_rxChannelClose (P := fun d => d.core.Keyed) (fun d c hd => hd.rxSocketClose c) h sock.network sock.name
              exact hold.rxCleanupState sock.name
      | _ => exact h.rxSocketClose c

theorem keyed_run (wildcard : String → String → Bool → Bool) {d : Daemon} (h : d.core.Keyed) (events : List DaemonEvent) :
    (d.run wildcard events).core.Keyed := by
  have hclose : ∀ (d : Daemon) c, d.core.Keyed → (d.rxSocketClose c).1.core.Keyed := fun d c hd => hd.rxSocketClose c
  induction events generalizing d with
  | nil => exact h
  | cons e events ih =>
    refine ih ?_
    cases e with
    | accept network address =>
      simp only [Daemon.step, accept]
      cases d.networks.get? network with
      | none => exact h
      | some net =>
        dsimp only
        cases (net.peers.filter (·.2.address = address)).getLast? with
        | none => exact h
        | some x =>
          dsimp only
          split_ifs
          · exact h
          · exact h
    | rx c req => exact h.rxRequest wildcard c req
    | rxDisconnect c => exact h.rxSocketClose c
    | rxTimeout c =>
      simp only [Daemon.step, rxTimeout]
      split_ifs
      · exact h
      · exact h
    | connectPeers network socket =>
      exact keeps_connectPeers (P := fun d => d.core.Keyed) (fun d c hd => hd.same (same_txSocketClose d c))
        (fun d n x socket hd => hd.same (same_openSocket d n x socket)) hclose h network socket
    | networkUpdate data listen =>
      exact keeps_unetdNetworkUpdate (P := fun d => d.core.Keyed) (fun d c hd => hd.same (same_txSocketClose d c)) hclose (fun _ _ _ hd => hd) h
        data listen
    | _ => exact h.same (same_step wildcard d trivial)

/-- The patterns of this match allow all names. -/
def anyName (_ _ : String) (_ : Bool) : Bool := true

/-- All invariants but the one about patterns hold in every run. -/
theorem ok_run (wildcard : String → String → Bool → Bool) {d : Daemon} (h : DaemonOk anyName d) (events : List DaemonEvent) :
    DaemonOk anyName (d.run wildcard events) := by
  have hany : ∀ ps x, ps ≠ [] → nameAllowed anyName ps x = true := by
    intro ps x hne
    obtain ⟨p, l, rfl⟩ := List.exists_cons_of_ne_nil hne
    rfl
  induction events generalizing d with
  | nil => exact h
  | cons e events ih =>
    refine ih (h.step (fun ps x hx => hany ps x ?_) fun data listen _ e' _ x c sock _ _ _ p ps hp hps k name _ => hany ps name ?_)
    · rintro rfl
      cases hx
    · -- a peer with patterns has at least one
      rintro rfl
      have hmem := Obj.mem_of_get? hp
      unfold NetInfo.checkPeers at hmem
      dsimp only at hmem
      split_ifs at hmem
      · obtain ⟨y, -, heq⟩ := List.mem_map.mp hmem
        rw [← (Prod.mk.inj heq).2] at hps
        cases hps
      · obtain ⟨y, -, heq⟩ := List.mem_filterMap.mp hmem
        split_ifs at heq with hne
        cases heq
        exact hne (Option.some.inj hps)

/-! ### Isolation -/

/-- No entry under the host name is one of another network. -/
def Daemon.Own (d : Daemon) (network host : String) : Prop := ∀ k x r, (d.core.peers k x).get? host = some r → r.network = network

section
variable (wildcard : String → String → Bool → Bool)

/-- An event on a connection leaves the entries that peers of other networks have made. -/
def Isolated (d : Daemon) (e : DaemonEvent) : Prop :=
  match e with
  | .rx c _ | .rxDisconnect c | .rxTimeout c => ∀ sock, d.rxSocks c = some sock → ∀ k x h r, r.network ≠ sock.network →
    ((d.core.peers k x).get? h = some r ↔ ((d.step wildcard e).1.core.peers k x).get? h = some r)
  | _ => True

/-- An announcement that is taken is applied to the tables. -/
def Applied (net : Net) (sock : RxSock) (kind : Kind) (name : String) (enabled : Bool) : Prop :=
  name ≠ "" ∧ if enabled = true then name ∉ sock.lists kind ∧ net.allows wildcard sock.name name = true else name ∈ sock.lists kind

/-- Under the host name of the connection, what the event sets or removes is not an entry of another network. -/
def NoClash (d : Daemon) : DaemonEvent → Prop
  | .rx c (.pubsub kind name enabled) => ∀ sock net, d.rxSocks c = some sock → sock.auth = true →
    d.networks.get? sock.network = some net → Applied wildcard net sock kind name enabled →
    ∀ r, (d.core.peers kind name).get? sock.name = some r → r.network = sock.network
  | .rx c (.auth true) => ∀ sock, d.rxSocks c = some sock → sock.auth = false → d.peer sock.network sock.name ≠ none →
    d.Own sock.network sock.name
  | .rxDisconnect c => ∀ sock, d.rxSocks c = some sock → sock.auth = true → d.Own sock.network sock.name
  | _ => True

end

section
variable {wildcard w : String → String → Bool → Bool} {d : Daemon}

/-- The names of a host are withdrawn. -/
theorem isolated_cleanup {network host : String} :
    (∀ k x h r, r.network ≠ network →
      ((d.core.peers k x).get? h = some r ↔ ((d.core.peers k x).del host).get? h = some r)) ↔ d.Own network host := by
  constructor
  · intro h k x r hr
    by_contra hne
    have hnone := (h k x host r hne).mp hr
    rw [Obj.get?_del, if_pos rfl] at hnone
    cases hnone
  · intro h k x y r hne
    rw [Obj.get?_del]
    split_ifs with hy
    · subst hy
      exact ⟨fun hr => absurd (h k x r hr) hne, nofun⟩
    · exact Iff.rfl

theorem isolated_close (h : DaemonOk w d) {c : Nat} {sock : RxSock} (hs : d.rxSocks c = some sock) :
    (∀ k x y r, r.network ≠ sock.network →
      ((d.core.peers k x).get? y = some r ↔ ((d.rxSocketClose c).1.core.peers k x).get? y = some r)) ↔
    (sock.auth = true → d.Own sock.network sock.name) := by
  cases ha : sock.auth with
  | false =>
    rw [rxSocketClose_unauth h hs ha]
    exact ⟨fun _ => nofun, fun _ _ _ _ _ _ => Iff.rfl⟩
  | true =>
    simp only [(rxSocketClose_auth h hs ha).2.1, Core.peers_rxCleanupState, isolated_cleanup, forall_const]

theorem isolated_pubsub {allowed : String → Bool} {txAuth : Bool} {sock : RxSock} {kind : Kind} {name : String} {enabled : Bool} :
    (∀ k x y r, r.network ≠ sock.network → ((d.core.peers k x).get? y = some r ↔
      ((d.core.rxPubsub allowed txAuth sock kind name enabled).1.peers k x).get? y = some r)) ↔
    (name ≠ "" ∧ (if enabled = true then name ∉ sock.lists kind ∧ allowed name = true else name ∈ sock.lists kind) →
      ∀ r, (d.core.peers kind name).get? sock.name = some r → r.network = sock.network) := by
  rcases Core.rxPubsub_cases allowed txAuth d.core sock kind name enabled with
    ⟨hcore, -, hnot, -⟩ | ⟨hname, henabled, hlist, hallowed, hcore, -⟩ | ⟨hname, henabled, hlist, hcore, -⟩
  · refine ⟨fun _ happlied => ?_, fun _ k x y r _ => by rw [hcore]⟩
    rcases hnot with hnot | ⟨rfl, hnot⟩ | ⟨rfl, hnot⟩
    · exact absurd hnot happlied.1
    · rw [if_pos rfl] at happlied
      rcases hnot with hnot | hnot
      · exact absurd hnot happlied.2.1
      · rw [happlied.2.2] at hnot
        cases hnot
    · rw [if_neg Bool.false_ne_true] at happlied
      exact absurd happlied.2 hnot
  · simp only [hcore, Core.peers_update]
    constructor
    · intro h _ r hr
      by_contra hne
      have hset := (h kind name sock.name r hne).mp hr
      rw [if_pos ⟨rfl, rfl⟩, Obj.get?_set_self] at hset
      cases hset
      exact hne rfl
    · intro h k x y r hne
      split_ifs with hkx
      · obtain ⟨rfl, rfl⟩ := hkx
        rw [Obj.get?_set]
        split_ifs with hy
        · subst hy
          constructor
          · intro hr
            exact absurd (h ⟨hname, by rw [if_pos henabled]; exact ⟨hlist, hallowed⟩⟩ r hr) hne
          · intro hr
            cases hr
            exact absurd rfl hne
        · exact Iff.rfl
      · exact Iff.rfl
  · simp only [hcore, Core.peers_update]
    constructor
    · intro h _ r hr
      by_contra hne
      have hdel := (h kind name sock.name r hne).mp hr
      rw [if_pos ⟨rfl, rfl⟩, Obj.get?_del, if_pos rfl] at hdel
      cases hdel
    · intro h k x y r hne
      split_ifs with hkx
      · obtain ⟨rfl, rfl⟩ := hkx
        rw [Obj.get?_del]
        split_ifs with hy
        · subst hy
          refine ⟨fun hr => ?_, nofun⟩
          exact absurd (h ⟨hname, by rw [if_neg (by rw [henabled]; exact Bool.false_ne_true)]; exact hlist⟩ r hr) hne
        · exact Iff.rfl
      · exact Iff.rfl

/-- A channel that is taken: the names of the host are withdrawn, also those of an older channel. -/
theorem peers_checkAuth (h : DaemonOk w d) {c : Nat} {sock : RxSock} (hs : d.rxSocks c = some sock) (ha : sock.auth = false)
    {r : Daemon × List Effect} (hr : d.checkAuth c sock = some r) (k : Kind) (x : String) :
    r.1.core.peers k x = (d.core.peers k x).del sock.name := by
  obtain ⟨d₁, out₁, net₁, hclose, -, -, -, -, rfl⟩ := checkAuth_some h hs ha hr
  dsimp only
  rw [Core.peers_rxCleanupState]
  rcases hclose with ⟨rfl, rfl⟩ | ⟨old, hclose, hold⟩
  · rfl
  · obtain ⟨sock', hs', ha', -, hx'⟩ := h.inUse _ _ _ hold
    have hcore := (rxSocketClose_auth h hs' ha').2.1
    rw [hclose] at hcore
    dsimp only at hcore
    rw [hcore, Core.peers_rxCleanupState, hx']
    exact List.filter_filter.trans (List.filter_congr fun e _ => Bool.and_self _)

theorem checkAuth_ne_none {c : Nat} {sock : RxSock} : d.checkAuth c sock ≠ none ↔ d.peer sock.network sock.name ≠ none := by
  unfold checkAuth
  cases hnet : d.networks.get? sock.network with
  | none => simp [peer, hnet]
  | some net =>
    rw [peer_of hnet]
    dsimp only
    split_ifs with hpeer
    · simp [hpeer]
    · simp [hpeer]

theorem isolated_rx (h : DaemonOk w d) (c : Nat) (req : RxRequest) :
    Isolated wildcard d (.rx c req) ↔ NoClash wildcard d (.rx c req) := by
  unfold Isolated
  simp only [Daemon.step, Daemon.rxRequest]
  cases hs : d.rxSocks c with
  | none =>
    refine ⟨fun _ => ?_, fun _ _ h => by cases h⟩
    cases req with
    | auth valid =>
      cases valid with
      | true => exact fun sock hs' => by rw [hs] at hs'; cases hs'
      | false => exact trivial
    | pubsub kind name enabled => exact fun sock net hs' => by rw [hs] at hs'; cases hs'
    | _ => exact trivial
  | some sock =>
    simp only [Option.some.injEq, forall_eq']
    cases ha : sock.auth with
    | true =>
      rw [if_pos rfl]
      unfold socketHandleRequest
      cases hnet : d.networks.get? sock.network with
      | none =>
        refine ⟨fun _ => ?_, fun _ _ _ _ _ _ => Iff.rfl⟩
        have hused := h.used c sock hs ha
        simp [rxChannels, hnet] at hused
      | some net =>
        cases req with
        | pubsub kind name enabled =>
          refine isolated_pubsub.trans ⟨fun hiso sock' net' hs' _ hnet' => ?_, fun hclash => hclash sock net hs ha hnet⟩
          rw [hs] at hs'
          cases hs'
          rw [hnet] at hnet'
          cases hnet'
          exact hiso
        | auth valid =>
          refine ⟨fun _ => ?_, fun _ _ _ _ _ _ => Iff.rfl⟩
          cases valid with
          | false => exact trivial
          | true =>
            intro sock' hs' ha'
            rw [hs] at hs'
            cases hs'
            rw [ha] at ha'
            cases ha'
        | _ => exact ⟨fun _ => trivial, fun _ _ _ _ _ _ => Iff.rfl⟩
    | false =>
      rw [if_neg Bool.false_ne_true]
      have hclose := isolated_close h hs
      rw [ha] at hclose
      replace hclose := hclose.mpr fun h => by cases h
      cases req with
      | hello => exact ⟨fun _ => trivial, fun _ _ _ _ _ _ => Iff.rfl⟩
      | pubsub kind name enabled =>
        refine ⟨fun _ sock' net hs' ha' => ?_, fun _ => hclose⟩
        rw [hs] at hs'
        cases hs'
        rw [ha] at ha'
        cases ha'
      | auth valid =>
        cases valid with
        | false => exact ⟨fun _ => trivial, fun _ => hclose⟩
        | true =>
          have hclash : NoClash wildcard d (.rx c (.auth true)) ↔
              (d.peer sock.network sock.name ≠ none → d.Own sock.network sock.name) := by
            simp only [NoClash, hs, Option.some.injEq, forall_eq', ha, forall_const]
          rw [hclash]
          dsimp only
          cases hr : d.checkAuth c sock with
          | none =>
            refine ⟨fun _ hpeer => absurd hr (checkAuth_ne_none.mpr hpeer), fun _ => hclose⟩
          | some r =>
            have hpeer : d.peer sock.network sock.name ≠ none := checkAuth_ne_none.mp (by rw [hr]; exact Option.some_ne_none r)
            simp only [Option.getD_some, peers_checkAuth h hs ha hr, isolated_cleanup, ne_eq, hpeer, not_false_eq_true, forall_const]
      | _ => exact ⟨fun _ => trivial, fun _ => hclose⟩

theorem isolated_iff (h : DaemonOk w d) (e : DaemonEvent) : Isolated wildcard d e ↔ NoClash wildcard d e := by
  cases e with
  | rx c req => exact isolated_rx h c req
  | rxDisconnect c =>
    constructor
    · intro hiso sock hs
      exact (isolated_close h hs).mp (hiso sock hs)
    · intro hclash sock hs
      exact (isolated_close h hs).mpr (hclash sock hs)
  | rxTimeout c =>
    refine ⟨fun _ => trivial, fun _ sock hs k x y r _ => ?_⟩
    simp only [Daemon.step, rxTimeout]
    split_ifs <;> exact Iff.rfl
  | _ => exact Iff.rfl

end

/-! ### Forwarding -/

/-- The peer is subscribed to the name: it is on the list of its channel in that network. -/
def Subscribed (d : Daemon) (name : String) (r : Remote) : Prop :=
  ∃ c sock, d.rxSocks c = some sock ∧ sock.auth = true ∧ sock.network = r.network ∧ sock.name = r.name ∧ name ∈ sock.lists .subscribe

/-- What is on the list of a channel has its entry in the tables. -/
structure Told (d : Daemon) : Prop where
  entries : ∀ c sock, d.rxSocks c = some sock → sock.auth = true → ∀ k, ∀ x ∈ sock.lists k,
    (d.core.peers k x).get? sock.name = some { network := sock.network, name := sock.name }
  unique : ∀ c c' sock sock', d.rxSocks c = some sock → sock.auth = true → d.rxSocks c' = some sock' → sock'.auth = true →
    sock.network = sock'.network → sock.name = sock'.name → c = c'

/-- No channel in use has an entry of another network under its host name. -/
def Daemon.AllOwn (d : Daemon) : Prop := ∀ n x c, (d.rxChannels n).get? x = some c → d.Own n x

section
variable (wildcard : String → String → Bool → Bool)

/-- No event takes an entry of another network; while networks change, channels may be closed. -/
def Calm (d : Daemon) (e : DaemonEvent) : Prop :=
  NoClash wildcard d e ∧
    match e with
    | .connectPeers .. | .networkUpdate .. => d.AllOwn
    | _ => True

def AlwaysCalm : Daemon → List DaemonEvent → Prop
  | _, [] => True
  | d, e :: l => Calm wildcard d e ∧ AlwaysCalm (d.step wildcard e).1 l

end

section
variable {wildcard w : String → String → Bool → Bool} {d d' : Daemon}

theorem Told.same (h : Told d) (hs : SameRx d d') : Told d' := by
  refine ⟨fun c sock hc ha k x hx => ?_, fun c c' sock sock' hc ha hc' ha' => ?_⟩
  · rw [hs.socks] at hc
    unfold Core.peers
    rw [hs.remote]
    exact h.entries c sock hc ha k x hx
  · rw [hs.socks] at hc hc'
    exact h.unique c c' sock sock' hc ha hc' ha'

/-- The connections change in what is not authenticated only. -/
theorem Told.socks {rxSocks : Nat → Option RxSock} {next : Nat} (h : Told d)
    (hold : ∀ c sock, rxSocks c = some sock → sock.auth = true → d.rxSocks c = some sock) :
    Told { d with rxSocks, nextSock := next } :=
  ⟨fun c sock hc ha => h.entries c sock (hold c sock hc ha) ha,
    fun c c' sock sock' hc ha hc' ha' => h.unique c c' sock sock' (hold c sock hc ha) ha (hold c' sock' hc' ha') ha'⟩

/-- The names of a host are withdrawn, and its channels closed. -/
theorem Told.cleanup (h : Told d) {network host : String} (hown : d.Own network host) {rxSocks : Nat → Option RxSock} {nets : Obj Net}
    (hold : ∀ c sock, rxSocks c = some sock → sock.auth = true →
      d.rxSocks c = some sock ∧ (sock.name = host → sock.network ≠ network)) :
    Told { d with core := (d.core.rxCleanupState host).1, rxSocks, networks := nets } := by
  refine ⟨fun c sock hc ha k x hx => ?_, fun c c' sock sock' hc ha hc' ha' => ?_⟩
  · obtain ⟨hs, hne⟩ := hold c sock hc ha
    have hentry := h.entries c sock hs ha k x hx
    dsimp only
    rw [Core.peers_rxCleanupState, Obj.get?_del, if_neg, hentry]
    intro heq
    rw [heq] at hentry
    exact hne heq (hown k x _ hentry)
  · exact h.unique c c' sock sock' (hold c sock hc ha).1 ha (hold c' sock' hc' ha').1 ha'

theorem Told.rxSocketClose (h : Told d) {c : Nat}
    (hown : ∀ sock, d.rxSocks c = some sock → (d.rxChannels sock.network).get? sock.name = some c → sock.auth = true → d.Own sock.network sock.name)
    (hauth : ∀ sock, d.rxSocks c = some sock → (d.rxChannels sock.network).get? sock.name = some c → sock.auth = true) :
    Told (d.rxSocketClose c).1 := by
  have hsub : ∀ c' sock', Function.update d.rxSocks c none c' = some sock' → c' ≠ c ∧ d.rxSocks c' = some sock' := by
    intro c' sock' hc'
    by_cases heq : c' = c
    · rw [heq, Function.update_self] at hc'
      cases hc'
    · rw [Function.update_of_ne heq] at hc'
      exact ⟨heq, hc'⟩
  unfold Daemon.rxSocketClose
  cases hs : d.rxSocks c with
  | none => exact h
  | some sock =>
    dsimp only
    cases hnet : d.networks.get? sock.network with
    | none => exact h.socks fun c' sock' hc' _ => (hsub c' sock' hc').2
    | some net =>
      dsimp only
      by_cases hrx : net.rx.get? sock.name = some c
      · rw [if_pos hrx]
        rw [← rxChannels_of hnet] at hrx
        have ha := hauth sock hs hrx
        refine h.cleanup (hown sock hs hrx ha) fun c' sock' hc' ha' => ?_
        obtain ⟨hne, hs'⟩ := hsub c' sock' hc'
        exact ⟨hs', fun hname hnetwork => hne (h.unique c' c sock' sock hs' ha' hs ha hnetwork hname)⟩
      · rw [if_neg hrx]
        exact h.socks fun c' sock' hc' _ => (hsub c' sock' hc').2

/-- What closing channels and changing networks keeps. -/
structure Undisturbed (d : Daemon) : Prop where
  told : Told d
  own : d.AllOwn
  auth : ∀ n x c sock, (d.rxChannels n).get? x = some c → d.rxSocks c = some sock → sock.auth = true

theorem Undisturbed.same (h : Undisturbed d) (hs : SameRx d d') : Undisturbed d' := by
  refine ⟨h.told.same hs, fun n x c hc k y r hr => ?_, fun n x c sock hc hsock => ?_⟩
  · rw [hs.rx] at hc
    unfold Core.peers at hr
    rw [hs.remote] at hr
    exact h.own n x c hc k y r hr
  · rw [hs.rx] at hc
    rw [hs.socks] at hsock
    exact h.auth n x c sock hc hsock

theorem Undisturbed.nets (h : Undisturbed d) {nets : Obj Net} (hrx : ∀ n x c,
    (({ d with networks := nets } : Daemon).rxChannels n).get? x = some c → (d.rxChannels n).get? x = some c) :
    Undisturbed { d with networks := nets } :=
  ⟨⟨h.told.entries, h.told.unique⟩, fun n x c hc => h.own n x c (hrx n x c hc), fun n x c sock hc => h.auth n x c sock (hrx n x c hc)⟩

theorem Undisturbed.rxSocketClose (h : Undisturbed d) (c : Nat) : Undisturbed (d.rxSocketClose c).1 := by
  -- there are no new connections, channels and entries
  have hfewer : (∀ c' sock, (d.rxSocketClose c).1.rxSocks c' = some sock → d.rxSocks c' = some sock) ∧
      (∀ n x c', ((d.rxSocketClose c).1.rxChannels n).get? x = some c' → (d.rxChannels n).get? x = some c') ∧
      ∀ k x y r, ((d.rxSocketClose c).1.core.peers k x).get? y = some r → (d.core.peers k x).get? y = some r := by
    have hsub : ∀ c' sock', Function.update d.rxSocks c none c' = some sock' → d.rxSocks c' = some sock' := by
      intro c' sock' hc'
      by_cases heq : c' = c
      · rw [heq, Function.update_self] at hc'
        cases hc'
      · rwa [Function.update_of_ne heq] at hc'
    unfold Daemon.rxSocketClose
    cases hs : d.rxSocks c with
    | none => exact ⟨fun _ _ => id, fun _ _ _ => id, fun _ _ _ _ => id⟩
    | some sock =>
      dsimp only
      cases hnet : d.networks.get? sock.network with
      | none => exact ⟨hsub, fun _ _ _ => id, fun _ _ _ _ => id⟩
      | some net =>
        dsimp only
        split_ifs
        · refine ⟨hsub, fun n x c' hc' => ?_, fun k x y r hr => ?_⟩
          · rw [rxChannels_set rfl d rfl] at hc'
            split_ifs at hc' with hn
            · rw [Obj.get?_del] at hc'
              split_ifs at hc'
              rw [hn, rxChannels_of hnet]
              exact hc'
            · exact hc'
          · dsimp only at hr
            rw [Core.peers_rxCleanupState, Obj.get?_del] at hr
            split_ifs at hr
            exact hr
        · exact ⟨hsub, fun _ _ _ => id, fun _ _ _ _ => id⟩
  obtain ⟨hsocks, hrx, hpeers⟩ := hfewer
  refine ⟨h.told.rxSocketClose (fun sock _ hc _ => h.own _ _ c hc) fun sock hs hc => h.auth _ _ c sock hc hs,
    fun n x c' hc' k y r hr => h.own n x c' (hrx n x c' hc') k y r (hpeers k y x r hr),
    fun n x c' sock hc' hs => h.auth n x c' sock (hrx n x c' hc') (hsocks c' sock hs)⟩

theorem DaemonOk.undisturbed (hok : DaemonOk w d) (h : Told d) (hown : d.AllOwn) : Undisturbed d := by
  refine ⟨h, hown, fun n x c sock hc hs => ?_⟩
  obtain ⟨sock', hs', ha', -⟩ := hok.inUse n x c hc
  rw [hs] at hs'
  cases hs'
  exact ha'

theorem Told.checkAuth (hok : DaemonOk w d) (h : Told d) {c : Nat} {sock : RxSock} (hs : d.rxSocks c = some sock) (ha : sock.auth = false)
    (hown : d.Own sock.network sock.name) {r : Daemon × List Effect} (hr : d.checkAuth c sock = some r) : Told r.1 := by
  obtain ⟨d₁, out₁, net₁, hclose, hok₁, hs₁, -, hfree, rfl⟩ := checkAuth_some hok hs ha hr
  have hown₁ : Told d₁ ∧ d₁.Own sock.network sock.name := by
    rcases hclose with ⟨rfl, rfl⟩ | ⟨old, hclose, hold⟩
    · exact ⟨h, hown⟩
    · obtain ⟨sock', hs', ha', hn', hx'⟩ := hok.inUse _ _ _ hold
      have hcore := (rxSocketClose_auth hok hs' ha').2.1
      have htold := h.rxSocketClose (c := old) (fun sock'' hs'' _ _ => by
        rw [hs'] at hs''
        cases hs''
        rw [hn', hx']
        exact hown) fun sock'' hs'' _ => by
        rw [hs'] at hs''
        cases hs''
        exact ha'
      rw [hclose] at hcore htold
      refine ⟨htold, fun k x r hr => ?_⟩
      dsimp only at hcore
      rw [hcore, Core.peers_rxCleanupState, hx', Obj.get?_del, if_pos rfl] at hr
      cases hr
  obtain ⟨htold, hown₁⟩ := hown₁
  refine ⟨fun c' sock' hc' ha' k x hx => ?_, fun c' c'' sock' sock'' hc' ha' hc'' ha'' hn hname => ?_⟩
  · dsimp only at hc' ⊢
    by_cases heq : c' = c
    · rw [heq, Function.update_self] at hc'
      cases hc'
      dsimp only at hx
      rw [hok₁.unauth c sock hs₁ ha k] at hx
      cases hx
    · rw [Function.update_of_ne heq] at hc'
      have hentry := htold.entries c' sock' hc' ha' k x hx
      rw [Core.peers_rxCleanupState, Obj.get?_del, if_neg, hentry]
      intro hname
      rw [hname] at hentry
      -- another channel of this host in this network would be in use
      have hused := hok₁.used c' sock' hc' ha'
      have hnetwork : sock'.network = sock.network := hown₁ k x _ hentry
      rw [hname, hnetwork, hfree] at hused
      cases hused
  · -- no other channel of this host in this network is in use
    have hnot : ∀ e s, Function.update d₁.rxSocks c (some { sock with auth := true }) e = some s → s.auth = true → s.network = sock.network →
        s.name = sock.name → e = c := by
      intro e s he hauth hsn hsname
      by_contra hne
      rw [Function.update_of_ne hne] at he
      have hused := hok₁.used e s he hauth
      rw [hsn, hsname, hfree] at hused
      cases hused
    have hself : ∀ e s, Function.update d₁.rxSocks c (some { sock with auth := true }) e = some s → e = c →
        s.network = sock.network ∧ s.name = sock.name := by
      intro e s he heq
      rw [heq, Function.update_self] at he
      cases he
      exact ⟨rfl, rfl⟩
    by_cases heq : c' = c
    · obtain ⟨hn', hname'⟩ := hself c' sock' hc' heq
      rw [heq, hnot c'' sock'' hc'' ha'' (hn ▸ hn') (hname ▸ hname')]
    · by_cases heq' : c'' = c
      · obtain ⟨hn', hname'⟩ := hself c'' sock'' hc'' heq'
        exact absurd (hnot c' sock' hc' ha' (hn.trans hn') (hname.trans hname')) heq
      · dsimp only at hc' hc''
        rw [Function.update_of_ne heq] at hc'
        rw [Function.update_of_ne heq'] at hc''
        exact htold.unique c' c'' sock' sock'' hc' ha' hc'' ha'' hn hname

theorem Told.rxPubsub (h : Told d) {c : Nat} {sock : RxSock} (hs : d.rxSocks c = some sock) (ha : sock.auth = true) {net : Net}
    {kind : Kind} {name : String} {enabled : Bool}
    (hclash : Applied wildcard net sock kind name enabled → ∀ r, (d.core.peers kind name).get? sock.name = some r → r.network = sock.network)
    (txAuth : Bool) :
    Told { d with
      core := (d.core.rxPubsub (net.allows wildcard sock.name) txAuth sock kind name enabled).1
      rxSocks := Function.update d.rxSocks c
        (some (d.core.rxPubsub (net.allows wildcard sock.name) txAuth sock kind name enabled).2.1) } := by
  obtain ⟨hname, hauth, hnetwork⟩ := Core.rxPubsub_sock (net.allows wildcard sock.name) txAuth d.core sock kind name enabled
  -- an entry of another network stays, and so does one under another name or host
  have hisolated := (@isolated_pubsub d _ txAuth _ _ _ _).mpr hclash
  have hother : ∀ c' sock', c' ≠ c → d.rxSocks c' = some sock' → sock'.auth = true → ∀ k, ∀ x ∈ sock'.lists k,
      ((d.core.rxPubsub (net.allows wildcard sock.name) txAuth sock kind name enabled).1.peers k x).get? sock'.name =
        some { network := sock'.network, name := sock'.name } := by
    intro c' sock' hne hs' ha' k x hx
    have hentry := h.entries c' sock' hs' ha' k x hx
    by_cases hnet : sock'.network = sock.network
    · have hhost : sock'.name ≠ sock.name := fun heq => hne (h.unique c' c sock' sock hs' ha' hs ha hnet heq)
      rcases Core.rxPubsub_cases (net.allows wildcard sock.name) txAuth d.core sock kind name enabled with
        ⟨hcore, -⟩ | ⟨-, -, -, -, hcore, -⟩ | ⟨-, -, -, hcore, -⟩
      · rw [hcore, hentry]
      · rw [hcore, Core.peers_update]
        split_ifs with hkx
        · rw [Obj.get?_set_ne hhost, ← hkx.1, ← hkx.2, hentry]
        · exact hentry
      · rw [hcore, Core.peers_update]
        split_ifs with hkx
        · rw [Obj.get?_del, if_neg hhost, ← hkx.1, ← hkx.2, hentry]
        · exact hentry
    · exact (hisolated k x sock'.name _ hnet).mp hentry
  have hself : ∀ k, ∀ x ∈ (d.core.rxPubsub (net.allows wildcard sock.name) txAuth sock kind name enabled).2.1.lists k,
      ((d.core.rxPubsub (net.allows wildcard sock.name) txAuth sock kind name enabled).1.peers k x).get? sock.name =
        some { network := sock.network, name := sock.name } := by
    intro k x hx
    rcases Core.rxPubsub_cases (net.allows wildcard sock.name) txAuth d.core sock kind name enabled with
      ⟨hcore, hsock, -⟩ | ⟨-, -, -, -, hcore, hsock, -⟩ | ⟨-, -, -, hcore, hsock, -⟩
    · rw [hsock] at hx
      rw [hcore]
      exact h.entries c sock hs ha k x hx
    · rw [hsock] at hx
      rw [hcore, Core.peers_update]
      split_ifs with hkx
      · exact Obj.get?_set_self
      · refine h.entries c sock hs ha k x ?_
        dsimp only at hx
        by_cases hk : k = kind
        · subst hk
          rw [Function.update_self, List.mem_append, List.mem_singleton] at hx
          exact hx.resolve_right fun heq => hkx ⟨rfl, heq⟩
        · rwa [Function.update_of_ne hk] at hx
    · rw [hsock] at hx
      rw [hcore, Core.peers_update]
      dsimp only at hx
      by_cases hk : k = kind
      · subst hk
        rw [Function.update_self, List.mem_filter, decide_eq_true_eq] at hx
        rw [if_neg fun hkx => hx.2 hkx.2]
        exact h.entries c sock hs ha k x hx.1
      · rw [Function.update_of_ne hk] at hx
        rw [if_neg fun hkx => hk hkx.1]
        exact h.entries c sock hs ha k x hx
  have hnew : ∀ c' sock', Function.update d.rxSocks c
      (some (d.core.rxPubsub (net.allows wildcard sock.name) txAuth sock kind name enabled).2.1) c' = some sock' →
      (c' = c ∧ sock' = (d.core.rxPubsub (net.allows wildcard sock.name) txAuth sock kind name enabled).2.1) ∨
        (c' ≠ c ∧ d.rxSocks c' = some sock') := by
    intro c' sock' hc'
    by_cases heq : c' = c
    · rw [heq, Function.update_self] at hc'
      exact Or.inl ⟨heq, (Option.some.inj hc').symm⟩
    · rw [Function.update_of_ne heq] at hc'
      exact Or.inr ⟨heq, hc'⟩
  refine ⟨fun c' sock' hc' ha' k x hx => ?_, fun c' c'' sock' sock'' hc' ha' hc'' ha'' hn hx => ?_⟩
  · rcases hnew c' sock' hc' with ⟨-, rfl⟩ | ⟨hne, hc'⟩
    · rw [hname, hnetwork]
      exact hself k x hx
    · exact hother c' sock' hne hc' ha' k x hx
  · rcases hnew c' sock' hc' with ⟨rfl, rfl⟩ | ⟨-, hold'⟩ <;> rcases hnew c'' sock'' hc'' with ⟨rfl, rfl⟩ | ⟨-, hold''⟩
    · rfl
    · rw [hname] at hx
      rw [hnetwork] at hn
      exact h.unique c' c'' sock sock'' hs ha hold'' ha'' hn hx
    · rw [hname] at hx
      rw [hnetwork] at hn
      exact h.unique c' c'' sock' sock hold' ha' hs ha hn hx
    · exact h.unique c' c'' sock' sock'' hold' ha' hold'' ha'' hn hx

theorem Told.rxRequest (hok : DaemonOk w d) (h : Told d) {c : Nat} {req : RxRequest} (hclash : NoClash wildcard d (.rx c req)) :
    Told (d.rxRequest wildcard c req).1 := by
  unfold Daemon.rxRequest
  cases hs : d.rxSocks c with
  | none => exact h
  | some sock =>
    dsimp only
    cases ha : sock.auth with
    | true =>
      rw [if_pos rfl]
      unfold socketHandleRequest
      cases hnet : d.networks.get? sock.network with
      | none => exact h
      | some net =>
        cases req with
        | pubsub kind name enabled => exact h.rxPubsub hs ha (hclash sock net hs ha hnet) _
        | _ => exact h
    | false =>
      rw [if_neg Bool.false_ne_true]
      have hclose : Told (d.rxSocketClose c).1 := by
        rw [rxSocketClose_unauth hok hs ha]
        refine h.socks fun c' sock' hc' _ => ?_
        by_cases heq : c' = c
        · rw [heq, Function.update_self] at hc'
          cases hc'
        · rwa [Function.update_of_ne heq] at hc'
      cases req with
      | hello => exact h
      | auth valid =>
        cases valid with
        | false => exact hclose
        | true =>
          dsimp only
          cases hr : d.checkAuth c sock with
          | none => exact hclose
          | some r =>
            have hpeer : d.peer sock.network sock.name ≠ none := checkAuth_ne_none.mp (by rw [hr]; exact Option.some_ne_none r)
            exact h.checkAuth hok hs ha (hclash sock hs ha hpeer) hr
      | _ => exact hclose

theorem Told.step (hok : DaemonOk w d) (h : Told d) {e : DaemonEvent} (hcalm : Calm wildcard d e) : Told (d.step wildcard e).1 := by
  obtain ⟨hclash, hnets⟩ := hcalm
  cases e with
  | accept network address =>
    simp only [Daemon.step, accept]
    cases d.networks.get? network with
    | none => exact h
    | some net =>
      dsimp only
      cases (net.peers.filter (·.2.address = address)).getLast? with
      | none => exact h
      | some x =>
        dsimp only
        split_ifs
        · exact h
        · refine h.socks fun c sock hc ha => ?_
          by_cases heq : c = d.nextSock
          · rw [heq, Function.update_self] at hc
            cases hc
            cases ha
          · rwa [Function.update_of_ne heq] at hc
  | rx c req => exact h.rxRequest hok hclash
  | rxDisconnect c =>
    refine h.rxSocketClose (fun sock hs _ ha => hclash sock hs ha) fun sock hs hc => ?_
    obtain ⟨sock', hs', ha', -⟩ := hok.inUse _ _ _ hc
    rw [hs] at hs'
    cases hs'
    exact ha'
  | rxTimeout c =>
    simp only [Daemon.step, rxTimeout]
    split_ifs
    · refine h.socks fun c' sock' hc' _ => ?_
      by_cases heq : c' = c
      · rw [heq, Function.update_self] at hc'
        cases hc'
      · rwa [Function.update_of_ne heq] at hc'
    · exact h
  | connectPeers network socket =>
    exact (keeps_connectPeers (P := Undisturbed) (fun d c hd => hd.same (same_txSocketClose d c))
      (fun d n x socket hd => hd.same (same_openSocket d n x socket)) (fun d c hd => hd.rxSocketClose c) (hok.undisturbed h hnets) network socket).told
  | networkUpdate data listen =>
    exact (keeps_unetdNetworkUpdate (P := Undisturbed) (fun d c hd => hd.same (same_txSocketClose d c)) (fun d c hd => hd.rxSocketClose c)
      (fun d nets hrx hd => hd.nets hrx) (hok.undisturbed h hnets) data listen).told
  | _ => exact h.same (same_step wildcard d trivial)

theorem Told.run (hok : DaemonOk anyName d) (h : Told d) {events : List DaemonEvent} (hcalm : AlwaysCalm wildcard d events) :
    Told (d.run wildcard events) := by
  induction events generalizing d with
  | nil => exact h
  | cons e events ih => exact ih (ok_run wildcard hok [e]) (h.step hok hcalm.1) hcalm.2

/-- What `handle_message` sends to peers. -/
theorem mem_forward {c : Core} {own : Option Nat} {name : String} {host : Option String} {r : Remote} :
    Effect.forward r .message name ∈ c.handleMessage own name true host ↔
      host ≠ some "" ∧ (host = none ∨ host = some r.name) ∧ ∃ x, (x, r) ∈ c.peers .subscribe name := by
  unfold Core.handleMessage Core.send
  by_cases hhost : host = some ""
  · simp [Core.getHandles, hhost]
  · simp [Core.getHandles, hhost, and_comm]

end

/-- Every event on a connection leaves the entries of other networks exactly when none of these stands under the name of its
    host where the event sets or removes one. A message goes to a peer only through the network in which the peer is
    subscribed, and in a run without such clashes to all that are. -/
theorem networks_isolated (wildcard : String → String → Bool → Bool) (acl : Kind → Obj (List String)) (events : List DaemonEvent)
    (e : DaemonEvent) :
    let d := (Daemon.start acl).run wildcard events
    (Isolated wildcard d e ↔ NoClash wildcard d e) ∧
    (∀ i name host r, Effect.forward r .message name ∈ (d.step wildcard (.clientRequest .message i name host)).2 → Subscribed d name r) ∧
    (AlwaysCalm wildcard (Daemon.start acl) events → ∀ i cl name r, d.core.clients i = some cl →
      ((cl.handles .publish).get? name).isSome = true → Subscribed d name r →
      Effect.forward r .message name ∈ (d.step wildcard (.clientRequest .message i name none)).2) := by
  intro d
  have hok : DaemonOk anyName d := ok_run wildcard (DaemonOk.start acl) events
  have hkeyed : d.core.Keyed := by
    refine keyed_run wildcard (d := Daemon.start acl) (fun k x => ⟨List.Pairwise.nil, ?_⟩) events
    rintro e he
    cases he
  refine ⟨isolated_iff hok e, fun i name host r hmem => ?_, fun hcalm i cl name r hcl hname hsub => ?_⟩
  · simp only [Daemon.step, Core.clientRequest] at hmem
    cases hcl : d.core.clients i with
    | none =>
      rw [hcl] at hmem
      cases hmem
    | some cl =>
      rw [hcl] at hmem
      dsimp only at hmem
      split_ifs at hmem
      · obtain ⟨-, -, x, hx⟩ := mem_forward.mp hmem
        obtain ⟨hnodup, hname⟩ := hkeyed .subscribe name
        obtain ⟨c, sock, hs, ha, hsock, hnetwork, hlist⟩ := hok.entries .subscribe name x r (Obj.get?_of_mem hnodup hx)
        exact ⟨c, sock, hs, ha, hnetwork, hsock.trans (hname _ hx).symm, hlist⟩
      · cases hmem
  · obtain ⟨c, sock, hs, ha, hnetwork, hsock, hlist⟩ := hsub
    have htold : Told d := by
      refine Told.run (DaemonOk.start acl) ⟨fun c sock hs => ?_, fun c c' sock sock' hs => ?_⟩ hcalm
      · cases hs
      · cases hs
    have hentry := htold.entries c sock hs ha .subscribe name hlist
    have hr : r = { network := sock.network, name := sock.name } := by rw [hnetwork, hsock]
    simp only [Daemon.step, Core.clientRequest, hcl, hname, if_true]
    refine mem_forward.mpr ⟨(by simp), Or.inl rfl, sock.name, ?_⟩
    rw [hr]
    exact Obj.mem_of_get? hentry

/-! ### Two networks with a peer of the same name -/

def twoNetworks : NetData where
  networks := ["a", "b"].map fun name => (name, {
    localHost := some "me"
    localAddress := name ++ "1"
    peers := [("router", name ++ "2")]
    services := [] })
  nodup := by decide

/-- Both peers are authenticated, and that of the first network is subscribed to a name. -/
def twoNetworksEvents : List DaemonEvent :=
  [.networkUpdate twoNetworks fun _ => true, .accept "a" "a2", .rx 0 (.auth true), .accept "b" "b2", .rx 1 (.auth true),
    .rx 0 (.pubsub .subscribe "x" true)]

/-- When the peer of the second network subscribes, the entry of the first is lost. -/
theorem networks_not_isolated :
    ¬Isolated literally ((Daemon.start fun _ => []).run literally twoNetworksEvents) (.rx 1 (.pubsub .subscribe "x" true)) := by
  intro h
  have hold := h { network := "b", name := "router", auth := true } rfl .subscribe "x" "router" { network := "a", name := "router" }
    (by decide)
  exact absurd (hold.mp rfl) (by decide)

end RainWrt.Unetmsg
