import RainWrt.Theorems.Unetmsg.Link
import RainWrt.Unetmsg.Daemon

/-! What holds of the networks of a daemon: an authenticated connection is the channel in use of its peer, the names on its
    lists are allowed, and the tables of the core have only such names. -/

namespace RainWrt.Unetmsg
open Daemon

/-! ### Channels and peers -/

/-- A peer of a network. -/
def Daemon.peer (d : Daemon) (network host : String) : Option Peer := (d.networks.get? network).bind (·.peers.get? host)

section
variable {d : Daemon} {network n h : String} {net : Net}

theorem rxChannels_of (hnet : d.networks.get? network = some net) : d.rxChannels network = net.rx := by
  simp [rxChannels, hnet]

theorem peer_of (hnet : d.networks.get? network = some net) : d.peer network h = net.peers.get? h := by
  simp [peer, hnet]

theorem rxChannels_set {o : Obj Net} (ho : d.networks = o.set network net) (hold : Daemon) (hn : hold.networks = o) (n : String) :
    d.rxChannels n = if n = network then net.rx else hold.rxChannels n := by
  unfold rxChannels
  rw [ho, Obj.get?_set, hn]
  split_ifs <;> rfl

theorem peer_set {o : Obj Net} (ho : d.networks = o.set network net) (hold : Daemon) (hn : hold.networks = o) (n h : String) :
    d.peer n h = if n = network then net.peers.get? h else hold.peer n h := by
  unfold peer
  rw [ho, Obj.get?_set, hn]
  split_ifs <;> rfl

end

/-! ### The invariant -/

structure DaemonOk (wildcard : String → String → Bool → Bool) (d : Daemon) : Prop where
  fresh : ∀ c, d.nextSock ≤ c → d.rxSocks c = none
  used : ∀ c sock, d.rxSocks c = some sock → sock.auth = true → (d.rxChannels sock.network).get? sock.name = some c
  inUse : ∀ n h c, (d.rxChannels n).get? h = some c → ∃ sock, d.rxSocks c = some sock ∧ sock.auth = true ∧ sock.network = n ∧ sock.name = h
  unauth : ∀ c sock, d.rxSocks c = some sock → sock.auth = false → ∀ k, sock.lists k = []
  listed : ∀ c sock, d.rxSocks c = some sock → ∀ p ps, d.peer sock.network sock.name = some p → p.allowed = some ps →
    ∀ k, ∀ x ∈ sock.lists k, nameAllowed wildcard ps x = true
  entries : ∀ k x h r, (d.core.peers k x).get? h = some r →
    ∃ c sock, d.rxSocks c = some sock ∧ sock.auth = true ∧ sock.name = h ∧ sock.network = r.network ∧ x ∈ sock.lists k

/-- The second state has nothing new for the connections from peers. -/
structure SameRx (d d' : Daemon) : Prop where
  socks : d'.rxSocks = d.rxSocks
  remote : d'.core.remote = d.core.remote
  next : d.nextSock ≤ d'.nextSock
  rx : ∀ n, d'.rxChannels n = d.rxChannels n
  peer : ∀ n h, d'.peer n h = d.peer n h

/-- The second state has no connection, and no channel in use, that the first does not have. -/
structure Fewer (d d' : Daemon) : Prop where
  socks : ∀ c sock, d'.rxSocks c = some sock → d.rxSocks c = some sock
  rx : ∀ n h c, (d'.rxChannels n).get? h = some c → (d.rxChannels n).get? h = some c

section
variable {wildcard : String → String → Bool → Bool} {d d' d'' : Daemon}

theorem SameRx.refl (d : Daemon) : SameRx d d := ⟨rfl, rfl, Nat.le_refl _, fun _ => rfl, fun _ _ => rfl⟩

theorem SameRx.trans (h : SameRx d d') (h' : SameRx d' d'') : SameRx d d'' :=
  ⟨h'.socks.trans h.socks, h'.remote.trans h.remote, Nat.le_trans h.next h'.next, fun n => (h'.rx n).trans (h.rx n),
    fun n x => (h'.peer n x).trans (h.peer n x)⟩

theorem SameRx.foldl {α : Type} {f : Daemon → α → Daemon} (hf : ∀ d a, SameRx d (f d a)) (l : List α) (d : Daemon) :
    SameRx d (l.foldl f d) := by
  induction l generalizing d with
  | nil => exact .refl d
  | cons a l ih => exact (hf d a).trans (ih _)

theorem SameRx.fewer (h : SameRx d d') : Fewer d d' :=
  ⟨fun _ _ hs => h.socks ▸ hs, fun n _ _ hc => h.rx n ▸ hc⟩

theorem Fewer.refl (d : Daemon) : Fewer d d := ⟨fun _ _ => id, fun _ _ _ => id⟩

theorem Fewer.trans (h : Fewer d d') (h' : Fewer d' d'') : Fewer d d'' :=
  ⟨fun c sock hs => h.socks c sock (h'.socks c sock hs), fun n x c hc => h.rx n x c (h'.rx n x c hc)⟩

theorem DaemonOk.same (h : DaemonOk wildcard d) (hs : SameRx d d') : DaemonOk wildcard d' := by
  have hpeers : ∀ k x, d'.core.peers k x = d.core.peers k x := by
    intro k x
    unfold Core.peers
    rw [hs.remote]
  refine ⟨fun c hc => ?_, fun c sock hc ha => ?_, fun n x c hc => ?_, fun c sock hc => ?_, fun c sock hc p ps hp => ?_,
    fun k x y r hr => ?_⟩
  · rw [hs.socks]
    exact h.fresh c (Nat.le_trans hs.next hc)
  · rw [hs.socks] at hc
    rw [hs.rx]
    exact h.used c sock hc ha
  · rw [hs.rx] at hc
    rw [hs.socks]
    exact h.inUse n x c hc
  · rw [hs.socks] at hc
    exact h.unauth c sock hc
  · rw [hs.socks] at hc
    rw [hs.peer] at hp
    exact h.listed c sock hc p ps hp
  · rw [hpeers] at hr
    rw [hs.socks]
    exact h.entries k x y r hr

/-! ### Outgoing connections -/

/-- A network changes in its outgoing channels only. -/
theorem SameRx.setTx {network : String} {net net' : Net} (hset : d'.networks = d.networks.set network net')
    (hnet : d.networks.get? network = some net) (hrx : net'.rx = net.rx) (hpeers : net'.peers = net.peers)
    (hsocks : d'.rxSocks = d.rxSocks) (hcore : d'.core = d.core) (hnext : d.nextSock ≤ d'.nextSock) : SameRx d d' := by
  refine ⟨hsocks, by rw [hcore], hnext, fun n => ?_, fun n x => ?_⟩
  · rw [rxChannels_set hset d rfl]
    split_ifs with hn
    · rw [hn, rxChannels_of hnet, hrx]
    · rfl
  · rw [peer_set hset d rfl]
    split_ifs with hn
    · rw [hn, peer_of hnet, hpeers]
    · rfl

theorem same_txSocketClose (d : Daemon) (c : Nat) : SameRx d (d.txSocketClose c) := by
  unfold txSocketClose
  cases d.txSocks c with
  | none => exact .refl d
  | some sock =>
    dsimp only
    cases hnet : d.networks.get? sock.network with
    | none => exact ⟨rfl, rfl, Nat.le_refl _, fun _ => rfl, fun _ _ => rfl⟩
    | some net =>
      dsimp only
      split_ifs
      · exact .setTx rfl hnet rfl rfl rfl rfl (Nat.le_refl _)
      · exact ⟨rfl, rfl, Nat.le_refl _, fun _ => rfl, fun _ _ => rfl⟩

theorem same_txChannelClose (d : Daemon) (network name : String) : SameRx d (d.txChannelClose network name) := by
  unfold txChannelClose
  cases (d.txChannels network).get? name with
  | none => exact .refl d
  | some c => exact same_txSocketClose d c

theorem same_openSocket (d : Daemon) (network name : String) (socket : Bool) : SameRx d (d.openSocket network name socket) := by
  unfold openSocket
  cases hnet : d.networks.get? network with
  | none => exact .refl d
  | some net =>
    dsimp only
    split_ifs
    · exact .refl d
    · exact .setTx rfl hnet rfl rfl rfl rfl (Nat.le_succ _)

theorem same_openChannel (d : Daemon) (network name : String) (socket : Bool) : SameRx d (d.openChannel network name socket) :=
  (same_txChannelClose d network name).trans (same_openSocket _ network name socket)

/-! ### Closing an incoming connection -/

/-- What closing does to a connection that is authenticated. -/
theorem rxSocketClose_auth (h : DaemonOk wildcard d) {c : Nat} {sock : RxSock} (hs : d.rxSocks c = some sock) (ha : sock.auth = true) :
    (d.rxSocketClose c).2 = (d.core.rxCleanupState sock.name).2 ∧ (d.rxSocketClose c).1.core = (d.core.rxCleanupState sock.name).1 ∧
      (d.rxSocketClose c).1.rxSocks = Function.update d.rxSocks c none ∧ (d.rxSocketClose c).1.nextSock = d.nextSock ∧
      (∀ n x, ((d.rxSocketClose c).1.rxChannels n).get? x =
        if n = sock.network ∧ x = sock.name then none else (d.rxChannels n).get? x) ∧
      ∀ n x, (d.rxSocketClose c).1.peer n x = d.peer n x := by
  have hused := h.used c sock hs ha
  cases hnet : d.networks.get? sock.network with
  | none => simp [rxChannels, hnet] at hused
  | some net =>
    rw [rxChannels_of hnet] at hused
    have heq : d.rxSocketClose c = ({ d with
        rxSocks := Function.update d.rxSocks c none
        core := (d.core.rxCleanupState sock.name).1
        networks := d.networks.set sock.network { net with rx := net.rx.del sock.name } }, (d.core.rxCleanupState sock.name).2) := by
      simp [rxSocketClose, hs, hnet, hused]
    rw [heq]
    refine ⟨rfl, rfl, rfl, rfl, fun n x => ?_, fun n x => ?_⟩
    · rw [rxChannels_set rfl d rfl]
      by_cases hn : n = sock.network
      · rw [if_pos hn, Obj.get?_del, hn, rxChannels_of hnet]
        by_cases hx : x = sock.name
        · rw [if_pos hx, if_pos ⟨rfl, hx⟩]
        · rw [if_neg hx, if_neg fun hh => hx hh.2]
      · rw [if_neg hn, if_neg fun hh => hn hh.1]
    · rw [peer_set rfl d rfl]
      split_ifs with hn
      · rw [hn, peer_of hnet]
      · rfl

/-- One that is not is in no table. -/
theorem rxSocketClose_unauth (h : DaemonOk wildcard d) {c : Nat} {sock : RxSock} (hs : d.rxSocks c = some sock)
    (ha : sock.auth = false) : d.rxSocketClose c = ({ d with rxSocks := Function.update d.rxSocks c none }, []) := by
  cases hnet : d.networks.get? sock.network with
  | none => simp [rxSocketClose, hs, hnet]
  | some net =>
    have hne : net.rx.get? sock.name ≠ some c := by
      intro heq
      rw [← rxChannels_of hnet] at heq
      obtain ⟨sock', hs', ha', -⟩ := h.inUse _ _ _ heq
      rw [hs] at hs'
      cases hs'
      rw [ha] at ha'
      cases ha'
    simp [rxSocketClose, hs, hnet, hne]

theorem rxSocketClose_none {c : Nat} (hs : d.rxSocks c = none) : d.rxSocketClose c = (d, []) := by
  simp [rxSocketClose, hs]

theorem fewer_rxSocketClose (h : DaemonOk wildcard d) (c : Nat) :
    Fewer d (d.rxSocketClose c).1 ∧ (d.rxSocketClose c).1.rxSocks c = none ∧ ∀ n x, (d.rxSocketClose c).1.peer n x = d.peer n x := by
  have hsub : ∀ c' sock, Function.update d.rxSocks c none c' = some sock → d.rxSocks c' = some sock := by
    intro c' sock hc'
    by_cases heq : c' = c
    · rw [heq, Function.update_self] at hc'
      cases hc'
    · rwa [Function.update_of_ne heq] at hc'
  cases hs : d.rxSocks c with
  | none =>
    rw [rxSocketClose_none hs]
    exact ⟨.refl d, hs, fun _ _ => rfl⟩
  | some sock =>
    cases ha : sock.auth with
    | false =>
      rw [rxSocketClose_unauth h hs ha]
      exact ⟨⟨hsub, fun _ _ _ => id⟩, Function.update_self .., fun _ _ => rfl⟩
    | true =>
      obtain ⟨-, -, hsocks, -, hrx, hpeer⟩ := rxSocketClose_auth h hs ha
      refine ⟨⟨fun c' sock' hc' => hsub c' sock' (hsocks ▸ hc'), fun n x c' hc' => ?_⟩, by rw [hsocks, Function.update_self], hpeer⟩
      rw [hrx] at hc'
      split_ifs at hc'
      exact hc'

theorem DaemonOk.rxSocketClose (h : DaemonOk wildcard d) (c : Nat) : DaemonOk wildcard (d.rxSocketClose c).1 := by
  obtain ⟨hfewer, hgone, hpeer⟩ := fewer_rxSocketClose h c
  cases hs : d.rxSocks c with
  | none =>
    rw [rxSocketClose_none hs]
    exact h
  | some sock =>
    -- the other connections stay
    have hstay : ∀ c' sock', c' ≠ c → d.rxSocks c' = some sock' → (d.rxSocketClose c).1.rxSocks c' = some sock' := by
      intro c' sock' hne hc'
      cases ha : sock.auth with
      | false =>
        rw [rxSocketClose_unauth h hs ha]
        exact (Function.update_of_ne hne ..).trans hc'
      | true => rw [(rxSocketClose_auth h hs ha).2.2.1, Function.update_of_ne hne, hc']
    have hne : ∀ c' sock', (d.rxSocketClose c).1.rxSocks c' = some sock' → c' ≠ c := by
      rintro c' sock' hc' rfl
      rw [hgone] at hc'
      cases hc'
    have hnext : (d.rxSocketClose c).1.nextSock = d.nextSock := by
      cases ha : sock.auth with
      | false => rw [rxSocketClose_unauth h hs ha]
      | true => exact (rxSocketClose_auth h hs ha).2.2.2.1
    -- a channel stays in use when its connection is another one
    have hrx : ∀ n x c', c' ≠ c → (d.rxChannels n).get? x = some c' → ((d.rxSocketClose c).1.rxChannels n).get? x = some c' := by
      intro n x c' hne hc'
      cases ha : sock.auth with
      | false =>
        rw [rxSocketClose_unauth h hs ha]
        exact hc'
      | true =>
        rw [(rxSocketClose_auth h hs ha).2.2.2.2.1, if_neg, hc']
        rintro ⟨rfl, rfl⟩
        rw [h.used c sock hs ha] at hc'
        exact hne (Option.some.inj hc').symm
    refine ⟨fun c' hc' => ?_, fun c' sock' hc' ha' => ?_, fun n x c' hc' => ?_, fun c' sock' hc' => ?_, fun c' sock' hc' p ps hp => ?_,
      fun k x y r hr => ?_⟩
    · by_contra hsome
      obtain ⟨sock', hs'⟩ := Option.ne_none_iff_exists'.mp hsome
      have := hfewer.socks c' sock' hs'
      rw [h.fresh c' (hnext ▸ hc')] at this
      cases this
    · exact hrx _ _ _ (hne c' sock' hc') (h.used c' sock' (hfewer.socks c' sock' hc') ha')
    · obtain ⟨sock', hs', ha', hn, hx⟩ := h.inUse n x c' (hfewer.rx n x c' hc')
      refine ⟨sock', hstay c' sock' ?_ hs', ha', hn, hx⟩
      rintro rfl
      rw [hs] at hs'
      cases hs'
      rw [(rxSocketClose_auth h hs ha').2.2.2.2.1, if_pos ⟨hn.symm, hx.symm⟩] at hc'
      cases hc'
    · exact h.unauth c' sock' (hfewer.socks c' sock' hc')
    · rw [hpeer] at hp
      exact h.listed c' sock' (hfewer.socks c' sock' hc') p ps hp
    · cases ha : sock.auth with
      | false =>
        rw [rxSocketClose_unauth h hs ha] at hr
        obtain ⟨c', sock', hs', ha', hrest⟩ := h.entries k x y r hr
        refine ⟨c', sock', hstay c' sock' ?_ hs', ha', hrest⟩
        rintro rfl
        rw [hs] at hs'
        cases hs'
        rw [ha] at ha'
        cases ha'
      | true =>
        rw [(rxSocketClose_auth h hs ha).2.1, Core.peers_rxCleanupState, Obj.get?_del] at hr
        split_ifs at hr with hy
        obtain ⟨c', sock', hs', ha', hname, hrest⟩ := h.entries k x y r hr
        refine ⟨c', sock', hstay c' sock' ?_ hs', ha', hname, hrest⟩
        rintro rfl
        rw [hs] at hs'
        cases hs'
        exact hy hname.symm

/-- What closing connections one after the other does. -/
theorem closeAll (h : DaemonOk wildcard d) {f : Daemon → String × Nat → Daemon × List Effect} {p : String × Nat → Prop}
    (hf : ∀ d e, (f d e = (d, []) ∧ ¬p e) ∨ f d e = d.rxSocketClose e.2) (l : Obj Nat) :
    DaemonOk wildcard (collect f d l).1 ∧ Fewer d (collect f d l).1 ∧ (∀ n x, (collect f d l).1.peer n x = d.peer n x) ∧
      ∀ e ∈ l, p e → (collect f d l).1.rxSocks e.2 = none := by
  induction l generalizing d with
  | nil => exact ⟨h, .refl d, fun _ _ => rfl, nofun⟩
  | cons e l ih =>
    rw [collect_cons]
    have hround : DaemonOk wildcard (f d e).1 ∧ Fewer d (f d e).1 ∧ (∀ n x, (f d e).1.peer n x = d.peer n x) ∧
        (p e → (f d e).1.rxSocks e.2 = none) := by
      rcases hf d e with ⟨heq, hp⟩ | heq
      · rw [heq]
        exact ⟨h, .refl d, fun _ _ => rfl, fun hpe => absurd hpe hp⟩
      · obtain ⟨hfewer, hgone, hpeer⟩ := fewer_rxSocketClose h e.2
        rw [heq]
        exact ⟨h.rxSocketClose e.2, hfewer, hpeer, fun _ => hgone⟩
    obtain ⟨hok, hfewer, hpeer, hgone⟩ := hround
    obtain ⟨hok', hfewer', hpeer', hgone'⟩ := ih hok
    refine ⟨hok', hfewer.trans hfewer', fun n x => (hpeer' n x).trans (hpeer n x), fun e' he' hp => ?_⟩
    rcases List.mem_cons.mp he' with rfl | he'
    · by_contra hsome
      obtain ⟨sock, hs⟩ := Option.ne_none_iff_exists'.mp hsome
      have := hfewer'.socks _ _ hs
      rw [hgone hp] at this
      cases this
    · exact hgone' e' he' hp

/-! ### Requests of a peer -/

theorem DaemonOk.accept (h : DaemonOk wildcard d) (network address : String) : DaemonOk wildcard (d.accept network address) := by
  unfold Daemon.accept
  cases d.networks.get? network with
  | none => exact h
  | some net =>
    dsimp only
    cases (net.peers.filter (·.2.address = address)).getLast? with
    | none => exact h
    | some e =>
      dsimp only
      split_ifs
      · exact h
      · -- the number of the new connection is not in use
        have hnew : ∀ c sock, Function.update d.rxSocks d.nextSock (some { network, name := e.1 }) c = some sock →
            (c = d.nextSock ∧ sock = { network, name := e.1 }) ∨ d.rxSocks c = some sock := by
          intro c sock hs
          by_cases hc : c = d.nextSock
          · rw [hc, Function.update_self] at hs
            exact Or.inl ⟨hc, (Option.some.inj hs).symm⟩
          · rw [Function.update_of_ne hc] at hs
            exact Or.inr hs
        have hstay : ∀ c sock, d.rxSocks c = some sock →
            Function.update d.rxSocks d.nextSock (some { network, name := e.1 }) c = some sock := by
          intro c sock hs
          rw [Function.update_of_ne, hs]
          rintro rfl
          rw [h.fresh _ (Nat.le_refl _)] at hs
          cases hs
        refine ⟨fun c hc => ?_, fun c sock hs ha => ?_, fun n x c hc => ?_, fun c sock hs ha k => ?_, fun c sock hs p ps hp hps k x hx => ?_,
          fun k x y r hr => ?_⟩
        · dsimp only at hc ⊢
          rw [Function.update_of_ne (Nat.ne_of_gt hc)]
          exact h.fresh c (Nat.le_of_succ_le hc)
        · rcases hnew c sock hs with ⟨-, rfl⟩ | hs
          · cases ha
          · exact h.used c sock hs ha
        · obtain ⟨sock, hs, hrest⟩ := h.inUse n x c hc
          exact ⟨sock, hstay c sock hs, hrest⟩
        · rcases hnew c sock hs with ⟨-, rfl⟩ | hs
          · rfl
          · exact h.unauth c sock hs ha k
        · rcases hnew c sock hs with ⟨-, rfl⟩ | hs
          · cases hx
          · exact h.listed c sock hs p ps hp hps k x hx
        · obtain ⟨c, sock, hs, hrest⟩ := h.entries k x y r hr
          exact ⟨c, sock, hstay c sock hs, hrest⟩

theorem DaemonOk.rxTimeout (h : DaemonOk wildcard d) (c : Nat) : DaemonOk wildcard (d.rxTimeout c) := by
  unfold Daemon.rxTimeout
  split_ifs with hany
  · cases hs : d.rxSocks c with
    | none => simp [hs] at hany
    | some sock =>
      have ha : sock.auth = false := by simpa [hs] using hany
      have heq := rxSocketClose_unauth h hs ha
      have hok := h.rxSocketClose c
      rw [heq] at hok
      exact hok
  · exact h

/-- A connection becomes the channel in use of a peer that has none. -/
theorem DaemonOk.authed (h : DaemonOk wildcard d) {c : Nat} {sock : RxSock} {net : Net} (hs : d.rxSocks c = some sock)
    (ha : sock.auth = false) (hnet : d.networks.get? sock.network = some net) (hfree : (d.rxChannels sock.network).get? sock.name = none) :
    DaemonOk wildcard { d with
      core := (d.core.rxCleanupState sock.name).1
      rxSocks := Function.update d.rxSocks c (some { sock with auth := true })
      networks := d.networks.set sock.network { net with rx := net.rx.set sock.name c } } := by
  generalize hd' : ({ d with
      core := (d.core.rxCleanupState sock.name).1
      rxSocks := Function.update d.rxSocks c (some { sock with auth := true })
      networks := d.networks.set sock.network { net with rx := net.rx.set sock.name c } } : Daemon) = d'
  have hrx : ∀ n x, (d'.rxChannels n).get? x = if n = sock.network ∧ x = sock.name then some c else (d.rxChannels n).get? x := by
    intro n x
    rw [← hd', rxChannels_set rfl d rfl]
    by_cases hn : n = sock.network
    · rw [if_pos hn, Obj.get?_set, hn, rxChannels_of hnet]
      by_cases hx : x = sock.name
      · rw [if_pos hx, if_pos ⟨rfl, hx⟩]
      · rw [if_neg hx, if_neg fun hh => hx hh.2]
    · rw [if_neg hn, if_neg fun hh => hn hh.1]
  have hpeer : ∀ n x, d'.peer n x = d.peer n x := by
    intro n x
    rw [← hd', peer_set rfl d rfl]
    split_ifs with hn
    · rw [hn, peer_of hnet]
    · rfl
  have hself : d'.rxSocks c = some { sock with auth := true } := by
    rw [← hd']
    exact Function.update_self ..
  have hother : ∀ c', c' ≠ c → d'.rxSocks c' = d.rxSocks c' := by
    intro c' hc'
    rw [← hd']
    exact Function.update_of_ne hc' ..
  have hpeers : ∀ k x, d'.core.peers k x = (d.core.peers k x).del sock.name := by
    intro k x
    rw [← hd']
    exact Core.peers_rxCleanupState ..
  have hnext : d'.nextSock = d.nextSock := by rw [← hd']
  refine ⟨fun c' hc' => ?_, fun c' sock' hs' ha' => ?_, fun n x c' hc' => ?_, fun c' sock' hs' ha' => ?_,
    fun c' sock' hs' p ps hp hps k x hx => ?_, fun k x y r hr => ?_⟩
  · have hnone := h.fresh c' (hnext ▸ hc')
    rw [hother c' fun heq => by rw [heq, hs] at hnone; cases hnone]
    exact hnone
  · rw [hrx]
    by_cases hc' : c' = c
    · subst hc'
      rw [hself] at hs'
      cases hs'
      exact if_pos ⟨rfl, rfl⟩
    · rw [hother c' hc'] at hs'
      have hused := h.used c' sock' hs' ha'
      rw [if_neg, hused]
      rintro ⟨hn, hx⟩
      rw [hn, hx, hfree] at hused
      cases hused
  · rw [hrx] at hc'
    split_ifs at hc' with hnx
    · cases hc'
      exact ⟨_, hself, rfl, hnx.1.symm, hnx.2.symm⟩
    · obtain ⟨sock', hs', ha', hrest⟩ := h.inUse n x c' hc'
      refine ⟨sock', ?_, ha', hrest⟩
      rw [hother, hs']
      rintro rfl
      rw [hs] at hs'
      cases hs'
      rw [ha] at ha'
      cases ha'
  · by_cases hc' : c' = c
    · subst hc'
      rw [hself] at hs'
      cases hs'
      cases ha'
    · rw [hother c' hc'] at hs'
      exact h.unauth c' sock' hs' ha'
  · rw [hpeer] at hp
    by_cases hc' : c' = c
    · subst hc'
      rw [hself] at hs'
      cases hs'
      have hnil := h.unauth c' sock hs ha k
      dsimp only at hx
      rw [hnil] at hx
      cases hx
    · rw [hother c' hc'] at hs'
      exact h.listed c' sock' hs' p ps hp hps k x hx
  · rw [hpeers, Obj.get?_del] at hr
    split_ifs at hr with hy
    obtain ⟨c', sock', hs', ha', hname, hrest⟩ := h.entries k x y r hr
    refine ⟨c', sock', ?_, ha', hname, hrest⟩
    rw [hother, hs']
    rintro rfl
    rw [hs] at hs'
    cases hs'
    exact hy hname.symm

/-- `network_check_auth` closes the channel in use, clears the tables and takes the connection. -/
theorem checkAuth_some (h : DaemonOk wildcard d) {c : Nat} {sock : RxSock} (hs : d.rxSocks c = some sock) (ha : sock.auth = false)
    {r : Daemon × List Effect} (hr : d.checkAuth c sock = some r) :
    ∃ d₁ out₁ net₁, ((d₁ = d ∧ out₁ = []) ∨ ∃ old, d.rxSocketClose old = (d₁, out₁) ∧ (d.rxChannels sock.network).get? sock.name = some old) ∧
      DaemonOk wildcard d₁ ∧ d₁.rxSocks c = some sock ∧ d₁.networks.get? sock.network = some net₁ ∧
      (d₁.rxChannels sock.network).get? sock.name = none ∧
      r = ({ d₁ with
        core := (d₁.core.rxCleanupState sock.name).1
        rxSocks := Function.update d₁.rxSocks c (some { sock with auth := true })
        networks := d₁.networks.set sock.network { net₁ with rx := net₁.rx.set sock.name c } },
        out₁ ++ (d₁.core.rxCleanupState sock.name).2) := by
  unfold Daemon.checkAuth at hr
  cases hnet : d.networks.get? sock.network with
  | none =>
    rw [hnet] at hr
    cases hr
  | some net =>
    rw [hnet] at hr
    dsimp only at hr
    split_ifs at hr with hpeer
    cases hold : (d.rxChannels sock.network).get? sock.name with
    | none =>
      refine ⟨d, [], net, Or.inl ⟨rfl, rfl⟩, h, hs, hnet, hold, ?_⟩
      simp only [rxChannelClose, hold, hnet, Option.getD_some, Option.some.injEq] at hr
      exact hr.symm
    | some old =>
      obtain ⟨sock', hs', ha', hn', hx'⟩ := h.inUse _ _ _ hold
      obtain ⟨-, -, hsocks, -, hrx', hpeer'⟩ := rxSocketClose_auth h hs' ha'
      have hne : c ≠ old := by
        rintro rfl
        rw [hs] at hs'
        cases hs'
        rw [ha] at ha'
        cases ha'
      -- the network is still there, since the peer is
      have hnet₁ : ∃ net₁, (d.rxSocketClose old).1.networks.get? sock.network = some net₁ := by
        have hp := hpeer' sock.network sock.name
        rw [peer_of hnet] at hp
        cases hget : (d.rxSocketClose old).1.networks.get? sock.network with
        | none =>
          simp only [Daemon.peer, hget, Option.bind_none] at hp
          exact absurd hp.symm hpeer
        | some net₁ => exact ⟨net₁, rfl⟩
      obtain ⟨net₁, hnet₁⟩ := hnet₁
      refine ⟨(d.rxSocketClose old).1, (d.rxSocketClose old).2, net₁, Or.inr ⟨old, rfl, rfl⟩, h.rxSocketClose old, ?_, hnet₁, ?_, ?_⟩
      · rw [hsocks, Function.update_of_ne hne, hs]
      · rw [hrx', if_pos ⟨hn'.symm, hx'.symm⟩]
      · simp only [rxChannelClose, hold, hnet₁, Option.getD_some, Option.some.injEq] at hr
        exact hr.symm

/-- The lists of a channel in use change, and the tables with them. -/
theorem DaemonOk.setSock (h : DaemonOk wildcard d) {c : Nat} {sock sock' : RxSock} (hs : d.rxSocks c = some sock)
    (ha : sock.auth = true) (hname : sock'.name = sock.name) (hnetwork : sock'.network = sock.network) (hauth : sock'.auth = sock.auth)
    (hlisted : ∀ p ps, d.peer sock.network sock.name = some p → p.allowed = some ps →
      ∀ k, ∀ x ∈ sock'.lists k, nameAllowed wildcard ps x = true) {core : Core}
    (hentries : ∀ k x y r, (core.peers k x).get? y = some r →
      (y = sock.name ∧ r.network = sock.network ∧ x ∈ sock'.lists k) ∨
      ((d.core.peers k x).get? y = some r ∧ (y = sock.name → x ∈ sock.lists k → x ∈ sock'.lists k))) :
    DaemonOk wildcard { d with core, rxSocks := Function.update d.rxSocks c (some sock') } := by
  have hnew : ∀ c' sock'', Function.update d.rxSocks c (some sock') c' = some sock'' →
      (c' = c ∧ sock'' = sock') ∨ (c' ≠ c ∧ d.rxSocks c' = some sock'') := by
    intro c' sock'' hc'
    by_cases heq : c' = c
    · rw [heq, Function.update_self] at hc'
      exact Or.inl ⟨heq, (Option.some.inj hc').symm⟩
    · rw [Function.update_of_ne heq] at hc'
      exact Or.inr ⟨heq, hc'⟩
  refine ⟨fun c' hc' => ?_, fun c' sock'' hc' ha' => ?_, fun n x c' hc' => ?_, fun c' sock'' hc' ha' k => ?_,
    fun c' sock'' hc' p ps hp hps k x hx => ?_, fun k x y r hr => ?_⟩
  · have hnone := h.fresh c' hc'
    dsimp only
    rw [Function.update_of_ne fun heq => by rw [heq, hs] at hnone; cases hnone]
    exact hnone
  · rcases hnew c' sock'' hc' with ⟨rfl, rfl⟩ | ⟨-, hc'⟩
    · rw [hname, hnetwork]
      exact h.used c' sock hs ha
    · exact h.used c' sock'' hc' ha'
  · obtain ⟨sock'', hs'', ha'', hn, hx⟩ := h.inUse n x c' hc'
    by_cases heq : c' = c
    · subst heq
      rw [hs] at hs''
      cases hs''
      exact ⟨sock', Function.update_self .., hauth.trans ha, hnetwork.trans hn, hname.trans hx⟩
    · exact ⟨sock'', (Function.update_of_ne heq ..).trans hs'', ha'', hn, hx⟩
  · rcases hnew c' sock'' hc' with ⟨rfl, rfl⟩ | ⟨-, hc'⟩
    · rw [hauth, ha] at ha'
      cases ha'
    · exact h.unauth c' sock'' hc' ha' k
  · rcases hnew c' sock'' hc' with ⟨rfl, rfl⟩ | ⟨-, hc'⟩
    · rw [hname, hnetwork] at hp
      exact hlisted p ps hp hps k x hx
    · exact h.listed c' sock'' hc' p ps hp hps k x hx
  · rcases hentries k x y r hr with ⟨rfl, hn, hx⟩ | ⟨hold, hkeep⟩
    · exact ⟨c, sock', Function.update_self .., hauth.trans ha, hname, hnetwork.trans hn.symm, hx⟩
    · obtain ⟨c', sock'', hs'', ha'', hname'', hn'', hx''⟩ := h.entries k x y r hold
      by_cases heq : c' = c
      · subst heq
        rw [hs] at hs''
        cases hs''
        exact ⟨c', sock', Function.update_self .., hauth.trans ha, hname.trans hname'', hnetwork.trans hn'', hkeep hname''.symm hx''⟩
      · exact ⟨c', sock'', (Function.update_of_ne heq ..).trans hs'', ha'', hname'', hn'', hx''⟩

/-- What is allowed matches the patterns of the peer. -/
theorem nameAllowed_of_allows {network host name : String} {net : Net} (hnet : d.networks.get? network = some net)
    (hallows : net.allows wildcard host name = true) {p : Peer} {ps : List String} (hp : d.peer network host = some p)
    (hps : p.allowed = some ps) : nameAllowed wildcard ps name = true := by
  rw [peer_of hnet] at hp
  simpa [Net.allows, hp, hps] using hallows

/-- The patterns of the invariant may let more names pass than those of the daemon. -/
theorem DaemonOk.rxPubsub (h : DaemonOk wildcard d) {w : String → String → Bool → Bool}
    (hw : ∀ ps x, nameAllowed w ps x = true → nameAllowed wildcard ps x = true) {c : Nat} {sock : RxSock}
    (hs : d.rxSocks c = some sock) (ha : sock.auth = true) {net : Net} (hnet : d.networks.get? sock.network = some net)
    (txAuth : Bool) (kind : Kind) (name : String) (enabled : Bool) :
    DaemonOk wildcard { d with
      core := (d.core.rxPubsub (net.allows w sock.name) txAuth sock kind name enabled).1
      rxSocks := Function.update d.rxSocks c
        (some (d.core.rxPubsub (net.allows w sock.name) txAuth sock kind name enabled).2.1) } := by
  obtain ⟨hname, hauth, hnetwork⟩ := Core.rxPubsub_sock (net.allows w sock.name) txAuth d.core sock kind name enabled
  have hold := h.listed c sock hs
  refine h.setSock hs ha hname hnetwork hauth (fun p ps hp hps k x hx => ?_) fun k x y r hr => ?_
  · rcases Core.rxPubsub_cases (net.allows w sock.name) txAuth d.core sock kind name enabled with
      ⟨-, hsock, -⟩ | ⟨-, -, -, hallowed, -, hsock, -⟩ | ⟨-, -, -, -, hsock, -⟩
    · rw [hsock] at hx
      exact hold p ps hp hps k x hx
    · rw [hsock] at hx
      dsimp only at hx
      by_cases hk : k = kind
      · subst hk
        rw [Function.update_self, List.mem_append, List.mem_singleton] at hx
        rcases hx with hx | rfl
        · exact hold p ps hp hps k x hx
        · exact hw _ _ (nameAllowed_of_allows hnet hallowed hp hps)
      · rw [Function.update_of_ne hk] at hx
        exact hold p ps hp hps k x hx
    · rw [hsock] at hx
      dsimp only at hx
      by_cases hk : k = kind
      · subst hk
        rw [Function.update_self] at hx
        exact hold p ps hp hps k x (List.mem_of_mem_filter hx)
      · rw [Function.update_of_ne hk] at hx
        exact hold p ps hp hps k x hx
  · rcases Core.rxPubsub_cases (net.allows w sock.name) txAuth d.core sock kind name enabled with
      ⟨hcore, hsock, -⟩ | ⟨-, -, -, -, hcore, hsock, -⟩ | ⟨-, -, -, hcore, hsock, -⟩
    · rw [hcore] at hr
      rw [hsock]
      exact Or.inr ⟨hr, fun _ => id⟩
    · rw [hcore, Core.peers_update] at hr
      rw [hsock]
      dsimp only
      by_cases hkx : k = kind ∧ x = name
      · obtain ⟨rfl, rfl⟩ := hkx
        rw [if_pos ⟨rfl, rfl⟩, Obj.get?_set] at hr
        rw [Function.update_self]
        split_ifs at hr with hy
        · cases hr
          exact Or.inl ⟨hy, rfl, List.mem_append_right _ (List.mem_singleton_self _)⟩
        · exact Or.inr ⟨hr, fun _ hx => List.mem_append_left _ hx⟩
      · rw [if_neg hkx] at hr
        refine Or.inr ⟨hr, fun _ hx => ?_⟩
        by_cases hk : k = kind
        · subst hk
          rw [Function.update_self]
          exact List.mem_append_left _ hx
        · rw [Function.update_of_ne hk]
          exact hx
    · rw [hcore, Core.peers_update] at hr
      rw [hsock]
      dsimp only
      by_cases hkx : k = kind ∧ x = name
      · obtain ⟨rfl, rfl⟩ := hkx
        rw [if_pos ⟨rfl, rfl⟩, Obj.get?_del] at hr
        split_ifs at hr with hy
        exact Or.inr ⟨hr, fun heq => absurd heq hy⟩
      · rw [if_neg hkx] at hr
        refine Or.inr ⟨hr, fun _ hx => ?_⟩
        by_cases hk : k = kind
        · subst hk
          rw [Function.update_self, List.mem_filter]
          exact ⟨hx, by simpa using fun heq => hkx ⟨rfl, heq⟩⟩
        · rw [Function.update_of_ne hk]
          exact hx

theorem DaemonOk.rxRequest (h : DaemonOk wildcard d) {w : String → String → Bool → Bool}
    (hw : ∀ ps x, nameAllowed w ps x = true → nameAllowed wildcard ps x = true) (c : Nat) (req : RxRequest) :
    DaemonOk wildcard (d.rxRequest w c req).1 := by
  unfold Daemon.rxRequest
  cases hs : d.rxSocks c with
  | none => exact h
  | some sock =>
    dsimp only
    cases ha : sock.auth with
    | true =>
      rw [if_pos rfl]
      unfold socketHandleRequest
      cases hnet : d.networks.get? sock.network with
      | none => exact h
      | some net =>
        cases req with
        | pubsub kind name enabled => exact h.rxPubsub hw hs ha hnet _ kind name enabled
        | hello => exact h
        | auth valid => exact h
        | request name => exact h
        | message name => exact h
        | other => exact h
    | false =>
      rw [if_neg Bool.false_ne_true]
      cases req with
      | hello => exact h
      | auth valid =>
        cases valid with
        | false => exact h.rxSocketClose c
        | true =>
          dsimp only
          cases hr : d.checkAuth c sock with
          | none => exact h.rxSocketClose c
          | some r =>
            obtain ⟨d₁, out₁, net₁, -, hok, hs₁, hnet₁, hfree, rfl⟩ := checkAuth_some h hs ha hr
            exact hok.authed hs₁ ha hnet₁ hfree
      | pubsub kind name enabled => exact h.rxSocketClose c
      | request name => exact h.rxSocketClose c
      | message name => exact h.rxSocketClose c
      | other => exact h.rxSocketClose c

end

end RainWrt.Unetmsg
