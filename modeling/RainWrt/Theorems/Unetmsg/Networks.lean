import RainWrt.Theorems.Unetmsg.Daemon

/-! The networks change: what `unetd` has is taken over, and the timer of a network closes what is without a peer. -/

namespace RainWrt.Unetmsg
open Daemon

/-! ### What the networks do -/

theorem mem_networks_set {o : Obj Net} {n m : String} {net : Net} (h : o.get? n ≠ none) : (o.set m net).get? n ≠ none := by
  rw [Obj.get?_set]
  split_ifs
  · exact Option.some_ne_none net
  · exact h

theorem networks_rxSocketClose {d : Daemon} {n : String} (h : d.networks.get? n ≠ none) (c : Nat) :
    (d.rxSocketClose c).1.networks.get? n ≠ none := by
  unfold rxSocketClose
  cases d.rxSocks c with
  | none => exact h
  | some sock =>
    dsimp only
    cases d.networks.get? sock.network with
    | none => exact h
    | some net =>
      dsimp only
      split_ifs
      · exact mem_networks_set h
      · exact h

theorem networks_txSocketClose {d : Daemon} {n : String} (h : d.networks.get? n ≠ none) (c : Nat) :
    (d.txSocketClose c).networks.get? n ≠ none := by
  unfold txSocketClose
  cases d.txSocks c with
  | none => exact h
  | some sock =>
    dsimp only
    cases d.networks.get? sock.network with
    | none => exact h
    | some net =>
      dsimp only
      split_ifs
      · exact mem_networks_set h
      · exact h

theorem networks_updatePeer {d : Daemon} {n : String} (h : d.networks.get? n ≠ none) (network : String) (peers : Obj Peer)
    (e : String × Peer) : (updatePeer network peers d e).1.networks.get? n ≠ none := by
  unfold updatePeer
  split_ifs
  · exact h
  · have hrx : (d.rxChannelClose network e.1).1.networks.get? n ≠ none := by
      unfold rxChannelClose
      cases (d.rxChannels network).get? e.1 with
      | none => exact h
      | some c => exact networks_rxSocketClose h c
    dsimp only
    unfold txChannelClose
    cases ((d.rxChannelClose network e.1).1.txChannels network).get? e.1 with
    | none => exact hrx
    | some c => exact networks_txSocketClose hrx c

section
variable {P : Daemon → Prop} (htx : ∀ d c, P d → P (Daemon.txSocketClose d c))
  (hopen : ∀ d n x socket, P d → P (Daemon.openSocket d n x socket)) (hclose : ∀ d c, P d → P (Daemon.rxSocketClose d c).1)
  (hnets : ∀ (d : Daemon) nets, (∀ n x c, (({ d with networks := nets } : Daemon).rxChannels n).get? x = some c →
    (d.rxChannels n).get? x = some c) → P d → P { d with networks := nets })
  {d : Daemon}

include hclose in
theorem keeps_rxChannelClose (h : P d) (network name : String) : P (d.rxChannelClose network name).1 := by
  unfold rxChannelClose
  cases (d.rxChannels network).get? name with
  | none => exact h
  | some c => exact hclose d c h

include htx in
theorem keeps_txChannelClose (h : P d) (network name : String) : P (d.txChannelClose network name) := by
  unfold txChannelClose
  cases (d.txChannels network).get? name with
  | none => exact h
  | some c => exact htx d c h

include hclose in
theorem keeps_closeAll (h : P d) {f : Daemon → String × Nat → Daemon × List Effect}
    (hf : ∀ d e, f d e = (d, []) ∨ f d e = d.rxSocketClose e.2) (l : Obj Nat) : P (collect f d l).1 := by
  refine (collect_induct (P := P) (Q := fun _ => True) h fun d e _ hd => ⟨?_, fun _ _ => trivial⟩).1
  rcases hf d e with heq | heq
  · rw [heq]
    exact hd
  · rw [heq]
    exact hclose d e.2 hd

include hnets in
theorem keeps_networkOpen (h : P d) (name localHost : String) (info : NetInfo) (listen : Bool) :
    P (d.networkOpen name localHost info listen) := by
  unfold networkOpen
  split_ifs
  · exact h
  · refine hnets d _ (fun n x c hc => ?_) h
    rw [rxChannels_set rfl d rfl] at hc
    split_ifs at hc
    · cases hc
    · exact hc

include htx hclose hnets in
theorem keeps_networkClose (h : P d) (name : String) : P (d.networkClose name).1 := by
  have hall := keeps_closeAll hclose h (f := fun d (e : String × Nat) => d.rxSocketClose e.2) (fun _ _ => Or.inr rfl) (d.rxChannels name)
  unfold networkClose
  generalize collect (fun d (e : String × Nat) => d.rxSocketClose e.2) d (d.rxChannels name) = r at hall ⊢
  refine hnets _ _ (fun n x c hc => ?_) (List.foldlRecOn (r.1.txChannels name) _ hall fun d hd e _ => htx d e.2 hd)
  unfold rxChannels at hc ⊢
  rw [Obj.get?_del] at hc
  split_ifs at hc
  · cases hc
  · exact hc

include htx hclose hnets in
theorem keeps_networkUpdate (h : P d) {name : String} {net : Net} (hnet : d.networks.get? name = some net) (localHost : String)
    (info : NetInfo) (listen : Bool) : P (d.networkUpdate name localHost net info listen).1 := by
  unfold networkUpdate
  split_ifs
  · exact keeps_networkOpen hnets (keeps_networkClose htx hclose hnets h name) name localHost info listen
  · have hpeers := (collect_induct (f := updatePeer name info.checkPeers) (P := fun d => P d ∧ d.networks.get? name ≠ none)
      (Q := fun _ => True) (l := net.peers) ⟨h, by rw [hnet]; exact Option.some_ne_none net⟩ fun d e _ hd => ⟨⟨?_, ?_⟩, fun _ _ => trivial⟩).1
    · obtain ⟨hkept, hsome⟩ := hpeers
      obtain ⟨net₁, hget⟩ := Option.ne_none_iff_exists'.mp hsome
      dsimp only
      rw [hget, Option.getD_some]
      refine hnets _ _ (fun n x c hc => ?_) hkept
      rw [rxChannels_set rfl _ rfl] at hc
      split_ifs at hc with hn
      · rw [hn, rxChannels_of hget]
        exact hc
      · exact hc
    · unfold updatePeer
      split_ifs
      · exact hd.1
      · exact keeps_txChannelClose htx (keeps_rxChannelClose hclose hd.1 name e.1) name e.1
    · exact networks_updatePeer hd.2 name info.checkPeers e

include htx hclose hnets in
theorem keeps_unetdNetworkUpdate (h : P d) (data : NetData) (listen : String → Bool) : P (d.unetdNetworkUpdate data listen).1 := by
  have hupdate : P (collect (updateNetwork listen) d data.networks).1 := by
    refine (collect_induct (P := P) (Q := fun _ => True) h fun d e _ hd => ⟨?_, fun _ _ => trivial⟩).1
    unfold updateNetwork
    cases e.2.localHost with
    | none => exact hd
    | some localHost =>
      dsimp only
      cases hnet : d.networks.get? e.1 with
      | some net => exact keeps_networkUpdate htx hclose hnets hd hnet localHost e.2 (listen e.1)
      | none => exact keeps_networkOpen hnets hd e.1 localHost e.2 (listen e.1)
  refine (collect_induct (P := P) (Q := fun _ => True) hupdate fun d name _ hd => ⟨?_, fun _ _ => trivial⟩).1
  split_ifs
  · exact keeps_networkClose htx hclose hnets hd name
  · exact hd

include htx hopen hclose in
theorem keeps_connectPeers (h : P d) (network : String) (socket : String → Bool) : P (d.connectPeers network socket).1 := by
  unfold connectPeers
  cases d.networks.get? network with
  | none => exact h
  | some net =>
    refine keeps_closeAll hclose (List.foldlRecOn _ _ (List.foldlRecOn net.peers _ h fun d hd e _ => ?_) fun d hd e _ => ?_) (fun d e => ?_) _
    · split_ifs
      · exact hd
      · exact hopen _ network e.1 _ (keeps_txChannelClose htx hd network e.1)
    · split_ifs
      · exact htx d e.2 hd
      · exact hd
    · split_ifs
      · exact Or.inr rfl
      · exact Or.inl rfl

end

/-! ### Peers and channels -/

section
variable {wildcard : String → String → Bool → Bool} {d d' : Daemon} {n : String}

/-- A network gets other peers, and its channels in use stay. -/
theorem DaemonOk.setNet (h : DaemonOk wildcard d) {net : Net} (hrx : ∀ x, net.rx.get? x = (d.rxChannels n).get? x)
    (hlisted : ∀ c sock, d.rxSocks c = some sock → sock.auth = true → sock.network = n → ∀ p ps, net.peers.get? sock.name = some p →
      p.allowed = some ps → ∀ k, ∀ x ∈ sock.lists k, nameAllowed wildcard ps x = true) :
    DaemonOk wildcard { d with networks := d.networks.set n net } := by
  have hrx' : ∀ m x, (({ d with networks := d.networks.set n net } : Daemon).rxChannels m).get? x = (d.rxChannels m).get? x := by
    intro m x
    rw [rxChannels_set rfl d rfl]
    split_ifs with hm
    · rw [hm, hrx]
    · rfl
  refine ⟨h.fresh, fun c sock hs ha => ?_, fun m x c hc => ?_, h.unauth, fun c sock hs p ps hp hps k x hx => ?_, h.entries⟩
  · rw [hrx']
    exact h.used c sock hs ha
  · rw [hrx'] at hc
    exact h.inUse m x c hc
  · rw [peer_set rfl d rfl] at hp
    split_ifs at hp with hm
    · cases ha : sock.auth with
      | true => exact hlisted c sock hs ha hm p ps hp hps k x hx
      | false =>
        rw [h.unauth c sock hs ha k] at hx
        cases hx
    · exact h.listed c sock hs p ps hp hps k x hx

/-- What a change of one network leaves as it was. -/
structure Within (n : String) (d d' : Daemon) : Prop where
  fewer : Fewer d d'
  peer : ∀ m x, m ≠ n → d'.peer m x = d.peer m x

theorem Within.refl (n : String) (d : Daemon) : Within n d d := ⟨.refl d, fun _ _ _ => rfl⟩

theorem Within.trans {d'' : Daemon} (h : Within n d d') (h' : Within n d' d'') : Within n d d'' :=
  ⟨h.fewer.trans h'.fewer, fun m x hm => (h'.peer m x hm).trans (h.peer m x hm)⟩

/-! ### Opening and closing -/

theorem networkOpen_ok (h : DaemonOk wildcard d) (hfree : ∀ x, (d.rxChannels n).get? x = none) (localHost : String) (info : NetInfo)
    (listen : Bool) :
    DaemonOk wildcard (d.networkOpen n localHost info listen) ∧ Within n d (d.networkOpen n localHost info listen) := by
  unfold networkOpen
  split_ifs
  · exact ⟨h, .refl n d⟩
  · refine ⟨h.setNet (fun x => (hfree x).symm) fun c sock hs ha hn => ?_, ⟨fun _ _ => id, fun m x c hc => ?_⟩, fun m x hm => ?_⟩
    · have hused := h.used c sock hs ha
      rw [hn, hfree] at hused
      cases hused
    · rw [rxChannels_set rfl d rfl] at hc
      split_ifs at hc
      · cases hc
      · exact hc
    · rw [peer_set rfl d rfl, if_neg hm]

theorem networkClose_ok (h : DaemonOk wildcard d) (n : String) :
    DaemonOk wildcard (d.networkClose n).1 ∧ Within n d (d.networkClose n).1 ∧
      ∀ x, ((d.networkClose n).1.rxChannels n).get? x = none := by
  obtain ⟨hok₁, hfewer₁, hpeer₁, hgone⟩ := closeAll h (f := fun d (e : String × Nat) => d.rxSocketClose e.2) (p := fun _ => True)
    (fun _ _ => Or.inr rfl) (d.rxChannels n)
  unfold networkClose
  dsimp only
  generalize (collect (fun d (e : String × Nat) => d.rxSocketClose e.2) d (d.rxChannels n)).1 = d₁ at hok₁ hfewer₁ hpeer₁ hgone ⊢
  have hsame : SameRx d₁ ((d₁.txChannels n).foldl (fun d (e : String × Nat) => d.txSocketClose e.2) d₁) :=
    SameRx.foldl (fun d (e : String × Nat) => same_txSocketClose d e.2) _ _
  generalize (d₁.txChannels n).foldl (fun d (e : String × Nat) => d.txSocketClose e.2) d₁ = d₂ at hsame ⊢
  have hok₂ := hok₁.same hsame
  have hfewer₂ := hfewer₁.trans hsame.fewer
  have hrx : ∀ m x, (({ d₂ with networks := d₂.networks.del n } : Daemon).rxChannels m).get? x =
      if m = n then none else (d₂.rxChannels m).get? x := by
    intro m x
    unfold rxChannels
    rw [Obj.get?_del]
    split_ifs <;> rfl
  have hpeer : ∀ m x, ({ d₂ with networks := d₂.networks.del n } : Daemon).peer m x = if m = n then none else d₂.peer m x := by
    intro m x
    unfold peer
    rw [Obj.get?_del]
    split_ifs <;> rfl
  -- no channel of the network is in use any more
  have hfree : ∀ x, (d₂.rxChannels n).get? x = none := by
    intro x
    by_contra hsome
    obtain ⟨c, hc⟩ := Option.ne_none_iff_exists'.mp hsome
    obtain ⟨sock, hs, -⟩ := hok₂.inUse n x c hc
    rw [hsame.socks, hgone (x, c) (Obj.mem_of_get? (hfewer₂.rx n x c hc)) trivial] at hs
    cases hs
  refine ⟨⟨hok₂.fresh, fun c sock hs ha => ?_, fun m x c hc => ?_, hok₂.unauth, fun c sock hs p ps hp => ?_, hok₂.entries⟩,
    ⟨⟨hfewer₂.socks, fun m x c hc => ?_⟩, fun m x hm => ?_⟩, fun x => ?_⟩
  · have hused := hok₂.used c sock hs ha
    rw [hrx, if_neg, hused]
    intro hn
    rw [hn, hfree] at hused
    cases hused
  · rw [hrx] at hc
    split_ifs at hc
    exact hok₂.inUse m x c hc
  · rw [hpeer] at hp
    split_ifs at hp
    exact hok₂.listed c sock hs p ps hp
  · rw [hrx] at hc
    split_ifs at hc
    exact hfewer₂.rx m x c hc
  · rw [hpeer, if_neg hm, hsame.peer, hpeer₁]
  · rw [hrx, if_pos rfl]

/-! ### An update -/

/-- The patterns of a peer changed. -/
def Changed (peers : Obj Peer) (e : String × Peer) : Prop := e.2.allowed ≠ (peers.get? e.1).bind (·.allowed)

theorem updatePeer_ok (h : DaemonOk wildcard d) (n : String) (peers : Obj Peer) (e : String × Peer) :
    DaemonOk wildcard (updatePeer n peers d e).1 ∧ Fewer d (updatePeer n peers d e).1 ∧
      (∀ m x, (updatePeer n peers d e).1.peer m x = d.peer m x) ∧
      (Changed peers e → ((updatePeer n peers d e).1.rxChannels n).get? e.1 = none) := by
  unfold updatePeer
  by_cases heq : e.2.allowed = (peers.get? e.1).bind (·.allowed)
  · rw [if_pos heq]
    exact ⟨h, .refl d, fun _ _ => rfl, fun hne => absurd heq hne⟩
  · rw [if_neg heq]
    have hsame := same_txChannelClose (d.rxChannelClose n e.1).1 n e.1
    cases hrx : (d.rxChannels n).get? e.1 with
    | none =>
      have hclose : d.rxChannelClose n e.1 = (d, []) := by simp [rxChannelClose, hrx]
      rw [hclose] at hsame ⊢
      refine ⟨h.same hsame, hsame.fewer, hsame.peer, fun _ => ?_⟩
      rw [hsame.rx, hrx]
    | some c =>
      have hclose : d.rxChannelClose n e.1 = d.rxSocketClose c := by simp [rxChannelClose, hrx]
      rw [hclose] at hsame ⊢
      obtain ⟨hfewer, -, hpeer⟩ := fewer_rxSocketClose h c
      obtain ⟨sock, hs, ha, hn, hx⟩ := h.inUse n e.1 c hrx
      refine ⟨(h.rxSocketClose c).same hsame, hfewer.trans hsame.fewer, fun m x => (hsame.peer m x).trans (hpeer m x), fun _ => ?_⟩
      rw [hsame.rx, (rxSocketClose_auth h hs ha).2.2.2.2.1, if_pos ⟨hn.symm, hx.symm⟩]

theorem updatePeers_ok (h : DaemonOk wildcard d) (n : String) (peers : Obj Peer) (l : Obj Peer) :
    DaemonOk wildcard (collect (updatePeer n peers) d l).1 ∧ Fewer d (collect (updatePeer n peers) d l).1 ∧
      (∀ m x, (collect (updatePeer n peers) d l).1.peer m x = d.peer m x) ∧
      ∀ e ∈ l, Changed peers e → ((collect (updatePeer n peers) d l).1.rxChannels n).get? e.1 = none := by
  induction l generalizing d with
  | nil => exact ⟨h, .refl d, fun _ _ => rfl, nofun⟩
  | cons e l ih =>
    rw [collect_cons]
    obtain ⟨hok, hfewer, hpeer, hgone⟩ := updatePeer_ok h n peers e
    obtain ⟨hok', hfewer', hpeer', hgone'⟩ := ih hok
    refine ⟨hok', hfewer.trans hfewer', fun m x => (hpeer' m x).trans (hpeer m x), fun e' he' hc => ?_⟩
    rcases List.mem_cons.mp he' with rfl | he'
    · by_contra hsome
      obtain ⟨c, hsome⟩ := Option.ne_none_iff_exists'.mp hsome
      have := hfewer'.rx _ _ _ hsome
      rw [hgone hc] at this
      cases this
    · exact hgone' e' he' hc

/-- A channel whose peer was taken out meanwhile, and which is still open, has only names that the patterns allow with which
    the peer comes back. -/
def ComesBack (wildcard : String → String → Bool → Bool) (d : Daemon) (e : String × NetInfo) : Prop :=
  ∀ x c sock, (d.rxChannels e.1).get? x = some c → d.peer e.1 x = none → d.rxSocks c = some sock →
    ∀ p ps, e.2.checkPeers.get? x = some p → p.allowed = some ps → ∀ k, ∀ name ∈ sock.lists k, nameAllowed wildcard ps name = true

theorem networkUpdate_ok (h : DaemonOk wildcard d) {net : Net} (hnet : d.networks.get? n = some net) (localHost : String)
    {info : NetInfo} (hback : ComesBack wildcard d (n, info)) (listen : Bool) :
    DaemonOk wildcard (d.networkUpdate n localHost net info listen).1 ∧ Within n d (d.networkUpdate n localHost net info listen).1 := by
  unfold networkUpdate
  split_ifs
  · obtain ⟨hok, hwithin, hfree⟩ := networkClose_ok h n
    obtain ⟨hok', hwithin'⟩ := networkOpen_ok hok hfree localHost info listen
    exact ⟨hok', hwithin.trans hwithin'⟩
  · obtain ⟨hok, hfewer, hpeer, hgone⟩ := updatePeers_ok h n info.checkPeers net.peers
    -- closing channels leaves the network there
    have hget : ∃ net₁, (collect (updatePeer n info.checkPeers) d net.peers).1.networks.get? n = some net₁ := by
      cases hpeers : net.peers with
      | nil => exact ⟨net, hnet⟩
      | cons e l =>
        have hp := hpeer n e.1
        rw [peer_of hnet, hpeers, Obj.get?_cons, if_pos rfl] at hp
        obtain ⟨net₁, hnet₁, -⟩ := Option.bind_eq_some_iff.mp hp
        exact ⟨net₁, hnet₁⟩
    dsimp only
    generalize (collect (updatePeer n info.checkPeers) d net.peers).1 = d₁ at hok hfewer hpeer hgone hget ⊢
    obtain ⟨net₁, hget⟩ := hget
    rw [hget, Option.getD_some]
    -- a channel that is still in use has a peer whose patterns stay, or one that comes back
    have hlisted : ∀ c sock, d₁.rxSocks c = some sock → sock.auth = true → sock.network = n → ∀ p ps,
        info.checkPeers.get? sock.name = some p → p.allowed = some ps → ∀ k, ∀ x ∈ sock.lists k, nameAllowed wildcard ps x = true := by
      intro c sock hs ha hn p ps hp hps k x hx
      have hrx := hok.used c sock hs ha
      rw [hn] at hrx
      have hs' := hfewer.socks c sock hs
      cases hold : net.peers.get? sock.name with
      | none => exact hback sock.name c sock (hfewer.rx _ _ _ hrx) (by rw [peer_of hnet, hold]) hs' p ps hp hps k x hx
      | some q =>
        have hsame : q.allowed = some ps := by
          by_contra hne
          have hchanged : Changed info.checkPeers (sock.name, q) := by
            intro heq
            rw [heq] at hne
            simp [hp, hps] at hne
          rw [hgone (sock.name, q) (Obj.mem_of_get? hold) hchanged] at hrx
          cases hrx
        exact h.listed c sock hs' q ps (by rw [hn, peer_of hnet, hold]) hsame k x hx
    refine ⟨hok.setNet (fun x => by rw [rxChannels_of hget]) hlisted, ⟨hfewer.socks, fun m x c hc => ?_⟩, fun m x hm => ?_⟩
    · rw [rxChannels_set rfl d₁ rfl] at hc
      split_ifs at hc with hm
      · rw [← rxChannels_of hget, ← hm] at hc
        exact hfewer.rx m x c hc
      · exact hfewer.rx m x c hc
    · rw [peer_set rfl d₁ rfl, if_neg hm, hpeer]

theorem updateNetwork_ok (h : DaemonOk wildcard d) (listen : String → Bool) {e : String × NetInfo} (hback : ComesBack wildcard d e) :
    DaemonOk wildcard (updateNetwork listen d e).1 ∧ Within e.1 d (updateNetwork listen d e).1 := by
  unfold updateNetwork
  cases e.2.localHost with
  | none => exact ⟨h, .refl e.1 d⟩
  | some localHost =>
    dsimp only
    cases hnet : d.networks.get? e.1 with
    | some net => exact networkUpdate_ok h hnet localHost hback (listen e.1)
    | none =>
      refine networkOpen_ok h (fun x => ?_) localHost e.2 (listen e.1)
      simp [rxChannels, hnet]

/-- A change of another network leaves the condition. -/
theorem ComesBack.within {e : String × NetInfo} (h : ComesBack wildcard d e) (hwithin : Within n d d') (hne : e.1 ≠ n) :
    ComesBack wildcard d' e := by
  intro x c sock hrx hp hs
  rw [hwithin.peer e.1 x hne] at hp
  exact h x c sock (hwithin.fewer.rx _ _ _ hrx) hp (hwithin.fewer.socks _ _ hs)

theorem updateNetworks_ok (h : DaemonOk wildcard d) (listen : String → Bool) {l : Obj NetInfo} (hnodup : l.keys.Nodup)
    (hback : ∀ e ∈ l, ComesBack wildcard d e) : DaemonOk wildcard (collect (updateNetwork listen) d l).1 := by
  induction l generalizing d with
  | nil => exact h
  | cons e l ih =>
    rw [collect_cons]
    obtain ⟨hok, hwithin⟩ := updateNetwork_ok h listen (hback e List.mem_cons_self)
    obtain ⟨hnotin, hnodup'⟩ := List.nodup_cons.mp hnodup
    refine ih hok hnodup' fun e' he' => (hback e' (List.mem_cons_of_mem _ he')).within hwithin ?_
    intro heq
    exact hnotin (List.mem_map.mpr ⟨e', he', heq⟩)

theorem DaemonOk.unetdNetworkUpdate (h : DaemonOk wildcard d) (data : NetData) (listen : String → Bool)
    (hback : ∀ e ∈ data.networks, ComesBack wildcard d e) : DaemonOk wildcard (d.unetdNetworkUpdate data listen).1 := by
  have hok := updateNetworks_ok h listen data.nodup hback
  unfold Daemon.unetdNetworkUpdate
  refine (collect_induct (P := DaemonOk wildcard) (Q := fun _ => True) hok fun d name _ hd => ⟨?_, fun _ _ => trivial⟩).1
  split_ifs
  · exact (networkClose_ok hd name).1
  · exact hd

theorem DaemonOk.connectPeers (h : DaemonOk wildcard d) (network : String) (socket : String → Bool) :
    DaemonOk wildcard (d.connectPeers network socket).1 := by
  unfold Daemon.connectPeers
  cases d.networks.get? network with
  | none => exact h
  | some net =>
    have hopen := SameRx.foldl (f := fun d (e : String × Peer) => if d.txAuth network e.1 then d else d.openChannel network e.1 (socket e.1))
      (fun d e => by split_ifs; exacts [.refl d, same_openChannel ..]) net.peers d
    dsimp only
    generalize net.peers.foldl (fun d e => if d.txAuth network e.1 then d else d.openChannel network e.1 (socket e.1)) d = d₁ at hopen ⊢
    have hclose := SameRx.foldl (f := fun d (e : String × Nat) => if net.peers.get? e.1 = none then d.txSocketClose e.2 else d)
      (fun d e => by split_ifs; exacts [same_txSocketClose .., .refl d]) (d₁.txChannels network) d₁
    generalize (d₁.txChannels network).foldl (fun d e => if net.peers.get? e.1 = none then d.txSocketClose e.2 else d) d₁ = d₂ at hclose ⊢
    have hok := (h.same hopen).same hclose
    refine (closeAll hok (p := fun e => net.peers.get? e.1 = none) (fun d e => ?_) _).1
    split_ifs with hp
    · exact Or.inr rfl
    · exact Or.inl ⟨rfl, hp⟩

end

end RainWrt.Unetmsg
