import RainWrt.Theorems.Unetmsg.Announce

/-! When all in flight has come, `B` has `A` under a name if and only if a client of `A` has the name. This needs that no
    entry without a handle is there when `A` is authenticated: `auth_data_cb` announces every name of the tables. -/

namespace RainWrt.Unetmsg

/-! ### The list and the table of `B` -/

namespace Core
variable {c : Core} {sock : RxSock}

theorem mem_lists_rxPubsub (txAuth : Bool) (c : Core) (sock : RxSock) (kind : Kind) (name : String) (enabled : Bool) (k : Kind)
    (n : String) :
    n ∈ (c.rxPubsub (fun _ => true) txAuth sock kind name enabled).2.1.lists k ↔
      if k = kind ∧ n = name ∧ name ≠ "" then enabled = true else n ∈ sock.lists k := by
  rcases rxPubsub_cases (fun _ => true) txAuth c sock kind name enabled with
    ⟨-, hsock, hwhy, -⟩ | ⟨hname, rfl, -, -, -, hsock, -⟩ | ⟨hname, rfl, -, -, hsock, -⟩
  · rw [hsock]
    split_ifs with h
    · obtain ⟨rfl, rfl, hname⟩ := h
      rcases hwhy with heq | ⟨henabled, hmem | hallowed⟩ | ⟨henabled, hmem⟩
      · exact absurd heq hname
      · exact iff_of_true hmem henabled
      · cases hallowed
      · exact iff_of_false hmem (by simp [henabled])
    · rfl
  · rw [hsock]
    dsimp only
    by_cases hk : k = kind
    · subst hk
      rw [Function.update_self, List.mem_append, List.mem_singleton]
      split_ifs with h
      · simp [h.2.1]
      · have hn : n ≠ name := fun heq => h ⟨rfl, heq, hname⟩
        simp [hn]
    · rw [Function.update_of_ne hk, if_neg fun h => hk h.1]
  · rw [hsock]
    dsimp only
    by_cases hk : k = kind
    · subst hk
      rw [Function.update_self, List.mem_filter]
      split_ifs with h
      · simp [h.2.1]
      · have hn : n ≠ name := fun heq => h ⟨rfl, heq, hname⟩
        simp [hn]
    · rw [Function.update_of_ne hk, if_neg fun h => hk h.1]

/-- The names under which the table has the peer. -/
def Mirrors (c : Core) (host : String) (sock : RxSock) : Prop := ∀ k n, c.Has k n host ↔ n ∈ sock.lists k

theorem mirrors_rxPubsub {allowed : String → Bool} {txAuth : Bool} (h : c.Mirrors sock.name sock) (kind : Kind) (name : String)
    (enabled : Bool) :
    (c.rxPubsub allowed txAuth sock kind name enabled).1.Mirrors sock.name
      (c.rxPubsub allowed txAuth sock kind name enabled).2.1 := by
  intro k n
  rcases rxPubsub_cases allowed txAuth c sock kind name enabled with
    ⟨hc, hsock, -⟩ | ⟨-, -, -, -, hc, hsock, -⟩ | ⟨-, -, -, hc, hsock, -⟩
  · rw [hc, hsock]
    exact h k n
  · rw [hc, hsock]
    unfold Has
    rw [peers_update]
    dsimp only
    by_cases hk : k = kind
    · subst hk
      rw [Function.update_self, List.mem_append, List.mem_singleton]
      split_ifs with heq
      · simp [heq.2, Obj.get?_set_self]
      · have hn : n ≠ name := fun hn => heq ⟨rfl, hn⟩
        simpa [hn, Has] using h k n
    · rw [Function.update_of_ne hk, if_neg fun heq => hk heq.1]
      exact h k n
  · rw [hc, hsock]
    unfold Has
    rw [peers_update]
    dsimp only
    by_cases hk : k = kind
    · subst hk
      rw [Function.update_self, List.mem_filter]
      split_ifs with heq
      · simp [heq.2, Obj.get?_del]
      · have hn : n ≠ name := fun hn => heq ⟨rfl, hn⟩
        simpa [hn, Has] using h k n
    · rw [Function.update_of_ne hk, if_neg fun heq => hk heq.1]
      exact h k n

theorem rxPubsub_sock (allowed : String → Bool) (txAuth : Bool) (c : Core) (sock : RxSock) (kind : Kind) (name : String)
    (enabled : Bool) :
    (c.rxPubsub allowed txAuth sock kind name enabled).2.1.name = sock.name ∧
      (c.rxPubsub allowed txAuth sock kind name enabled).2.1.auth = sock.auth ∧
      (c.rxPubsub allowed txAuth sock kind name enabled).2.1.network = sock.network := by
  rcases rxPubsub_cases allowed txAuth c sock kind name enabled with
    ⟨-, hsock, -⟩ | ⟨-, -, -, -, -, hsock, -⟩ | ⟨-, -, -, -, hsock, -⟩ <;> rw [hsock] <;> exact ⟨rfl, rfl, rfl⟩

end Core

/-! ### The invariant -/

section
variable (hostA : String) (kind : Kind) (name : String)

/-- What holds of a connection, with the names of `A` and the channels that the daemons have in use. -/
structure ConnOk (a : Core) (tx rx : Option Nat) (c : Nat) (conn : Conn) : Prop where
  fresh : conn.tx = .none → conn.rx = .none
  host : ∀ sock, conn.rx = .opened sock → sock.name = hostA
  current : ∀ sock, conn.rx = .opened sock → sock.auth = true → rx = some c
  unauth : ∀ sock, conn.rx = .opened sock → sock.auth = false → ∀ k, sock.lists k = []
  opening : conn.tx = .opening → (∀ m ∈ conn.toB, m = .auth) ∧ ∀ sock, conn.rx = .opened sock → ∀ k, sock.lists k = []
  token : ToA.token ∈ conn.toA ∨ conn.tx = .authed → conn.rx ≠ .none ∧ ∀ sock, conn.rx = .opened sock → sock.auth = true
  only : conn.tx = .opening ∨ conn.tx = .authed → tx = some c
  agree : conn.tx = .authed → ∀ sock, conn.rx = .opened sock →
    told kind name (decide (name ∈ sock.lists kind)) conn.toB = decide (a.entry kind name ≠ [])

/-- The table of `B` has what is on the list of the channel in use. -/
def Mirrored (b : Core) (rx : Option Nat) (conn : Nat → Conn) : Prop :=
  match rx with
  | none => ∀ k n, ¬b.Has k n hostA
  | some c => ∃ sock, (conn c).rx = .opened sock ∧ sock.auth = true ∧ b.Mirrors hostA sock

structure LinkOk (s : Link) : Prop where
  tidy : s.a.Tidy
  conns : ∀ c, ConnOk hostA kind name s.a s.tx s.rx c (s.conn c)
  mirrored : Mirrored hostA s.b s.rx s.conn

end

theorem ConnOk.frame {hostA : String} {kind : Kind} {name : String} {a a' : Core} {tx tx' rx rx' : Option Nat} {c : Nat} {conn : Conn}
    (h : ConnOk hostA kind name a tx rx c conn) (htx : conn.tx = .opening ∨ conn.tx = .authed → tx' = some c)
    (hrx : ∀ sock, conn.rx = .opened sock → sock.auth = true → rx' = some c)
    (ha : conn.tx = .authed → a'.entry kind name = a.entry kind name) : ConnOk hostA kind name a' tx' rx' c conn where
  fresh := h.fresh
  host := h.host
  current := hrx
  unauth := h.unauth
  opening := h.opening
  token := h.token
  only := htx
  agree ht := by
    rw [ha ht]
    exact h.agree ht

theorem Mirrored.congr {hostA : String} {b : Core} {rx : Option Nat} {conn conn' : Nat → Conn} (h : Mirrored hostA b rx conn)
    (hconn : ∀ c, rx = some c → (conn' c).rx = (conn c).rx) : Mirrored hostA b rx conn' := by
  cases rx with
  | none => exact h
  | some c =>
    obtain ⟨sock, hsock, hrest⟩ := h
    exact ⟨sock, (hconn c rfl).trans hsock, hrest⟩

namespace LinkOk
variable {hostA : String} {kind : Kind} {name : String} {s : Link} {c : Nat} {conn : Conn}

theorem start (acl : Kind → Obj (List String)) : LinkOk hostA kind name (Link.start acl) where
  tidy := by
    refine ⟨fun i cl h => ?_, fun k n h hh => ?_, fun k n h hh => ?_, fun k n h hh => ?_⟩
    · cases h
    · cases hh
    · cases hh
    · cases hh
  conns c := by
    refine ⟨fun _ => rfl, fun sock h => ?_, fun sock h => ?_, fun sock h => ?_, fun h => ?_, fun h => ?_, fun h => ?_, fun h => ?_⟩
    · cases h
    · cases h
    · cases h
    · cases h
    · rcases h with h | h <;> cases h
    · rcases h with h | h <;> cases h
    · cases h
  mirrored k n h := by cases h

theorem of_setConn (htidy : s.a.Tidy) (hconn : ConnOk hostA kind name s.a s.tx s.rx c conn)
    (hother : ∀ c', c' ≠ c → ConnOk hostA kind name s.a s.tx s.rx c' (s.conn c'))
    (hm : Mirrored hostA s.b s.rx (Function.update s.conn c conn)) : LinkOk hostA kind name (s.setConn c conn) where
  tidy := htidy
  conns c' := by
    show ConnOk hostA kind name s.a s.tx s.rx c' (Function.update s.conn c conn c')
    by_cases hc : c' = c
    · subst hc
      rw [Function.update_self]
      exact hconn
    · rw [Function.update_of_ne hc]
      exact hother c' hc
  mirrored := hm

/-- A connection changes, and the end of `B` stays as it is. -/
theorem setConn (h : LinkOk hostA kind name s) (hconn : ConnOk hostA kind name s.a s.tx s.rx c conn) (hrx : conn.rx = (s.conn c).rx) :
    LinkOk hostA kind name (s.setConn c conn) := by
  refine of_setConn h.tidy hconn (fun c' _ => h.conns c') (h.mirrored.congr fun c' _ => ?_)
  by_cases hc : c' = c
  · subst hc
    rw [Function.update_self, hrx]
  · rw [Function.update_of_ne hc]

/-! ### The ends of a connection -/

theorem closeA (h : LinkOk hostA kind name s) (c : Nat) : LinkOk hostA kind name (s.closeA c) := by
  have hconn : ∀ tx, ConnOk hostA kind name s.a tx s.rx c { s.conn c with tx := .closed } := by
    intro tx
    have hold := h.conns c
    refine ⟨nofun, hold.host, hold.current, hold.unauth, nofun, fun ht => ?_, nofun, nofun⟩
    exact hold.token (Or.inl (ht.resolve_right nofun))
  have hrx : Mirrored hostA s.b s.rx (Function.update s.conn c { s.conn c with tx := .closed }) := by
    refine h.mirrored.congr fun c' _ => ?_
    by_cases hc : c' = c
    · subst hc
      rw [Function.update_self]
    · rw [Function.update_of_ne hc]
  unfold Link.closeA
  by_cases htx : s.tx = some c
  · rw [if_pos htx]
    refine of_setConn (s := { s with tx := none }) h.tidy (hconn none) (fun c' hc => ?_) hrx
    refine (h.conns c').frame (fun ht => ?_) (h.conns c').current fun _ => rfl
    exact absurd (Option.some.inj (((h.conns c').only ht).symm.trans htx)) hc
  · rw [if_neg htx]
    exact of_setConn h.tidy (hconn s.tx) (fun c' _ => h.conns c') hrx

theorem closeA_tx (c : Nat) (h : s.tx = some c) : (s.closeA c).tx = none := by
  unfold Link.closeA
  rw [if_pos h]
  rfl

theorem closeA_rx (c c' : Nat) : ((s.closeA c).conn c').rx = (s.conn c').rx := by
  have hconn : (if s.tx = some c then { s with tx := none } else s).conn = s.conn := by split_ifs <;> rfl
  unfold Link.closeA
  simp only [Link.setConn, hconn]
  by_cases hc : c' = c
  · subst hc
    rw [Function.update_self]
  · rw [Function.update_of_ne hc]

theorem closeB (h : LinkOk hostA kind name s) {sock : RxSock} (hsock : (s.conn c).rx = .opened sock) :
    LinkOk hostA kind name (s.closeB hostA c) := by
  have hold := h.conns c
  have hconn : ∀ rx, ConnOk hostA kind name s.a s.tx rx c { s.conn c with rx := .closed } := by
    intro rx
    refine ⟨fun ht => ?_, nofun, nofun, nofun, fun ht => ⟨(hold.opening ht).1, nofun⟩, fun _ => ⟨nofun, nofun⟩, hold.only,
      fun _ => nofun⟩
    rw [hold.fresh ht] at hsock
    cases hsock
  unfold Link.closeB
  by_cases hrx : s.rx = some c
  · rw [if_pos hrx]
    refine of_setConn (s := { s with rx := none, b := (s.b.rxCleanupState hostA).1 }) h.tidy (hconn none) (fun c' hc => ?_)
      fun k n hhas => ?_
    · refine (h.conns c').frame (h.conns c').only (fun sock' hs ha => ?_) fun _ => rfl
      exact absurd (Option.some.inj (((h.conns c').current sock' hs ha).symm.trans hrx)) hc
    · exact (Core.has_rxCleanupState.mp hhas).1 rfl
  · rw [if_neg hrx]
    refine of_setConn h.tidy (hconn s.rx) (fun c' _ => h.conns c') (h.mirrored.congr fun c' hc' => ?_)
    have hne : c' ≠ c := fun heq => hrx (heq ▸ hc')
    rw [Function.update_of_ne hne]

theorem closeB_rx (h : s.rx = some c) : (s.closeB hostA c).rx = none := by
  unfold Link.closeB
  rw [if_pos h]
  rfl

theorem closeB_conn {c' : Nat} (h : c' ≠ c) : (s.closeB hostA c).conn c' = s.conn c' := by
  have hconn : (if s.rx = some c then { s with rx := none, b := (s.b.rxCleanupState hostA).1 } else s).conn = s.conn := by
    split_ifs <;> rfl
  unfold Link.closeB
  show Function.update _ c _ c' = _
  rw [Function.update_of_ne h, hconn]

/-! ### The steps -/

theorem announce_cases (s : Link) (out : List Effect) :
    (∃ c, s.tx = some c ∧ (s.conn c).tx = .authed ∧
      s.announce out = s.setConn c { s.conn c with toB := (s.conn c).toB ++ out.filterMap Link.announcement }) ∨
    ((∀ c, s.tx = some c → (s.conn c).tx ≠ .authed) ∧ s.announce out = s) := by
  unfold Link.announce
  cases htx : s.tx with
  | none => exact Or.inr ⟨nofun, rfl⟩
  | some c =>
    dsimp only
    split_ifs with hauth
    · exact Or.inl ⟨c, rfl, hauth, rfl⟩
    · refine Or.inr ⟨?_, rfl⟩
      rintro _ ⟨⟩
      exact hauth

theorem announce (h : LinkOk hostA kind name s) {a : Core} {out : List Effect} (ha : a.Tidy) (hf : Follows s.a a out) :
    LinkOk hostA kind name ({ s with a }.announce out) := by
  rcases announce_cases { s with a } out with ⟨c, htx, hauth, heq⟩ | ⟨hnone, heq⟩
  · rw [heq]
    have hold := h.conns c
    refine of_setConn (s := { s with a }) ha ?_ (fun c' hc => ?_) (h.mirrored.congr fun c' _ => ?_)
    · refine ⟨hold.fresh, hold.host, hold.current, hold.unauth, fun ht => ?_, hold.token, hold.only, fun ht sock hs => ?_⟩
      · rw [hauth] at ht
        cases ht
      · rw [told_append, hold.agree ht sock hs]
        exact hf kind name
    · -- no other connection is authenticated
      refine (h.conns c').frame (h.conns c').only (h.conns c').current fun ht => ?_
      exact absurd (Option.some.inj (((h.conns c').only (Or.inr ht)).symm.trans htx)) hc
    · by_cases hc : c' = c
      · subst hc
        rw [Function.update_self]
      · rw [Function.update_of_ne hc]
  · rw [heq]
    refine ⟨ha, fun c => (h.conns c).frame (h.conns c).only (h.conns c).current fun ht => ?_, h.mirrored⟩
    exact absurd ht (hnone c ((h.conns c).only (Or.inr ht)))

/-- A new connection when none is in use. -/
theorem connect (h : LinkOk hostA kind name s) (htx : s.tx = none) (hc : (s.conn c).rx = .none) :
    LinkOk hostA kind name ({ s with tx := some c }.setConn c { tx := .opening }) := by
  refine of_setConn (s := { s with tx := some c }) h.tidy ?_ (fun c' _ => ?_) (h.mirrored.congr fun c' _ => ?_)
  · refine ⟨nofun, nofun, nofun, nofun, fun _ => ⟨nofun, nofun⟩, fun ht => ?_, fun _ => rfl, nofun⟩
    rcases ht with ht | ht <;> cases ht
  · refine (h.conns c').frame (fun ht => ?_) (h.conns c').current fun _ => rfl
    exact absurd ((h.conns c').only ht) (by simp [htx])
  · by_cases heq : c' = c
    · subst heq
      rw [Function.update_self]
      exact hc.symm
    · rw [Function.update_of_ne heq]

theorem accept (h : LinkOk hostA kind name s) (network : String) (hrx : (s.conn c).rx = .none) (htx : (s.conn c).tx ≠ .none) :
    LinkOk hostA kind name (s.setConn c { s.conn c with
      rx := .opened { network, name := hostA }, toA := (s.conn c).toA ++ [.hello] }) := by
  have hold := h.conns c
  -- a connection that `B` has not seen gave `A` no token
  have hnew : ¬(ToA.token ∈ (s.conn c).toA ∨ (s.conn c).tx = .authed) := fun ht => (hold.token ht).1 hrx
  refine of_setConn h.tidy ?_ (fun c' _ => h.conns c') (h.mirrored.congr fun c' hc' => ?_)
  · refine ⟨fun ht => absurd ht htx, ?_, ?_, ?_, fun ht => ⟨(hold.opening ht).1, ?_⟩, fun ht => absurd ?_ hnew, hold.only,
      fun ht => absurd (Or.inr ht) hnew⟩
    · rintro sock ⟨⟩
      rfl
    · rintro sock ⟨⟩ ha
      cases ha
    · rintro sock ⟨⟩ _ k
      rfl
    · rintro sock ⟨⟩ k
      rfl
    · simpa using ht
  · have hne : c' ≠ c := by
      rintro rfl
      have hm := h.mirrored
      rw [hc'] at hm
      obtain ⟨sock, hsock, -⟩ := hm
      rw [hrx] at hsock
      cases hsock
    rw [Function.update_of_ne hne]

/-- A message is taken that says nothing about the name, or of which `A` knows nothing any more. -/
theorem pop (h : LinkOk hostA kind name s) {m : ToB} {toB : List ToB} (hq : (s.conn c).toB = m :: toB)
    (hm : m = .auth ∨ (s.conn c).tx ≠ .authed) : LinkOk hostA kind name (s.setConn c { s.conn c with toB }) := by
  have hold := h.conns c
  refine h.setConn ⟨hold.fresh, hold.host, hold.current, hold.unauth, fun ht => ⟨fun m' hm' => ?_, (hold.opening ht).2⟩, hold.token,
    hold.only, fun ht sock hs => ?_⟩ rfl
  · exact (hold.opening ht).1 m' (hq ▸ List.mem_cons_of_mem _ hm')
  · have hagree := hold.agree ht sock hs
    rw [hq] at hagree
    rcases hm with rfl | hm
    · exact hagree
    · exact absurd ht hm

/-- `B` takes a connection in use when it has no other. -/
theorem authed (h : LinkOk hostA kind name s) (hrx : s.rx = none) {sock : RxSock} (hsock : (s.conn c).rx = .opened sock)
    (hauth : sock.auth = false) (toA : List ToA) :
    LinkOk hostA kind name ({ s with rx := some c, b := (s.b.rxCleanupState hostA).1 }.setConn c
      { s.conn c with rx := .opened { sock with auth := true }, toA }) := by
  have hold := h.conns c
  -- without a token `A` takes the connection as not authenticated
  have hnew : (s.conn c).tx ≠ .authed := fun ht => by
    have := (hold.token (Or.inr ht)).2 sock hsock
    rw [hauth] at this
    cases this
  refine of_setConn (s := { s with rx := some c, b := (s.b.rxCleanupState hostA).1 }) h.tidy ?_ (fun c' hc => ?_) ?_
  · refine ⟨fun ht => ?_, ?_, fun _ _ _ => rfl, ?_, fun ht => ⟨(hold.opening ht).1, ?_⟩, fun _ => ⟨nofun, ?_⟩, hold.only,
      fun ht => absurd ht hnew⟩
    · rw [hold.fresh ht] at hsock
      cases hsock
    · rintro _ ⟨⟩
      exact hold.host sock hsock
    · rintro _ ⟨⟩ ha
      cases ha
    · rintro _ ⟨⟩ k
      exact hold.unauth sock hsock hauth k
    · rintro _ ⟨⟩
      rfl
  · refine (h.conns c').frame (h.conns c').only (fun sock' hs ha => ?_) fun _ => rfl
    have := (h.conns c').current sock' hs ha
    rw [hrx] at this
    cases this
  · refine ⟨{ sock with auth := true }, by rw [Function.update_self], rfl, fun k n => ?_⟩
    refine iff_of_false (fun hhas => (Core.has_rxCleanupState.mp hhas).1 rfl) ?_
    rw [show ({ sock with auth := true } : RxSock).lists k = sock.lists k from rfl, hold.unauth sock hsock hauth k]
    exact nofun

theorem checkAuth (h : LinkOk hostA kind name s) {sock : RxSock} (hsock : (s.conn c).rx = .opened sock) (hauth : sock.auth = false)
    (reply : Bool) : LinkOk hostA kind name (s.checkAuth hostA c sock reply) := by
  have hm := h.mirrored
  cases hrx : s.rx with
  | none =>
    simp only [Link.checkAuth, hrx]
    exact h.authed hrx hsock hauth _
  | some old =>
    rw [hrx] at hm
    obtain ⟨sock', hsock', hauth', -⟩ := hm
    -- the channel in use is another one, and is closed first
    have hne : c ≠ old := by
      rintro rfl
      rw [hsock] at hsock'
      cases hsock'
      rw [hauth] at hauth'
      cases hauth'
    simp only [Link.checkAuth, hrx]
    have hsame : ((s.closeB hostA old).conn c).rx = .opened sock := by rw [closeB_conn hne, hsock]
    exact (h.closeB hsock').authed (closeB_rx hrx) hsame hauth _

theorem rxPubsub (h : LinkOk hostA kind name s) (hname : name ≠ "") {sock : RxSock} (hsock : (s.conn c).rx = .opened sock)
    (hauth : sock.auth = true) {k : Kind} {n : String} {enabled : Bool} {toB : List ToB}
    (hq : (s.conn c).toB = .pubsub k n enabled :: toB) (txAuth : Bool) :
    LinkOk hostA kind name ({ s with b := (s.b.rxPubsub (fun _ => true) txAuth sock k n enabled).1 }.setConn c
      { s.conn c with toB, rx := .opened (s.b.rxPubsub (fun _ => true) txAuth sock k n enabled).2.1 }) := by
  have hold := h.conns c
  have hrx := hold.current sock hsock hauth
  obtain ⟨hsname, hsauth, -⟩ := Core.rxPubsub_sock (fun _ => true) txAuth s.b sock k n enabled
  refine of_setConn (s := { s with b := (s.b.rxPubsub (fun _ => true) txAuth sock k n enabled).1 }) h.tidy ?_ (fun c' _ => h.conns c') ?_
  · refine ⟨fun ht => ?_, ?_, fun _ _ _ => hrx, ?_, fun ht => ?_, fun _ => ⟨nofun, ?_⟩, hold.only, ?_⟩
    · rw [hold.fresh ht] at hsock
      cases hsock
    · rintro _ ⟨⟩
      rw [hsname]
      exact hold.host sock hsock
    · rintro _ ⟨⟩ ha
      rw [hsauth, hauth] at ha
      cases ha
    · have := (hold.opening ht).1 (.pubsub k n enabled) (hq ▸ List.mem_cons_self)
      cases this
    · rintro _ ⟨⟩
      rw [hsauth, hauth]
    · rintro ht _ ⟨⟩
      have hagree := hold.agree ht sock hsock
      rw [hq] at hagree
      rw [← hagree]
      -- what the list has now is what the message says
      have hnow : decide (name ∈ (s.b.rxPubsub (fun _ => true) txAuth sock k n enabled).2.1.lists kind) =
          tell kind name (decide (name ∈ sock.lists kind)) (.pubsub k n enabled) := by
        rw [Bool.eq_iff_iff, decide_eq_true_eq, Core.mem_lists_rxPubsub]
        by_cases heq : k = kind ∧ n = name
        · obtain ⟨rfl, rfl⟩ := heq
          simp [tell, hname]
        · have heq' : ¬(kind = k ∧ name = n ∧ n ≠ "") := fun hh => heq ⟨hh.1.symm, hh.2.1.symm⟩
          simp [tell, heq, heq']
      rw [hnow]
      rfl
  · show Mirrored hostA _ s.rx _
    rw [hrx]
    refine ⟨_, by rw [Function.update_self], by rw [hsauth, hauth], ?_⟩
    have hm := h.mirrored
    rw [hrx] at hm
    obtain ⟨sock', hsock', -, hmirrors⟩ := hm
    rw [hsock] at hsock'
    cases hsock'
    have hhost := hold.host sock hsock
    rw [← hhost] at hmirrors ⊢
    exact Core.mirrors_rxPubsub hmirrors k n enabled

/-- `A` takes the token: what it announces is what it has, where no entry is without a handle. -/
theorem recvToken (h : LinkOk hostA kind name s) {toA : List ToA} (hq : (s.conn c).toA = .token :: toA)
    (htx : (s.conn c).tx = .opening ∨ (s.conn c).tx = .authed) (hentry : (s.a.table kind).get? name ≠ some []) :
    LinkOk hostA kind name (s.setConn c { s.conn c with toA, tx := .authed, toB := (s.conn c).toB ++ Link.wholesale s.a }) := by
  have hold := h.conns c
  obtain ⟨hrx, hauth⟩ := hold.token (Or.inl (hq ▸ List.mem_cons_self))
  refine h.setConn ⟨nofun, hold.host, hold.current, hold.unauth, nofun, fun _ => ⟨hrx, hauth⟩, fun _ => hold.only htx,
    fun _ sock hs => ?_⟩ rfl
  -- what was told before is nothing, or already what `A` has
  have hbefore : told kind name (decide (name ∈ sock.lists kind)) (s.conn c).toB = true → s.a.entry kind name ≠ [] := by
    intro ht
    rcases htx with htx | htx
    · rw [told_of_auth (hold.opening htx).1, (hold.opening htx).2 sock hs kind] at ht
      cases of_decide_eq_true ht
    · rw [hold.agree htx sock hs] at ht
      exact of_decide_eq_true ht
  have hiff : ((s.a.table kind).get? name).isSome = true ↔ s.a.entry kind name ≠ [] := by
    unfold Core.entry
    cases hget : (s.a.table kind).get? name with
    | none => simp
    | some l =>
      rw [hget] at hentry
      simpa using hentry
  rw [told_append, told_wholesale, Bool.eq_iff_iff, Bool.or_eq_true, decide_eq_true_eq, hiff]
  exact ⟨fun hor => hor.elim hbefore id, Or.inr⟩

end LinkOk

/-! ### Runs -/

/-- No entry for the name is without a handle when `A` gets a valid token. -/
def Fresh (kind : Kind) (name : String) (s : Link) : LinkEvent → Prop
  | .recvA c true => (s.conn c).toA.head? = some .token → (s.a.table kind).get? name ≠ some []
  | _ => True

section
variable (wildcard : String → String → Bool → Bool) (network hostA : String) (kind : Kind) (name : String)

/-- Each step of a run is so. -/
def AlwaysFresh : Link → List LinkEvent → Prop
  | _, [] => True
  | s, e :: l => Fresh kind name s e ∧ ∀ s', s.step wildcard network hostA e = some s' → AlwaysFresh s' l

end

section
variable {wildcard : String → String → Bool → Bool} {network hostA : String} {kind : Kind} {name : String} {s s' : Link}

theorem LinkOk.recvB (h : LinkOk hostA kind name s) (hname : name ≠ "") {c : Nat} {valid reply txAuth : Bool}
    (hs : s.step wildcard network hostA (.recvB c valid reply txAuth) = some s') : LinkOk hostA kind name s' := by
  have hold := h.conns c
  simp only [Link.step] at hs
  split at hs
  · rename_i sock m toB hrx hq
    have hset : ∀ b conn, ({ s.setConn c { s.conn c with toB } with b } : Link).setConn c conn = { s with b }.setConn c conn := by
      intro b conn
      simp [Link.setConn]
    have hsock : ((s.setConn c { s.conn c with toB }).conn c).rx = .opened sock := by
      simp [Link.setConn, hrx]
    -- nothing comes on a connection that `A` takes as authenticated but `B` does not
    have hpop : sock.auth = false → LinkOk hostA kind name (s.setConn c { s.conn c with toB }) := by
      refine fun hauth => h.pop hq (Or.inr fun ht => ?_)
      have := (hold.token (Or.inr ht)).2 sock hrx
      rw [hauth] at this
      cases this
    split at hs
    · rename_i hauth
      rw [← Option.some.inj hs]
      split_ifs
      · exact (hpop hauth).checkAuth hsock hauth reply
      · exact (hpop hauth).closeB hsock
    · rename_i hauth
      rw [← Option.some.inj hs]
      exact (hpop hauth).closeB hsock
    · rw [← Option.some.inj hs]
      exact h.pop hq (Or.inl rfl)
    · rename_i k n enabled hauth
      rw [← Option.some.inj hs]
      rw [hset]
      exact h.rxPubsub hname hrx hauth hq txAuth
  · cases hs

theorem LinkOk.recvA (h : LinkOk hostA kind name s) {c : Nat} {valid : Bool} (hfresh : Fresh kind name s (.recvA c valid))
    (hs : s.step wildcard network hostA (.recvA c valid) = some s') : LinkOk hostA kind name s' := by
  have hold := h.conns c
  simp only [Link.step] at hs
  by_cases htx : (s.conn c).tx = .opening ∨ (s.conn c).tx = .authed
  swap
  · rw [if_neg htx] at hs
    cases hs
  rw [if_pos htx] at hs
  cases hq : (s.conn c).toA with
  | nil =>
    rw [hq] at hs
    cases hs
  | cons m toA =>
    rw [hq] at hs
    have hpop : LinkOk hostA kind name (s.setConn c { s.conn c with toA }) := by
      refine h.setConn ⟨hold.fresh, hold.host, hold.current, hold.unauth, hold.opening, fun ht => hold.token (ht.imp_left fun ht => ?_),
        hold.only, hold.agree⟩ rfl
      exact hq ▸ List.mem_cons_of_mem _ ht
    have hset : ∀ conn, (s.setConn c { s.conn c with toA }).setConn c conn = s.setConn c conn := by
      intro conn
      simp [Link.setConn]
    cases m with
    | hello =>
      by_cases hauth : (s.conn c).tx = .authed
      · simp only [if_pos hauth, Option.some.injEq] at hs
        rw [← hs]
        exact hpop
      · cases valid with
        | true =>
          simp only [if_neg hauth, if_true, Option.some.injEq] at hs
          rw [← hs, hset]
          refine h.setConn ⟨hold.fresh, hold.host, hold.current, hold.unauth, fun ht => ⟨fun m hm => ?_, (hold.opening ht).2⟩,
            fun ht => hold.token (ht.imp_left fun ht => ?_), hold.only, fun ht => absurd ht hauth⟩ rfl
          · rcases List.mem_append.mp hm with hm | hm
            · exact (hold.opening ht).1 m hm
            · exact List.mem_singleton.mp hm
          · exact hq ▸ List.mem_cons_of_mem _ ht
        | false =>
          simp only [if_neg hauth, Bool.false_eq_true, if_false, Option.some.injEq] at hs
          rw [← hs]
          exact hpop.closeA c
    | token =>
      cases valid with
      | true =>
        cases hs
        exact h.recvToken hq htx (hfresh (by rw [hq]; rfl))
      | false =>
        cases hs
        exact hpop

theorem LinkOk.step (h : LinkOk hostA kind name s) (hname : name ≠ "") {e : LinkEvent} (hfresh : Fresh kind name s e)
    (hs : s.step wildcard network hostA e = some s') : LinkOk hostA kind name s' := by
  cases e with
  | client i user group =>
    simp only [Link.step] at hs
    split_ifs at hs with hi
    cases hs
    have hnone : s.a.clients i = none := by simpa using hi
    exact ⟨Core.tidy_clientNew h.tidy hnone user group,
      fun c => (h.conns c).frame (h.conns c).only (h.conns c).current fun _ => rfl, h.mirrored⟩
  | pubsub k i names =>
    cases hs
    exact h.announce (Core.tidy_clientPubsub wildcard h.tidy k i names) (Core.follows_clientPubsub wildcard s.a k i names)
  | disconnect i =>
    cases hs
    exact h.announce (Core.tidy_clientDisconnect h.tidy i) (Core.follows_clientDisconnect s.a i)
  | connect c =>
    simp only [Link.step] at hs
    split_ifs at hs with hc
    have hrx := (h.conns c).fresh (not_not.mp hc)
    cases htx : s.tx with
    | none =>
      rw [htx] at hs
      cases hs
      exact h.connect htx hrx
    | some old =>
      rw [htx] at hs
      dsimp only at hs
      split_ifs at hs
      cases hs
      exact (h.closeA old).connect (LinkOk.closeA_tx old htx) ((LinkOk.closeA_rx old c).trans hrx)
  | accept c =>
    simp only [Link.step] at hs
    cases hrx : (s.conn c).rx with
    | none =>
      rw [hrx] at hs
      dsimp only at hs
      split_ifs at hs with htx
      cases hs
      exact h.accept network hrx htx
    | opened sock =>
      rw [hrx] at hs
      cases hs
    | closed =>
      rw [hrx] at hs
      cases hs
  | recvB c valid reply txAuth => exact h.recvB hname hs
  | recvA c valid => exact h.recvA hfresh hs
  | loseA c =>
    simp only [Link.step] at hs
    split_ifs at hs
    cases hs
    exact h.closeA c
  | loseB c =>
    simp only [Link.step] at hs
    cases hrx : (s.conn c).rx with
    | none =>
      rw [hrx] at hs
      cases hs
    | opened sock =>
      rw [hrx] at hs
      cases hs
      exact h.closeB hrx
    | closed =>
      rw [hrx] at hs
      cases hs

theorem LinkOk.run (h : LinkOk hostA kind name s) (hname : name ≠ "") {events : List LinkEvent}
    (hfresh : AlwaysFresh wildcard network hostA kind name s events) (hs : s.run wildcard network hostA events = some s') :
    LinkOk hostA kind name s' := by
  induction events generalizing s with
  | nil =>
    cases hs
    exact h
  | cons e events ih =>
    simp only [Link.run, List.foldlM_cons, Option.bind_eq_bind, Option.bind_eq_some_iff] at hs
    obtain ⟨s₁, hstep, hrest⟩ := hs
    exact ih (h.step hname hfresh.1 hstep) (hfresh.2 s₁ hstep) hrest

/-- A connection that both ends take as authenticated, with nothing in flight to `B`. -/
def Settled (s : Link) (c : Nat) : Prop :=
  s.tx = some c ∧ (s.conn c).tx = .authed ∧ (∃ sock, (s.conn c).rx = .opened sock) ∧ (s.conn c).toB = []

/-- In a run where no entry is without a handle at an authentication, `B` has `A` under a name when all has come if and only
    if a client of `A` has the name. -/
theorem announcements_agree (wildcard : String → String → Bool → Bool) (network hostA : String) (acl : Kind → Obj (List String))
    (kind : Kind) (name : String) (hname : name ≠ "") (events : List LinkEvent)
    (hfresh : AlwaysFresh wildcard network hostA kind name (Link.start acl) events) (s : Link)
    (hs : (Link.start acl).run wildcard network hostA events = some s) (c : Nat) (hsettled : Settled s c) :
    s.b.Has kind name hostA ↔ s.a.Live kind name := by
  have h := (LinkOk.start acl).run hname hfresh hs
  obtain ⟨-, htx, ⟨sock, hsock⟩, hq⟩ := hsettled
  have hconn := h.conns c
  have hauth := (hconn.token (Or.inr htx)).2 sock hsock
  have hagree := hconn.agree htx sock hsock
  rw [hq] at hagree
  -- the list of `B` is the one of this connection
  have hm := h.mirrored
  rw [hconn.current sock hsock hauth] at hm
  obtain ⟨sock', hsock', -, hmirrors⟩ := hm
  rw [hsock] at hsock'
  cases hsock'
  calc s.b.Has kind name hostA ↔ name ∈ sock.lists kind := hmirrors kind name
    _ ↔ s.a.entry kind name ≠ [] := decide_eq_decide.mp hagree
    _ ↔ s.a.Live kind name := (Core.live_iff h.tidy).symm

theorem AlwaysFresh.cons {e : LinkEvent} {l : List LinkEvent} (hs : s.step wildcard network hostA e = some s')
    (hf : Fresh kind name s e) (h : AlwaysFresh wildcard network hostA kind name s' l) :
    AlwaysFresh wildcard network hostA kind name s (e :: l) := by
  refine ⟨hf, fun s'' hs'' => ?_⟩
  rw [hs] at hs''
  cases hs''
  exact h

end

/-- A client publishes a name before the first connection. -/
theorem announcements_agree_once : ∃ s, (Link.start fun _ => []).run (fun _ _ _ => false) "net" "a"
      [.client 0 "root" none, .pubsub .publish 0 ["x"], .connect 0, .accept 0, .recvA 0 true, .recvB 0 true true false, .recvA 0 true,
        .recvB 0 true true false] = some s ∧
    Settled s 0 ∧ (s.b.Has .publish "x" "a" ↔ s.a.Live .publish "x") := by
  have hfresh : AlwaysFresh (fun _ _ _ => false) "net" "a" .publish "x" (Link.start fun _ => [])
      [.client 0 "root" none, .pubsub .publish 0 ["x"], .connect 0, .accept 0, .recvA 0 true, .recvB 0 true true false, .recvA 0 true,
        .recvB 0 true true false] := by
    refine .cons rfl trivial (.cons rfl trivial (.cons rfl trivial (.cons rfl trivial (.cons rfl ?_ (.cons rfl trivial
      (.cons rfl ?_ (.cons rfl trivial trivial)))))))
    · exact nofun
    · exact fun _ => nofun
  obtain ⟨s, hs, hsettled⟩ : ∃ s, (Link.start fun _ => []).run (fun _ _ _ => false) "net" "a"
      [.client 0 "root" none, .pubsub .publish 0 ["x"], .connect 0, .accept 0, .recvA 0 true, .recvB 0 true true false, .recvA 0 true,
        .recvB 0 true true false] = some s ∧ Settled s 0 := ⟨_, rfl, rfl, rfl, ⟨_, rfl⟩, rfl⟩
  exact ⟨s, hs, hsettled, announcements_agree _ "net" "a" _ .publish "x" (by decide) _ hfresh s hs 0 hsettled⟩

/-- The client is gone before the first connection, and its name is announced nevertheless. -/
theorem announcements_stale : ∃ s, (Link.start fun _ => []).run (fun _ _ _ => false) "net" "a"
      [.client 0 "root" none, .pubsub .publish 0 ["x"], .disconnect 0, .connect 0, .accept 0, .recvA 0 true, .recvB 0 true true false,
        .recvA 0 true, .recvB 0 true true false] = some s ∧
    Settled s 0 ∧ s.b.Has .publish "x" "a" ∧ ¬s.a.Live .publish "x" := by
  refine ⟨_, rfl, ⟨rfl, rfl, ⟨_, rfl⟩, rfl⟩, ?_, ?_⟩
  · exact rfl
  · rintro ⟨i, cl, hcl, -⟩
    cases i with
    | zero => cases hcl
    | succ i => cases hcl

end RainWrt.Unetmsg
