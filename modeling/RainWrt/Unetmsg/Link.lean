import RainWrt.Unetmsg.Core

/-! Two daemons: `A` has local clients and announces their names to `B`, over connections that it opens one after the
    other. What is in flight on a connection is in order; each end may find at any time that the connection is lost. -/

namespace RainWrt.Unetmsg

/-- What `A` sends. -/
inductive ToB where
  | auth
  | pubsub (kind : Kind) (name : String) (enabled : Bool)
  deriving DecidableEq

/-- What `B` sends: `hello`, and the reply to `auth`. -/
inductive ToA where
  | hello
  | token
  deriving DecidableEq

/-- The end of `A`. -/
inductive TxEnd where
  | none
  | opening
  | authed
  | closed
  deriving DecidableEq

/-- The end of `B`. -/
inductive RxEnd where
  | none
  | opened (sock : RxSock)
  | closed

structure Conn where
  tx : TxEnd := .none
  rx : RxEnd := .none
  toB : List ToB := []
  toA : List ToA := []

structure Link where
  a : Core
  b : Core
  conn : Nat → Conn
  /-- `net.tx_channels[B]` of `A`. -/
  tx : Option Nat
  /-- `net.rx_channels[A]` of `B`. -/
  rx : Option Nat

/-- What happens. The answers of `unetd` about tokens, and whether `B` has an authenticated channel to `A`, are arguments. -/
inductive LinkEvent where
  | client (i : Nat) (user : String) (group : Option String)
  | pubsub (kind : Kind) (i : Nat) (names : List String)
  | disconnect (i : Nat)
  | connect (c : Nat)
  | accept (c : Nat)
  | recvB (c : Nat) (valid reply txAuth : Bool)
  | recvA (c : Nat) (valid : Bool)
  | loseA (c : Nat)
  | loseB (c : Nat)

namespace Link

def setConn (s : Link) (c : Nat) (conn : Conn) : Link := { s with conn := Function.update s.conn c conn }

def announcement : Effect → Option ToB
  | .announce kind name enabled => some (.pubsub kind name enabled)
  | _ => none

/-- `pubsub_set` for all that was sent: only an authenticated channel is used. -/
def announce (s : Link) (out : List Effect) : Link :=
  match s.tx with
  | none => s
  | some c =>
    let conn := s.conn c
    if conn.tx = .authed then s.setConn c { conn with toB := conn.toB ++ out.filterMap announcement } else s

/-- The announcements of `auth_data_cb`. -/
def wholesale (a : Core) : List ToB :=
  ((a.table .publish).keys.map fun name => .pubsub .publish name true) ++
    (a.table .subscribe).keys.map fun name => .pubsub .subscribe name true

/-- `network_tx_socket_close`. -/
def closeA (s : Link) (c : Nat) : Link :=
  let s := if s.tx = some c then { s with tx := none } else s
  s.setConn c { s.conn c with tx := .closed }

/-- `network_rx_socket_close`. -/
def closeB (hostA : String) (s : Link) (c : Nat) : Link :=
  let s := if s.rx = some c then { s with rx := none, b := (s.b.rxCleanupState hostA).1 } else s
  s.setConn c { s.conn c with rx := .closed }

/-- `network_check_auth` for a token that is valid, and the reply. -/
def checkAuth (hostA : String) (s : Link) (c : Nat) (sock : RxSock) (reply : Bool) : Link :=
  let s :=
    match s.rx with
    | some old => s.closeB hostA old
    | none => s
  let s := { s with rx := some c, b := (s.b.rxCleanupState hostA).1 }
  let conn := s.conn c
  s.setConn c { conn with rx := .opened { sock with auth := true }, toA := conn.toA ++ if reply then [.token] else [] }

def step (wildcard : String → String → Bool → Bool) (network hostA : String) (s : Link) : LinkEvent → Option Link
  | .client i user group => if s.a.clients i ≠ none then none else some { s with a := s.a.clientNew i user group }
  | .pubsub kind i names =>
    let (a, out) := s.a.clientPubsub wildcard kind i names
    some ({ s with a }.announce out)
  | .disconnect i =>
    let (a, out) := s.a.clientDisconnect i
    some ({ s with a }.announce out)
  | .connect c =>
    -- `network_connect_peers` opens a channel where none is authenticated
    if (s.conn c).tx ≠ .none then none
    else
      match s.tx with
      | none => some ({ s with tx := some c }.setConn c { tx := .opening })
      | some old =>
        if (s.conn old).tx = .authed then none
        else some ({ s.closeA old with tx := some c }.setConn c { tx := .opening })
  | .accept c =>
    let conn := s.conn c
    match conn.rx with
    | .none =>
      if conn.tx = .none then none
      else some (s.setConn c { conn with rx := .opened { network, name := hostA }, toA := conn.toA ++ [.hello] })
    | _ => none
  | .recvB c valid reply txAuth =>
    let conn := s.conn c
    match conn.rx, conn.toB with
    | .opened sock, m :: toB =>
      let s := s.setConn c { conn with toB }
      match sock.auth, m with
      | false, .auth => some (if valid then s.checkAuth hostA c sock reply else s.closeB hostA c)
      | false, .pubsub .. => some (s.closeB hostA c)
      | true, .auth => some s
      | true, .pubsub kind name enabled =>
        let (b, sock, _) := s.b.rxPubsub (fun _ => true) txAuth sock kind name enabled
        some ({ s with b }.setConn c { conn with toB, rx := .opened sock })
    | _, _ => none
  | .recvA c valid =>
    let conn := s.conn c
    if conn.tx = .opening ∨ conn.tx = .authed then
      match conn.toA with
      | [] => none
      | .hello :: toA =>
        let s := s.setConn c { conn with toA }
        if conn.tx = .authed then some s
        else if valid then some (s.setConn c { conn with toA, toB := conn.toB ++ [.auth] })
        else some (s.closeA c)
      | .token :: toA =>
        if valid then some (s.setConn c { conn with toA, tx := .authed, toB := conn.toB ++ wholesale s.a })
        else some (s.setConn c { conn with toA })
    else none
  | .loseA c => if (s.conn c).tx = .opening ∨ (s.conn c).tx = .authed then some (s.closeA c) else none
  | .loseB c =>
    match (s.conn c).rx with
    | .opened _ => some (s.closeB hostA c)
    | _ => none

/-- The daemons before any client and any connection. -/
def start (acl : Kind → Obj (List String)) : Link where
  a := { clients := fun _ => none, table := fun _ => [], remote := fun _ => [], acl, nextId := 0 }
  b := { clients := fun _ => none, table := fun _ => [], remote := fun _ => [], acl, nextId := 0 }
  conn _ := {}
  tx := none
  rx := none

def run (wildcard : String → String → Bool → Bool) (network hostA : String) (s : Link) (events : List LinkEvent) : Option Link :=
  events.foldlM (step wildcard network hostA) s

end Link

end RainWrt.Unetmsg
