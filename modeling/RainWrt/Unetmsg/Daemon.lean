import RainWrt.Unetmsg.Core

/-! `unetmsgd-remote`: the networks, their peers and the channels from and to them. What goes to peers when a channel is
    authenticated is left out here. -/

namespace RainWrt.Unetmsg

structure Peer where
  address : String
  /-- The patterns; without them all names are allowed. -/
  allowed : Option (List String)
  deriving DecidableEq

/-- An outgoing connection. -/
structure TxSock where
  network : String
  name : String
  auth : Bool := false

structure Net where
  localHost : String
  localAddress : String
  peers : Obj Peer
  /-- `rx_channels`. -/
  rx : Obj Nat
  /-- `tx_channels`. -/
  tx : Obj Nat

/-- A service of the network definition, with `config.allowed`. -/
structure Service where
  type : String
  members : List String
  allowed : Option (List String)

/-- A network as `unetd` has it. -/
structure NetInfo where
  localHost : Option String
  localAddress : String
  /-- The addresses. -/
  peers : Obj String
  services : Obj Service

/-- What `network_get` returns. -/
structure NetData where
  networks : Obj NetInfo
  nodup : networks.keys.Nodup

structure Daemon where
  core : Core
  networks : Obj Net
  /-- The incoming connections that are open. -/
  rxSocks : Nat → Option RxSock
  txSocks : Nat → Option TxSock
  nextSock : Nat

/-- A request on an incoming connection. The answer of `unetd` about the token of `auth` is an argument. -/
inductive RxRequest where
  | hello
  | auth (valid : Bool)
  | pubsub (kind : Kind) (name : String) (enabled : Bool)
  | request (name : String)
  | message (name : String)
  | other

inductive DaemonEvent where
  | client (i : Nat) (user : String) (group : Option String)
  | clientPubsub (kind : Kind) (i : Nat) (names : List String)
  | clientRequest (method : Method) (i : Nat) (name : String) (host : Option String)
  | clientDisconnect (i : Nat)
  | acl (acl : Kind → Obj (List String))
  | accept (network address : String)
  | rx (c : Nat) (req : RxRequest)
  | rxDisconnect (c : Nat)
  | rxTimeout (c : Nat)
  /-- The timer of a network; whether a socket could be made for a peer is an argument. -/
  | connectPeers (network : String) (socket : String → Bool)
  /-- A request on an outgoing connection; whether a token could be made is an argument. -/
  | txRequest (c : Nat) (hello token : Bool)
  | txReply (c : Nat) (valid : Bool)
  | txDisconnect (c : Nat)
  /-- `network_update` of `unetd`; whether a network's socket could be made is an argument. -/
  | networkUpdate (data : NetData) (listen : String → Bool)

/-- The test of a name against patterns. -/
def nameAllowed (wildcard : String → String → Bool → Bool) (patterns : List String) (name : String) : Bool :=
  patterns.any fun cur => wildcard name cur false

/-- `allowed` in `network_socket_handle_request`. Without the peer there is an exception, and nothing happens. -/
def Net.allows (wildcard : String → String → Bool → Bool) (net : Net) (host name : String) : Bool :=
  match net.peers.get? host with
  | none => false
  | some peer =>
    match peer.allowed with
    | none => true
    | some patterns => nameAllowed wildcard patterns name

/-- `push` of what is not in the array. -/
def pushNew (l l' : List String) : List String := l'.foldl (fun l cur => if cur ∈ l then l else l ++ [cur]) l

/-- `unetd_network_check_peers`. -/
def NetInfo.checkPeers (info : NetInfo) : Obj Peer :=
  let services := (info.services.map (·.2)).filter (·.type = "unetmsg")
  if services = [] then info.peers.mapVals fun address => { address, allowed := none }
  else
    let services := services.filter fun v => info.localHost.any fun host => host ∈ v.members
    info.peers.filterMap fun (name, address) =>
      let allowed := services.foldl (fun allowed data => if name ∈ data.members then pushNew allowed (data.allowed.getD ["*"]) else allowed) []
      if allowed = [] then none else some (name, { address, allowed := some allowed })

namespace Daemon

def rxChannels (d : Daemon) (network : String) : Obj Nat := ((d.networks.get? network).map (·.rx)).getD []

def txChannels (d : Daemon) (network : String) : Obj Nat := ((d.networks.get? network).map (·.tx)).getD []

/-- There is an authenticated channel to the peer. -/
def txAuth (d : Daemon) (network host : String) : Bool :=
  (((d.txChannels network).get? host).bind d.txSocks).any (·.auth)

/-- `network_rx_socket_close`. -/
def rxSocketClose (d : Daemon) (c : Nat) : Daemon × List Effect :=
  match d.rxSocks c with
  | none => (d, [])
  | some sock =>
    let rxSocks := Function.update d.rxSocks c none
    match d.networks.get? sock.network with
    | none => ({ d with rxSocks }, [])
    | some net =>
      if net.rx.get? sock.name = some c then
        let (core, out) := d.core.rxCleanupState sock.name
        ({ d with rxSocks, core, networks := d.networks.set sock.network { net with rx := net.rx.del sock.name } }, out)
      else ({ d with rxSocks }, [])

/-- `network_tx_socket_close`. -/
def txSocketClose (d : Daemon) (c : Nat) : Daemon :=
  match d.txSocks c with
  | none => d
  | some sock =>
    let txSocks := Function.update d.txSocks c none
    match d.networks.get? sock.network with
    | none => { d with txSocks }
    | some net =>
      if net.tx.get? sock.name = some c then
        { d with txSocks, networks := d.networks.set sock.network { net with tx := net.tx.del sock.name } }
      else { d with txSocks }

/-- The channel from a peer is closed. -/
def rxChannelClose (d : Daemon) (network name : String) : Daemon × List Effect :=
  match (d.rxChannels network).get? name with
  | some c => d.rxSocketClose c
  | none => (d, [])

/-- The channel to a peer is closed. -/
def txChannelClose (d : Daemon) (network name : String) : Daemon :=
  match (d.txChannels network).get? name with
  | some c => d.txSocketClose c
  | none => d

/-- `network_socket_handle_request`. -/
def socketHandleRequest (wildcard : String → String → Bool → Bool) (d : Daemon) (c : Nat) (sock : RxSock) (req : RxRequest) :
    Daemon × List Effect :=
  match d.networks.get? sock.network with
  | none => (d, [])
  | some net =>
    match req with
    | .pubsub kind name enabled =>
      let (core, sock, out) :=
        d.core.rxPubsub (net.allows wildcard sock.name) (d.txAuth sock.network sock.name) sock kind name enabled
      ({ d with core, rxSocks := Function.update d.rxSocks c (some sock) }, out)
    | .request name => (d, d.core.handleRequest none name false none)
    | .message name => (d, d.core.handleMessage none name false none)
    | _ => (d, [])

/-- `network_check_auth` for a token that is valid. -/
def checkAuth (d : Daemon) (c : Nat) (sock : RxSock) : Option (Daemon × List Effect) :=
  match d.networks.get? sock.network with
  | none => none
  | some net =>
    if net.peers.get? sock.name = none then none
    else
      let (d, out₁) := d.rxChannelClose sock.network sock.name
      let (core, out₂) := d.core.rxCleanupState sock.name
      let net := (d.networks.get? sock.network).getD net
      some ({ d with
        core
        rxSocks := Function.update d.rxSocks c (some { sock with auth := true })
        networks := d.networks.set sock.network { net with rx := net.rx.set sock.name c } }, out₁ ++ out₂)

/-- `network_accept`. -/
def accept (d : Daemon) (network address : String) : Daemon :=
  match d.networks.get? network with
  | none => d
  | some net =>
    match (net.peers.filter (·.2.address = address)).getLast? with
    | none => d
    | some (name, _) =>
      if name = "" then d
      else { d with rxSocks := Function.update d.rxSocks d.nextSock (some { network, name }), nextSock := d.nextSock + 1 }

/-- The callback of an incoming connection. -/
def rxRequest (wildcard : String → String → Bool → Bool) (d : Daemon) (c : Nat) (req : RxRequest) : Daemon × List Effect :=
  match d.rxSocks c with
  | none => (d, [])
  | some sock =>
    if sock.auth then d.socketHandleRequest wildcard c sock req
    else
      match req with
      | .hello => (d, [])
      | .auth true => (d.checkAuth c sock).getD (d.rxSocketClose c)
      | _ => d.rxSocketClose c

/-- The timer of an incoming connection, which is stopped when it is authenticated. -/
def rxTimeout (d : Daemon) (c : Nat) : Daemon :=
  if (d.rxSocks c).any (!·.auth) then { d with rxSocks := Function.update d.rxSocks c none } else d

/-- `network_open_channel` behind the closing of an older channel. -/
def openSocket (d : Daemon) (network name : String) (socket : Bool) : Daemon :=
  match d.networks.get? network with
  | none => d
  | some net =>
    if !socket then d
    else { d with
      txSocks := Function.update d.txSocks d.nextSock (some { network, name })
      networks := d.networks.set network { net with tx := net.tx.set name d.nextSock }
      nextSock := d.nextSock + 1 }

/-- `network_open_channel`. -/
def openChannel (d : Daemon) (network name : String) (socket : Bool) : Daemon :=
  (d.txChannelClose network name).openSocket network name socket

/-- `network_connect_peers`. -/
def connectPeers (d : Daemon) (network : String) (socket : String → Bool) : Daemon × List Effect :=
  match d.networks.get? network with
  | none => (d, [])
  | some net =>
    let d := net.peers.foldl (fun d e => if d.txAuth network e.1 then d else d.openChannel network e.1 (socket e.1)) d
    let d := (d.txChannels network).foldl (fun d e => if net.peers.get? e.1 = none then d.txSocketClose e.2 else d) d
    collect (fun d e => if net.peers.get? e.1 = none then d.rxSocketClose e.2 else (d, [])) d (d.rxChannels network)

/-- The callback of an outgoing connection. -/
def txRequest (d : Daemon) (c : Nat) (hello token : Bool) : Daemon :=
  if (d.txSocks c).any (·.auth) then d else if hello && token then d else d.txSocketClose c

/-- `auth_data_cb`. -/
def txReply (d : Daemon) (c : Nat) (valid : Bool) : Daemon × List Effect :=
  match d.txSocks c with
  | none => (d, [])
  | some sock =>
    if !valid then (d, [])
    else
      let names := (((d.rxChannels sock.network).get? sock.name).bind d.rxSocks).elim [] (·.lists .publish)
      ({ d with txSocks := Function.update d.txSocks c (some { sock with auth := true }) },
        names.flatMap fun name => d.core.handlePublish none name)

/-- `network_open`. -/
def networkOpen (d : Daemon) (name localHost : String) (info : NetInfo) (listen : Bool) : Daemon :=
  if !listen then d
  else
    let net := { localHost, localAddress := info.localAddress, peers := info.checkPeers, rx := [], tx := [] }
    { d with networks := d.networks.set name net }

/-- `network_close`. -/
def networkClose (d : Daemon) (name : String) : Daemon × List Effect :=
  let (d, out) := collect (fun d e => d.rxSocketClose e.2) d (d.rxChannels name)
  let d := (d.txChannels name).foldl (fun d e => d.txSocketClose e.2) d
  ({ d with networks := d.networks.del name }, out)

/-- A peer of `network_update`: its channels are closed when its patterns change. -/
def updatePeer (network : String) (peers : Obj Peer) (d : Daemon) (e : String × Peer) : Daemon × List Effect :=
  if e.2.allowed = (peers.get? e.1).bind (·.allowed) then (d, [])
  else
    let (d, out) := d.rxChannelClose network e.1
    (d.txChannelClose network e.1, out)

/-- `network_update`. -/
def networkUpdate (d : Daemon) (name localHost : String) (net : Net) (info : NetInfo) (listen : Bool) : Daemon × List Effect :=
  if net.localHost ≠ localHost ∨ net.localAddress ≠ info.localAddress then
    let (d, out) := d.networkClose name
    (d.networkOpen name localHost info listen, out)
  else
    let (d, out) := collect (updatePeer name info.checkPeers) d net.peers
    let net := (d.networks.get? name).getD net
    ({ d with networks := d.networks.set name { net with peers := info.checkPeers } }, out)

/-- A network of `unetd_network_update`. -/
def updateNetwork (listen : String → Bool) (d : Daemon) (e : String × NetInfo) : Daemon × List Effect :=
  match e.2.localHost with
  | none => (d, [])
  | some localHost =>
    match d.networks.get? e.1 with
    | some net => d.networkUpdate e.1 localHost net e.2 (listen e.1)
    | none => (d.networkOpen e.1 localHost e.2 (listen e.1), [])

/-- `unetd_network_update`. -/
def unetdNetworkUpdate (d : Daemon) (data : NetData) (listen : String → Bool) : Daemon × List Effect :=
  let (d, out₁) := collect (updateNetwork listen) d data.networks
  let (d, out₂) := collect (fun d name => if data.networks.get? name = none then d.networkClose name else (d, [])) d d.networks.keys
  (d, out₁ ++ out₂)

def step (wildcard : String → String → Bool → Bool) (d : Daemon) : DaemonEvent → Daemon × List Effect
  | .client i user group => if d.core.clients i ≠ none then (d, []) else ({ d with core := d.core.clientNew i user group }, [])
  | .clientPubsub kind i names =>
    let (core, out) := d.core.clientPubsub wildcard kind i names
    ({ d with core }, out)
  | .clientRequest method i name host => (d, d.core.clientRequest wildcard method i name host)
  | .clientDisconnect i =>
    let (core, out) := d.core.clientDisconnect i
    ({ d with core }, out)
  | .acl acl => ({ d with core := { d.core with acl } }, [])
  | .accept network address => (d.accept network address, [])
  | .rx c req => d.rxRequest wildcard c req
  | .rxDisconnect c => d.rxSocketClose c
  | .rxTimeout c => (d.rxTimeout c, [])
  | .connectPeers network socket => d.connectPeers network socket
  | .txRequest c hello token => (d.txRequest c hello token, [])
  | .txReply c valid => d.txReply c valid
  | .txDisconnect c => (d.txSocketClose c, [])
  | .networkUpdate data listen => d.unetdNetworkUpdate data listen

def start (acl : Kind → Obj (List String)) : Daemon where
  core := { clients := fun _ => none, table := fun _ => [], remote := fun _ => [], acl, nextId := 0 }
  networks := []
  rxSocks _ := none
  txSocks _ := none
  nextSock := 0

def run (wildcard : String → String → Bool → Bool) (d : Daemon) (events : List DaemonEvent) : Daemon :=
  events.foldl (fun d e => (d.step wildcard e).1) d

end Daemon

end RainWrt.Unetmsg
