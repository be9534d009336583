import RainWrt.Obj

/-! `unetmsgd`: the tables of the local clients and of the peers, and what is sent to whom. -/

namespace RainWrt.Unetmsg

inductive Kind where
  | publish
  | subscribe
  deriving DecidableEq

/-- What a local client gets. -/
inductive Method where
  | publish
  | message
  | request
  deriving DecidableEq

/-- An entry of a local client under a name. The ids that `gen_id` draws are taken to be distinct. -/
structure Handle where
  id : Nat
  client : Nat
  deriving DecidableEq

/-- An entry of a peer under a name. -/
structure Remote where
  network : String
  name : String
  deriving DecidableEq

structure Client where
  user : String
  group : Option String
  handles : Kind → Obj Handle

structure Core where
  clients : Nat → Option Client
  /-- `publish` and `subscribe`. -/
  table : Kind → Obj (List Handle)
  /-- `remote_publish` and `remote_subscribe`: for each name the peers. -/
  remote : Kind → Obj (Obj Remote)
  acl : Kind → Obj (List String)
  nextId : Nat

/-- What a request makes the daemon send. -/
inductive Effect where
  /-- `remote.pubsub_set`: to every peer with an authenticated channel. -/
  | announce (kind : Kind) (name : String) (enabled : Bool)
  /-- To a local client. -/
  | deliver (client : Nat) (method : Method) (name : String)
  /-- To a peer. -/
  | forward (peer : Remote) (method : Method) (name : String)
  deriving DecidableEq

/-! ### The core -/

namespace Core

/-- The handles under a name. -/
def entry (c : Core) (kind : Kind) (name : String) : List Handle := ((c.table kind).get? name).getD []

/-- The peers under a name. -/
def peers (c : Core) (kind : Kind) (name : String) : Obj Remote := ((c.remote kind).get? name).getD []

def setEntry (c : Core) (kind : Kind) (name : String) (list : List Handle) : Core :=
  { c with table := Function.update c.table kind ((c.table kind).set name list) }

/-- `acl_check`, with the function that matches a name against a pattern. -/
def aclCheck (wildcard : String → String → Bool → Bool) (c : Core) (kind : Kind) (user : String) (group : Option String)
    (names : List String) : Bool :=
  if user = "root" then true
  else
    let list := ((c.acl kind).get? user).getD []
    let list :=
      match group with
      | none => list
      | some group => list ++ ((c.acl kind).get? (":" ++ group)).getD []
    names.all fun name => list.any fun cur => wildcard name cur true

/-- `new_handle`. -/
def newHandle (c : Core) (kind : Kind) (name : String) (client : Nat) : Core × Handle :=
  let handle := { id := c.nextId, client }
  ({ c.setEntry kind name (c.entry kind name ++ [handle]) with nextId := c.nextId + 1 }, handle)

/-- `pubsub_add`. -/
def pubsubAdd (c : Core) (kind : Kind) (name : String) (client : Nat) : Core × Handle × List Effect :=
  let out := if c.entry kind name = [] ∨ kind = .publish then [.announce kind name true] else []
  let (c, handle) := c.newHandle kind name client
  (c, handle, out)

/-- `pubsub_del`: the entry stays in the table when its last handle goes. -/
def pubsubDel (c : Core) (kind : Kind) (name : String) (handle : Handle) : Core × List Effect :=
  let list := (c.entry kind name).filter (·.id ≠ handle.id)
  (c.setEntry kind name list, if list = [] ∨ kind = .publish then [.announce kind name (list ≠ [])] else [])

/-- `get_handles`: those of a client itself are left out, and `host` selects a peer or, where it is empty, the local
    clients. -/
def getHandles (own : Option Nat) (locals : List Handle) (remotes : Obj Remote) (host : Option String) :
    List Handle × List Remote :=
  let remotes := if host = some "" then [] else remotes
  let locals := if host ≠ none ∧ host ≠ some "" then [] else locals
  (locals.filter fun cur => own ≠ some cur.client,
    (remotes.map (·.2)).filter fun cur => host = none ∨ host = some cur.name)

/-- What goes to a list of handles. A client that is gone has no channel. -/
def send (c : Core) (method : Method) (name : String) (handles : List Handle × List Remote) : List Effect :=
  (handles.1.filter fun cur => (c.clients cur.client).isSome).map (fun cur => .deliver cur.client method name) ++
    handles.2.map fun cur => .forward cur method name

/-- `handle_request`. -/
def handleRequest (c : Core) (own : Option Nat) (name : String) (remote : Bool) (host : Option String) : List Effect :=
  c.send .request name (getHandles own (c.entry .publish name) (if remote then c.peers .publish name else []) host)

/-- `handle_message`. -/
def handleMessage (c : Core) (own : Option Nat) (name : String) (remote : Bool) (host : Option String) : List Effect :=
  c.send .message name (getHandles own (c.entry .subscribe name) (if remote then c.peers .subscribe name else []) host)

/-- `handle_publish`. -/
def handlePublish (c : Core) (own : Option Nat) (name : String) : List Effect :=
  c.send .publish name (getHandles own (c.entry .subscribe name) [] none)

/-! ### Local clients -/

/-- `client.new`. -/
def clientNew (c : Core) (i : Nat) (user : String) (group : Option String) : Core :=
  { c with clients := Function.update c.clients i (some { user, group, handles := fun _ => [] }) }

/-- One name of `client_pubsub`. -/
def clientAdd (kind : Kind) (i : Nat) (c : Core) (name : String) : Core × List Effect :=
  match c.clients i with
  | none => (c, [])
  | some cl =>
    if ((cl.handles kind).get? name).isSome then (c, [])
    else
      let (c, handle, out) := c.pubsubAdd kind name i
      let cl := { cl with handles := Function.update cl.handles kind ((cl.handles kind).set name handle) }
      let c := { c with clients := Function.update c.clients i (some cl) }
      (c, out ++ if kind = .publish then c.handlePublish (some i) name else [])

/-- `client_pubsub`. -/
def clientPubsub (wildcard : String → String → Bool → Bool) (c : Core) (kind : Kind) (i : Nat) (names : List String) :
    Core × List Effect :=
  match c.clients i with
  | none => (c, [])
  | some cl => if c.aclCheck wildcard kind cl.user cl.group names then collect (clientAdd kind i) c names else (c, [])

/-- `client_request` with a message or a request. -/
def clientRequest (wildcard : String → String → Bool → Bool) (c : Core) (method : Method) (i : Nat) (name : String)
    (host : Option String) : List Effect :=
  match c.clients i, method with
  | some cl, .message => if ((cl.handles .publish).get? name).isSome then c.handleMessage (some i) name true host else []
  | some cl, .request =>
    if ((cl.handles .subscribe).get? name).isSome || c.aclCheck wildcard .subscribe cl.user cl.group [name] then
      c.handleRequest (some i) name true host
    else []
  | _, _ => []

/-- One name of `client_disconnect`. -/
def clientDel (kind : Kind) (c : Core) (e : String × Handle) : Core × List Effect :=
  let out := if kind = .publish then c.handlePublish (some e.2.client) e.1 else []
  let (c, out') := c.pubsubDel kind e.1 e.2
  (c, out ++ out')

/-- `client_disconnect`. -/
def clientDisconnect (c : Core) (i : Nat) : Core × List Effect :=
  match c.clients i with
  | none => (c, [])
  | some cl =>
    let (c, out₁) := collect (clientDel .publish) c (cl.handles .publish)
    let (c, out₂) := collect (clientDel .subscribe) c (cl.handles .subscribe)
    ({ c with clients := Function.update c.clients i none }, out₁ ++ out₂)

end Core

/-! ### Announcements of a peer -/

/-- An incoming connection, with the names that the peer has announced on it. -/
structure RxSock where
  network : String
  name : String
  lists : Kind → List String := fun _ => []
  auth : Bool := false

namespace Core

/-- `network_rx_cleanup_state`. -/
def rxCleanupState (c : Core) (host : String) : Core × List Effect :=
  let c := { c with remote := Function.update c.remote .subscribe ((c.remote .subscribe).mapVals (·.del host)) }
  let gone := (c.remote .publish).keys.filter fun cur => ((c.peers .publish cur).get? host).isSome
  let c := { c with remote := Function.update c.remote .publish ((c.remote .publish).mapVals (·.del host)) }
  (c, gone.flatMap fun cur => c.handlePublish none cur)

/-- `publish` and `subscribe` in `network_socket_handle_request`. -/
def rxPubsub (allowed : String → Bool) (txAuth : Bool) (c : Core) (sock : RxSock) (kind : Kind) (name : String) (enabled : Bool) :
    Core × RxSock × List Effect :=
  let host := sock.name
  let list := sock.lists kind
  let notify := fun c : Core => if kind = .publish then c.handlePublish none name else []
  if name = "" then (c, sock, [])
  else if enabled then
    if name ∈ list then (c, sock, if txAuth then notify c else [])
    else if !allowed name then (c, sock, [])
    else
      let peers := (c.peers kind name).set host { network := sock.network, name := host }
      let c := { c with remote := Function.update c.remote kind ((c.remote kind).set name peers) }
      (c, { sock with lists := Function.update sock.lists kind (list ++ [name]) }, if txAuth then notify c else [])
  else if name ∉ list then (c, sock, [])
  else
    let out := notify c
    let c := { c with remote := Function.update c.remote kind ((c.remote kind).set name ((c.peers kind name).del host)) }
    (c, { sock with lists := Function.update sock.lists kind (list.filter (· ≠ name)) }, out)

end Core

end RainWrt.Unetmsg
