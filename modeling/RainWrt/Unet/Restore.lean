import RainWrt.Cli.Editor

/-! `unet.uc` and `object-editor.uc`: a session in which the data of a network is edited, restored from a file and applied. -/

namespace RainWrt.Unet

open Cli

variable {V : Type}

/-- The objects of an entry: itself, and its `config`. -/
inductive Part
  | own
  | config
deriving DecidableEq

/-- A host or a service of the data, or its configuration. -/
abbrev Entry (V : Type) := Store Part V

/-! ### Editors -/

def entryParam (attributeName : Option String) (multiple required : Bool) (getObject : Option (Part → Part)) : Param Part V where
  attributeName := attributeName
  multiple := multiple
  allowDuplicate := false
  required := required
  allowEmpty := false
  attributeAllowEmpty := false
  getObject := getObject
  add := none
  set := none
  remove := none

/-- `config_editor` -/
def configEditor : Obj (Param Part V) :=
  [("port", entryParam none false true none), ("unet-port", entryParam (some "peer-exchange-port") false true none),
   ("keepalive", entryParam none false false none), ("stun-server", entryParam none true false none)]

/-- `host_editor`, but for `name`. -/
def hostEditor : Obj (Param Part V) :=
  [("key", entryParam none false true none), ("port", entryParam none false false none),
   ("unet-port", entryParam none false false none), ("endpoint", entryParam none false false none),
   ("ipaddr", entryParam none true false none), ("subnet", entryParam none true false none),
   ("gateway", entryParam none false false none), ("group", entryParam (some "groups") true false none),
   ("meta", entryParam none false false none)]

/-- `get_config_object` -/
def getConfigObject : Part → Part := fun _ => .config

/-- `service_editor` -/
def serviceEditor : Obj (Param Part V) :=
  [("type", entryParam none false true none), ("member", entryParam (some "members") true false none),
   ("vxlan-id", entryParam (some "id") false false (some getConfigObject)),
   ("vxlan-port", entryParam (some "port") false false (some getConfigObject)),
   ("vxlan-mtu", entryParam (some "mtu") false false (some getConfigObject)),
   ("vxlan-forwarding-port", entryParam (some "forward_ports") true false (some getConfigObject)),
   ("unetmsg-allowed", entryParam (some "allowed") true false (some getConfigObject))]

/-- `types` of `edit_create_destroy`. -/
inductive Kind
  | host
  | service
deriving DecidableEq

def Kind.editor : Kind → Obj (Param Part V)
  | .host => hostEditor
  | .service => serviceEditor

/-! ### Network data -/

/-- The data of a network. -/
structure Network (V : Type) where
  config : Entry V
  /-- `hosts` and `services`, with their entries. A name can stand for null. -/
  objects : Kind → Option (Obj (Option (Entry V)))

namespace Network

/-- The entry under a name, unless it is null. -/
def entry? (data : Network V) (type : Kind) (name : String) : Option (Entry V) :=
  ((data.objects type).bind fun obj => Obj.get? obj name).join

/-- Changes the hosts or the services, if there are any. -/
def modify (data : Network V) (type : Kind) (f : Obj (Option (Entry V)) → Obj (Option (Entry V))) : Network V :=
  { data with objects := Function.update data.objects type ((data.objects type).map f) }

/-- What `restore` takes from the file, `data`, when the network has `config`. A field that is not there is read as null. -/
def restore (config : Entry V) (data : Network V) : Network V :=
  let fields := ["salt", "rounds", "id"]
  let prevConfig := fields.filterMap fun field => (Obj.get? (config .own) field).map fun val => (field, val)
  { data with config := Function.update data.config .own (prevConfig ++ fields.foldl Obj.del (data.config .own)) }

end Network

/-! ### Commands on an entry -/

/-- Commands on an object, and whether a change was reported. -/
def editEntry (L : Values V) (K : Coercion) (params : Obj (Param Part V)) : Entry V → List (Command V) → Entry V × Bool
  | entry, [] => (entry, false)
  | entry, command :: commands =>
    let r := call L K params entry ⟨some .own, command⟩
    let (entry', changed) := editEntry L K params r.store commands
    (entry', r.changed || changed)

/-- What commands do with a host: its object, the names that it is given, and whether a change was reported. -/
structure HostEdit (V : Type) where
  entry : Entry V
  names : List String
  changed : Bool

/-- The loop of `set_call` for a host, until it fails. A name is set in the hosts of `netdata.json`. Where `hasHosts` does not hold
    this raises an exception. `key` is a value as the name of a property. `changed` is whether it went through. -/
def setHost (L : Values V) (key : Option (Arg V) → String) (hasHosts : Bool) :
    Entry V → List (String × Option (Arg V)) → HostEdit V
  | entry, [] => ⟨entry, [], true⟩
  | entry, (name, val) :: named =>
    if name = "name" then
      if hasHosts then
        let r := setHost L key hasHosts entry named
        { r with names := key val :: r.names }
      else ⟨entry, [], false⟩
    else
      match (setParams hostEditor).get? name with
      | none => setHost L key hasHosts entry named
      | some cur =>
        match setEntry L .own entry cur name val with
        | (entry', some _) => ⟨entry', [], false⟩
        | (entry', none) => setHost L key hasHosts entry' named

/-- Commands on a host. -/
def editHost (L : Values V) (K : Coercion) (key : Option (Arg V) → String) (hasHosts : Bool) :
    Entry V → List (Command V) → HostEdit V
  | entry, [] => ⟨entry, [], false⟩
  | entry, command :: commands =>
    let r : HostEdit V :=
      match command with
      | .set named =>
        let r := setHost L key hasHosts entry named
        { r with changed := r.changed && !named.isEmpty }
      | _ =>
        let r := call L K hostEditor entry ⟨some .own, command⟩
        ⟨r.store, [], r.changed⟩
    let rest := editHost L K key hasHosts r.entry commands
    ⟨rest.entry, r.names ++ rest.names, r.changed || rest.changed⟩

/-- The host `name` is given one name after the other. -/
def renameHost (hosts : Obj (Option (Entry V))) : String → List String → Obj (Option (Entry V))
  | _, [] => hosts
  | name, val :: names => renameHost (Obj.del (Obj.set hosts val (Obj.get? hosts name).join) name) val names

/-- The name under which the object is found then. With the name that it has it is deleted. -/
def newName : String → List String → Option String
  | name, [] => some name
  | name, val :: names => if val = name then none else newName val names

/-! ### Sessions -/

/-- The edits of a session. Those of an entry are done on the node of the entry. -/
inductive Edit (V : Type)
  | create (type : Kind) (name : String) (named : List (String × Option (Arg V)))
  | destroy (type : Kind) (name : String)
  | host (name : String) (commands : List (Command V))
  | service (name : String) (commands : List (Command V))
  | config (commands : List (Command V))

inductive Step (V : Type)
  /-- `restore`, with the data of the file, if it has a configuration. -/
  | restore (file : Option (Network V))
  | edit (e : Edit V)
  /-- `apply`. Without the password, or where the upload fails, nothing is signed. -/
  | apply (granted : Bool)

/-- `ctx.data` of a session. -/
structure Session (V : Type) where
  objectEdit : Network V
  /-- `netdata.json`, unless it is the object of `object_edit`. -/
  restored : Option (Network V)
  changed : Bool

namespace Session

/-- `netdata.json` -/
def json (s : Session V) : Network V := s.restored.getD s.objectEdit

/-- `object_create_call`. The loop of `set_call` is on a new object. -/
def create (L : Values V) (s : Session V) (type : Kind) (name : String) (named : List (String × Option (Arg V))) : Session V :=
  let r := setFrom L (setParams type.editor) .own named (fun _ => []) named
  if r.ok then
    let obj := Obj.set ((s.objectEdit.objects type).getD []) name (some r.store)
    { s with
      objectEdit := { s.objectEdit with objects := Function.update s.objectEdit.objects type (some obj) }
      changed := s.changed || r.changed }
  else s

/-- `object_destroy_call` -/
def destroy (s : Session V) (type : Kind) (name : String) : Session V :=
  match s.objectEdit.entry? type name with
  | none => s
  | some _ => { s with objectEdit := s.objectEdit.modify type fun obj => Obj.del obj name, changed := true }

/-- The node of a host, which is looked up in `object_edit`. -/
def host (L : Values V) (K : Coercion) (key : Option (Arg V) → String) (s : Session V) (name : String) (commands : List (Command V)) :
    Session V :=
  match s.objectEdit.entry? .host name with
  | none => s
  | some entry =>
    let r := editHost L K key (s.json.objects .host).isSome entry commands
    match s.restored with
    | none =>
      { s with
        objectEdit := s.objectEdit.modify .host fun hosts =>
          let hosts := renameHost hosts name r.names
          match newName name r.names with
          | some name => Obj.set hosts name (some r.entry)
          | none => hosts
        changed := s.changed || r.changed }
    | some data =>
      { objectEdit := s.objectEdit.modify .host fun hosts => Obj.set hosts name (some r.entry)
        restored := some (data.modify .host fun hosts => renameHost hosts name r.names)
        changed := s.changed || r.changed }

/-- The node of a service. -/
def service (L : Values V) (K : Coercion) (s : Session V) (name : String) (commands : List (Command V)) : Session V :=
  match s.objectEdit.entry? .service name with
  | none => s
  | some entry =>
    let (entry', changed) := editEntry L K serviceEditor entry commands
    { s with
      objectEdit := s.objectEdit.modify .service fun services => Obj.set services name (some entry')
      changed := s.changed || changed }

/-- The node of the configuration. -/
def config (L : Values V) (K : Coercion) (s : Session V) (commands : List (Command V)) : Session V :=
  let (config, changed) := editEntry L K configEditor s.objectEdit.config commands
  { s with objectEdit := { s.objectEdit with config := config }, changed := s.changed || changed }

def edit (L : Values V) (K : Coercion) (key : Option (Arg V) → String) (s : Session V) : Edit V → Session V
  | .create type name named => s.create L type name named
  | .destroy type name => s.destroy type name
  | .host name commands => s.host L K key name commands
  | .service name commands => s.service L K name commands
  | .config commands => s.config L K commands

/-- `restore`. The data that is edited stays what it was. -/
def restore (s : Session V) (file : Option (Network V)) : Session V :=
  match file with
  | none => s
  | some data => { s with restored := some (.restore s.json.config data), changed := true }

/-- The data that `network_apply` signs. -/
def signed (s : Session V) : Option (Network V) := if s.changed then some s.json else none

def step (L : Values V) (K : Coercion) (key : Option (Arg V) → String) (s : Session V) : Step V → Session V
  | .restore file => s.restore file
  | .edit e => s.edit L K key e
  | .apply granted => if s.changed && granted then { s with changed := false } else s

end Session

/-- `network_edit`, with the data of the network. -/
def networkEdit (jsonData : Network V) : Session V where
  objectEdit := { jsonData with objects := fun type => some ((jsonData.objects type).getD []) }
  restored := none
  changed := false

end RainWrt.Unet
