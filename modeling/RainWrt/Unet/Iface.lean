import RainWrt.Cli.Editor

/-! `unet.uc`: the interface of a network, which is edited and then written to its section in UCI. -/

namespace RainWrt.Unet

open Cli

variable {V U : Type}

/-- The options of a section, without those whose names start with a dot. -/
structure Section (U : Type) where
  options : Obj U
  nodup : (Obj.keys options).Nodup

/-- The values that an option can have: a text that is not empty, or a list of such. -/
def Storable (empty : V → Bool) : Arg V → Prop
  | .list vals => vals ≠ [] ∧ ∀ v ∈ vals, empty v = false
  | .one v => empty v = false
  | .null => False

/-- What is done with values by `uci` and by `==`. -/
structure Cursor (V U : Type) where
  /-- An option as the editor sees it. -/
  load : U → Arg V
  /-- A value as it is stored. -/
  store : Arg V → U
  /-- `iface_orig[name] == val`, of an option that is there and a value. -/
  eq : U → Arg V → Bool
  /-- Whether a value is the empty text. -/
  empty : V → Bool
  /-- `cur.set`, from the option before. An empty text or list is no value of an option. -/
  set : Option U → Arg V → Option U
  set_eq : ∀ old val, Storable empty val → set old val = some (store val)

/-! ### Edits -/

/-- A parameter of `iface_editor`. -/
def ifaceParam (attributeName : Option String) (multiple : Bool) : Param Unit V where
  attributeName := attributeName
  multiple := multiple
  allowDuplicate := false
  required := false
  allowEmpty := true
  attributeAllowEmpty := false
  getObject := none
  add := none
  set := none
  remove := none

/-- `iface_editor` -/
def ifaceEditor : Obj (Param Unit V) :=
  [("metric", ifaceParam none false), ("zone", ifaceParam none false), ("domain", ifaceParam none false),
   ("local-network", ifaceParam (some "local_network") true), ("connect", ifaceParam none true)]

/-- `netdata`, as far as it is about the interface. -/
structure Netdata (V : Type) where
  /-- `netdata.iface`. -/
  iface : Store Unit V
  ifaceChanged : Bool := false

/-- The data of `network_edit`. -/
def Netdata.new (C : Cursor V U) (orig : Section U) : Netdata V := { iface := fun _ => Obj.mapVals orig.options C.load }

/-- A command on the interface, which reports a change. -/
def Netdata.edit (L : Values V) (K : Coercion) (netdata : Netdata V) (command : Command V) : Netdata V :=
  let r := call L K ifaceEditor netdata.iface ⟨some (), command⟩
  { iface := r.store, ifaceChanged := netdata.ifaceChanged || r.changed }

/-! ### Saving -/

/-- A round of the loop of `network_iface_save`: the section and `changed`. -/
def saveEntry (C : Cursor V U) (ifaceOrig : Obj U) (cur : Obj U × Bool) (e : String × Arg V) : Obj U × Bool :=
  match e.2 with
  | .null => if (Obj.get? ifaceOrig e.1).isNone then cur else (Obj.del cur.1 e.1, true)
  | val =>
    if (Obj.get? ifaceOrig e.1).any fun u => C.eq u val then cur
    else
      match C.set (Obj.get? cur.1 e.1) val with
      | some u => (Obj.set cur.1 e.1 u, true)
      | none => (Obj.del cur.1 e.1, true)

/-- `network_iface_save`: the section that is left, and what is returned. -/
def networkIfaceSave (C : Cursor V U) (orig : Section U) (netdata : Netdata V) : Obj U × Bool :=
  if !netdata.ifaceChanged then (orig.options, false)
  else (netdata.iface ()).foldl (saveEntry C orig.options) (orig.options, false)

end RainWrt.Unet
