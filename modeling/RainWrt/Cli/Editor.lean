import RainWrt.Cli.Number
import RainWrt.Obj

/-! `object-editor.uc`: the commands `add`, `set` and `remove` on the attributes of an object. -/

namespace RainWrt.Cli

variable {P V : Type}

/-- Values of the language, as the editor looks at them. -/
structure Values (V : Type) where
  /-- `===`, by which `index` compares the entries of an array with a value. -/
  same : V → V → Bool
  text : Text → V
  /-- `index(x, v) >= 0`, for a value `x` that is no array. A text is searched for a part. -/
  inside : V → V → Bool
  /-- Whether a value that is no array counts as true. -/
  truthy : V → Bool
  /-- `length(x)`, in a comparison, for a value that is no array. -/
  size : V → Number

/-- What an attribute holds and what a parameter is given: the values of one that may be repeated, one value, or null. -/
inductive Arg (V : Type)
  | list (vals : List V)
  | one (val : V)
  | null
deriving DecidableEq

/-- The objects that calls can reach. One that is not there is an empty one. -/
abbrev Store (P V : Type) := P → Obj (Arg V)

/-- The list under a name. -/
def Store.list (s : Store P V) (p : P) (name : String) : Option (List V) :=
  match (s p).get? name with
  | some (.list l) => some l
  | _ => none

section
variable [DecidableEq P]

def Store.put (s : Store P V) (p : P) (name : String) (val : Arg V) : Store P V :=
  Function.update s p ((s p).set name val)

def Store.delete (s : Store P V) (p : P) (name : String) : Store P V := Function.update s p ((s p).del name)

/-- `obj[name] ??= []`. -/
def Store.ensure (s : Store P V) (p : P) (name : String) : Store P V :=
  match (s p).get? name with
  | none | some .null => s.put p name (.list [])
  | _ => s

end

/-- A parameter of an object. -/
structure Param (P V : Type) where
  attributeName : Option String
  multiple : Bool
  allowDuplicate : Bool
  required : Bool
  allowEmpty : Bool
  attributeAllowEmpty : Bool
  /-- From the object that is edited to the one that holds the attribute. -/
  getObject : Option (P → P)
  /-- The parameter's own ways of doing it. -/
  add : Option (Store P V → List V → Store P V)
  set : Option (Store P V → Option (Arg V) → Store P V)
  remove : Option (Store P V → List Text → Store P V)

namespace Param

/-- Where the parameter `name` is kept in an object. -/
def key (cur : Param P V) (name : String) : String := cur.attributeName.getD name

/-- `get_param_object`. -/
def getParamObject (cur : Param P V) (obj : P) : P :=
  match cur.getObject with
  | some f => f obj
  | none => obj

end Param

/-- An error of a call: the message and its values. -/
inductive Error (V : Type)
  /-- "Duplicate value: %s" -/
  | duplicate (v : V)
  /-- "Invalid value: %s" -/
  | invalidValue (idx : Text)
  /-- "Invalid argument" -/
  | invalidArgument
deriving DecidableEq

/-- What a call leaves: the objects, the errors, whether it said `ok`, and whether it reported a change. A call that raises an
    exception ends without either. -/
structure Result (P V : Type) where
  store : Store P V
  errors : List (Error V)
  ok : Bool
  changed : Bool

/-- `call_change_cb` and `ctx.ok`. -/
def done {α : Type} (s : Store P V) (named : List α) : Result P V := ⟨s, [], true, !named.isEmpty⟩

def fail (s : Store P V) (errors : List (Error V)) : Result P V := ⟨s, errors, false, false⟩

variable [DecidableEq P] (L : Values V)

/-- `index(l, v) >= 0`. -/
def Values.has (l : List V) (v : V) : Bool := l.any fun x => L.same x v

/-- `val && index(val, v) >= 0`, for what an attribute holds. -/
def Values.holds (val : Option (Arg V)) (v : V) : Bool :=
  match val with
  | some (.list l) => L.has l v
  | some (.one x) => L.truthy x && L.inside x v
  | _ => false

/-- The loop of `check_duplicate`, behind the values `seen`. -/
def duplicateFrom (val : Option (Arg V)) : List V → List V → Option V
  | _, [] => none
  | seen, v :: rest => if L.holds val v || L.has seen v then some v else duplicateFrom val (seen ++ [v]) rest

/-- `check_duplicate`: the value that is reported. -/
def checkDuplicate (val : Option (Arg V)) (newVal : List V) : Option V := duplicateFrom L val [] newVal

/-- `params` of `add`. -/
def addParams (params : Obj (Param P V)) : Obj (Param P V) :=
  Obj.mapVals (params.filter (·.2.multiple)) fun val => { val with required := false, allowEmpty := false }

def setParams (params : Obj (Param P V)) : Obj (Param P V) :=
  params.mapVals fun val => { val with required := false, allowEmpty := !val.required }

def removeParams (params : Obj (Param P V)) : Obj (Param P V) :=
  Obj.mapVals (params.filter (·.2.multiple)) fun val =>
    { val with attributeAllowEmpty := val.allowEmpty, required := false, allowEmpty := false }

/-! ### add -/

/-- One parameter of `add_call`: the objects and the value that occurs twice. Only an array is pushed to. -/
def addEntry (obj : P) (s : Store P V) (cur : Param P V) (name : String) (val : List V) : Store P V × Option V :=
  match cur.add with
  | some f => (f s val, none)
  | none =>
    let name := cur.key name
    let curObj := cur.getParamObject obj
    let s := s.ensure curObj name
    match if cur.allowDuplicate then none else checkDuplicate L ((s obj).get? name) val with
    | some v => (s, some v)
    | none =>
      match s.list curObj name with
      | some l => (s.put curObj name (.list (l ++ val)), none)
      | none => (s, none)

/-- The loop of `add_call`. -/
def addFrom (spec : Obj (Param P V)) (obj : P) (all : List (String × List V)) : Store P V → List (String × List V) → Result P V
  | s, [] => done s all
  | s, (name, val) :: named =>
    match spec.get? name with
    | none => fail s []
    | some cur =>
      match addEntry L obj s cur name val with
      | (s', some v) => fail s' [.duplicate v]
      | (s', none) => addFrom spec obj all s' named

/-! ### set -/

/-- One parameter of `set_call`. -/
def setEntry (obj : P) (s : Store P V) (cur : Param P V) (name : String) (val : Option (Arg V)) : Store P V × Option V :=
  match cur.set with
  | some f => (f s val, none)
  | none =>
    let name := cur.key name
    let curObj := cur.getParamObject obj
    match val with
    | none | some .null => (s.delete curObj name, none)
    | some (.one v) => (s.put curObj name (.one v), none)
    | some (.list vals) =>
      match if cur.multiple && !cur.allowDuplicate then checkDuplicate L ((s obj).get? name) vals else none with
      | some v => (s, some v)
      | none => (s.put curObj name (.list vals), none)

/-- The loop of `set_call`. -/
def setFrom (spec : Obj (Param P V)) (obj : P) (all : List (String × Option (Arg V))) :
    Store P V → List (String × Option (Arg V)) → Result P V
  | s, [] => done s all
  | s, (name, val) :: named =>
    match spec.get? name with
    | none => setFrom spec obj all s named
    | some cur =>
      match setEntry L obj s cur name val with
      | (s', some v) => fail s' [.duplicate v]
      | (s', none) => setFrom spec obj all s' named

/-! ### remove -/

variable (C : Coercion)

/-- `data[k] = null`. A negative position counts from the end. One outside the list changes nothing that is kept. -/
def setNull (data : List (Option V)) (k : Int) : List (Option V) :=
  if 0 ≤ k then data.set k.toNat none
  else if 0 ≤ k + data.length then data.set (k + data.length).toNat none
  else data

/-- `index(data, idx)`. -/
def indexOf (data : List (Option V)) (idx : Text) : Option Nat :=
  data.findIdx? fun
    | some v => L.same v (L.text idx)
    | none => false

/-- One token of `remove_call`: the list with its holes, and whether there was an error. -/
def removeToken (data : List (Option V)) (idx : Text) : List (Option V) × Bool :=
  if idx ≠ C.text (C.number (some idx)) then
    match indexOf L data idx with
    | some i => (setNull data (i + 1 - 1), false)
    | none => (data, true)
  else if (C.number (some idx)).gt (.int data.length) then (data, true)
  else
    match C.index (C.number (some idx)).pred with
    | some k => (setNull data k, false)
    | none => (data, false)

/-- The loop over the tokens, with the tokens that are reported. -/
def removeTokens : List (Option V) → List Text → List (Option V) × List Text
  | data, [] => (data, [])
  | data, idx :: val =>
    let (data', bad) := removeToken L C data idx
    let (data'', errs) := removeTokens data' val
    (data'', if bad then idx :: errs else errs)

/-- Whether a token names something in a value that is no array. -/
def names (x : V) (idx : Text) : Bool :=
  if idx ≠ C.text (C.number (some idx)) then L.inside x (L.text idx) else !(C.number (some idx)).gt (L.size x)

/-- Whether `data[+idx - 1] = null` raises an exception for one of the tokens, since the attribute is no array. -/
def removeRaises (obj : P) (s : Store P V) (cur : Param P V) (name : String) (val : List Text) : Bool :=
  match cur.remove, (s (cur.getParamObject obj)).get? (cur.key name) with
  | none, some (.one x) => L.truthy x && val.any (names L C x)
  | _, _ => false

/-- One parameter of `remove_call`: the objects and the errors. Of a value that is no array, `filter` leaves null. -/
def removeEntry (obj : P) (s : Store P V) (cur : Param P V) (name : String) (val : List Text) : Store P V × List Text :=
  match cur.remove with
  | some f => (f s val, [])
  | none =>
    let name := cur.key name
    let curObj := cur.getParamObject obj
    match (s curObj).get? name with
    | none | some .null => (s, [])
    | some (.one x) =>
      if !L.truthy x then (s, [])
      else if cur.attributeAllowEmpty then (s.delete curObj name, val)
      else (s.put curObj name .null, val)
    | some (.list l) =>
      let (data, errs) := removeTokens L C (l.map some) val
      let kept := data.reduceOption
      if cur.attributeAllowEmpty && kept.isEmpty then (s.delete curObj name, errs)
      else (s.put curObj name (.list kept), errs)

/-- The loop of `remove_call`. -/
def removeFrom (spec : Obj (Param P V)) (obj : P) (all : List (String × List Text)) :
    Store P V → List (Error V) → List (String × List Text) → Result P V
  | s, errors, [] => if errors.isEmpty then done s all else fail s errors
  | s, errors, (name, val) :: named =>
    match spec.get? name with
    | none => fail s errors
    | some cur =>
      if removeRaises L C obj s cur name val then fail s errors
      else
        let (s', errs) := removeEntry L C obj s cur name val
        removeFrom spec obj all s' (errors ++ errs.map .invalidValue) named

/-! ### Calls -/

/-- The arguments of a call by their names. -/
inductive Command (V : Type)
  | add (named : List (String × List V))
  | set (named : List (String × Option (Arg V)))
  | remove (named : List (String × List Text))

/-- A call on the object that is edited, if there is one. -/
structure Call (P V : Type) where
  obj : Option P
  command : Command V

/-- `add_call`, `set_call` and `remove_call` of an editor of `params`. -/
def call (params : Obj (Param P V)) (s : Store P V) (c : Call P V) : Result P V :=
  match c.obj with
  | none => fail s [.invalidArgument]
  | some obj =>
    match c.command with
    | .add named => addFrom L (addParams params) obj named s named
    | .set named => setFrom L (setParams params) obj named s named
    | .remove named => removeFrom L C (removeParams params) obj named s [] named

/-- One call after the other. -/
def run (params : Obj (Param P V)) (s : Store P V) (calls : List (Call P V)) : Store P V :=
  calls.foldl (fun s c => (call L C params s c).store) s

end RainWrt.Cli
