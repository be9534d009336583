import RainWrt.Obj
import RainWrt.Cli.Number

/-! `wifi/validate.uc`: options are checked against a schema. -/

namespace RainWrt.Wifi.Validate

open Cli (Number)

inductive Value where
  | null
  | bool (b : Bool)
  | number (n : Number)
  | text (s : String)
  | array (l : List Value)
  | object

namespace Value

def isNull : Value → Bool
  | null => true
  | _ => false

/-- The equality of `in`. No element of an enumeration is an array or an object. -/
def same : Value → Value → Bool
  | null, null => true
  | bool a, bool b => a == b
  | number a, number b => a = b
  | text s, text t => s == t
  | _, _ => false

/-- `value in list` -/
def isIn (v : Value) (list : List Value) : Bool := list.any v.same

/-- The list of an array, or of one value. -/
def toArray : Value → List Value
  | array l => l
  | v => [v]

/-- `+value`, with the conversion of texts. -/
def plus (number : String → Number) : Value → Number
  | null => .int 0
  | bool b => .int (if b then 1 else 0)
  | Value.number n => n
  | text s => number s
  | array _ | object => .nan

end Value

/-- A number as a condition. -/
def truthy : Number → Bool
  | .int i => i ≠ 0
  | .frac q => q ≠ 0
  | .inf _ => true
  | .nan => false

/-- An option of a schema by its `type`; the `default` of an alias is the option that it names. -/
inductive Spec where
  | number (minimum maximum : Option Number) (enum : Option (List Value))
  | boolean
  | text (enum : Option (List Value))
  | array
  | arrayOf (items : Spec)
  | aliasOf (target : Option String)
  | other

def Spec.isAlias : Spec → Bool
  | aliasOf _ => true
  | _ => false

structure Entry where
  spec : Spec
  default : Option Value := none

/-- The properties of a schema file, whose aliases name options that are none. -/
structure Schema where
  options : Obj Entry
  nodup : (Obj.keys options).Nodup
  target : ∀ k t, (Obj.get? options k).map Entry.spec = some (.aliasOf (some t)) → ∀ e ∈ Obj.get? options t, ¬ e.spec.isAlias

variable (number : String → Number)

/-- `validate_value`; nothing where it aborts. -/
def validateValue : Spec → Value → Option Value
  | .number minimum maximum enum, v =>
    let n := v.plus number
    if minimum.any fun m => truthy m && m.gt n then none
    else if maximum.any fun m => truthy m && n.gt m then none
    else if enum.any fun l => !(Value.number n).isIn l then none
    else some (.number n)
  | .boolean, v => some (.bool (truthy (v.plus number)))
  | .text enum, v => if enum.any fun l => !v.isIn l then none else some v
  | .array, v => some (.array v.toArray)
  | .arrayOf items, v => (v.toArray.mapM (validateValue items)).map .array
  | .aliasOf _, v | .other, v => some v

namespace Schema

/-- A round of the loop over the aliases. What it adds to the dictionary is no alias, so the loop need not see it. -/
def convertAlias (schema : Schema) (dict : Obj Value) (e : String × Value) : Option (Obj Value) :=
  match (Obj.get? schema.options e.1).map Entry.spec with
  | some (.aliasOf none) => none
  | some (.aliasOf (some t)) => some (Obj.del (Obj.set dict t e.2) e.1)
  | _ => some dict

/-- The loop over the aliases. -/
def convertAliases (schema : Schema) (dict : Obj Value) : Option (Obj Value) := dict.foldlM schema.convertAlias dict

def setDefault (dict : Obj Value) (o : String × Entry) : Obj Value :=
  if o.2.spec.isAlias then dict
  else
    match o.2.default with
    | none => dict
    | some v => if v.isNull || (Obj.get? dict o.1).any fun w => !w.isNull then dict else Obj.set dict o.1 v

def setDefaults (schema : Schema) (dict : Obj Value) : Obj Value := schema.options.foldl setDefault dict

def validateEntry (schema : Schema) (e : String × Value) : Option (String × Value) :=
  match Obj.get? schema.options e.1 with
  | none => some e
  | some o => (validateValue number o.spec e.2).map fun v => (e.1, v)

/-- `validate` -/
def validate (schema : Schema) (dict : Obj Value) : Option (Obj Value) := do
  let dict ← schema.convertAliases dict
  (schema.setDefaults dict).mapM (schema.validateEntry number)

end Schema

end RainWrt.Wifi.Validate
