import RainWrt.Cli.Number

/-! `types.uc`: the types of arguments. Parsing gives a value or nothing, and records errors. -/

namespace RainWrt.Cli

/-- A dotted quad. -/
def quad (a b c d : Nat) : Text :=
  Nat.toDigits 10 a ++ '.' :: (Nat.toDigits 10 b ++ '.' :: (Nat.toDigits 10 c ++ '.' :: Nat.toDigits 10 d))

def IsQuad (s : Text) : Prop := ∃ a < 256, ∃ b < 256, ∃ c < 256, ∃ d < 256, s = quad a b c d

/-- What the types use of the language and of the system. -/
structure Lib (J : Type) extends Coercion where
  /-- The bytes of an address. There are four of a dotted quad, and of nothing else. -/
  iptoarr : Text → Option (List Nat)
  iptoarr_quad : ∀ s, (iptoarr s).map List.length = some 4 ↔ IsQuad s
  /-- `null != 0` -/
  nullNeZero : Bool
  /-- The value of a text in JSON, which may be null. -/
  json : Text → Option (Option J)
  /-- `type`. -/
  typeName : J → Text
  dirname : Text → Text
  isDirectory : Text → Bool
  /-- `access(path, "r")`. -/
  readable : Text → Bool

inductive Val (J : Type)
  | bool (b : Bool)
  | number (n : Number)
  | text (s : Text)
  | json (j : J)
deriving DecidableEq

/-- What an argument says about itself beside its type. -/
structure Spec where
  min : Option Int
  max : Option Int
  dataType : Option Text
  noValidate : Bool
  ignoreCase : Bool
  value : List Text
  newPath : Bool
  allowAuto : Bool

/-- The result of `parse`, with the errors: a format and its values. -/
structure Parsed (J : Type) where
  val : Option (Val J)
  errors : List (String × List Text)
deriving DecidableEq

variable {J : Type}

def accept (val : Val J) : Parsed J := ⟨some val, []⟩

/-- `ctx.invalid_argument`. -/
def invalidArgument (msg : String) (args : List Text) : Parsed J := ⟨none, [(msg, args)]⟩

/-- `lc`. -/
def lc (s : Text) : Text := s.map Char.toLower

/-- `split(s, sep)`. -/
def split (sep : Char) : Text → List Text
  | [] => [[]]
  | c :: s =>
    if c = sep then [] :: split sep s
    else match split sep s with
      | [] => [[c]]
      | part :: parts => (c :: part) :: parts

/-- `split(s, sep, 2)`: the part before the first separator, and what is behind it. -/
def split2 (sep : Char) : Text → Text × Option Text
  | [] => ([], none)
  | c :: s => if c = sep then ([], some s) else ((c :: (split2 sep s).1), (split2 sep s).2)

/-- `(this.min == null || val >= this.min) && (this.max == null || val <= this.max)` -/
def Spec.within (spec : Spec) (val : Number) : Bool :=
  (match spec.min with
    | none => true
    | some min => (Number.int min).le val) &&
  match spec.max with
    | none => true
    | some max => val.le (.int max)

/-- A message about the bounds. -/
def Spec.bounds (spec : Spec) (between : Int → Int → String) (atLeast atMost : Int → String) (null : String) : String :=
  match spec.min, spec.max with
  | some min, some max => between min max
  | some min, none => atLeast min
  | none, some max => atMost max
  | none, none => null

def parseBool (name val : Text) : Parsed J :=
  if val = ['1'] then accept (.bool true)
  else if val = ['0'] then accept (.bool false)
  else invalidArgument "value for %s must be 0 or 1" [name]

def parseInt (lib : Lib J) (spec : Spec) (name strval : Text) : Parsed J :=
  let val := lib.number (some strval)
  let strval := if strval.head? = some '-' then strval.tail else strval
  if strval.any (fun c => !c.isDigit) then invalidArgument "value for %s is not a number" [name]
  else if spec.within val then accept (.number val)
  else invalidArgument (spec.bounds (fun min max => s!"value for %s must be between {min} and {max}")
    (fun min => s!"value for %s must be at least {min}") (fun max => s!"value for %s must not be bigger than {max}")
    "value for %s must not be bigger than null") [name]

def parseString (spec : Spec) (name val : Text) : Parsed J :=
  if spec.within (.int val.length) then accept (.text val)
  else invalidArgument (spec.bounds (fun min max => s!"String value %s must be between {min} and {max} characters")
    (fun min => s!"String value %s must be at least {min} characters long")
    (fun max => s!"String value %s must not be longer than {max} characters")
    "String value %s must not be longer than null characters") [name]

def parseJson (lib : Lib J) (spec : Spec) (val : Text) : Parsed J :=
  match lib.json val with
  | none => invalidArgument "Invalid JSON data" []
  | some j =>
    let mismatch := match spec.dataType with
      | none => false
      | some dataType => j.map lib.typeName ≠ some dataType
    ⟨j.map .json, if mismatch then
      [("Invalid data type: %s, expected: %s", [(j.map lib.typeName).getD ['n', 'u', 'l', 'l'], spec.dataType.getD []])] else []⟩

def parseEnum (spec : Spec) (name val : Text) : Parsed J :=
  if spec.noValidate then accept (.text val)
  else
    match spec.value.find? fun v => if spec.ignoreCase then lc val = lc v else val = v with
    | some v => accept (.text v)
    | none => invalidArgument "Invalid value for %s" [name]

def parsePath (lib : Lib J) (spec : Spec) (val : Text) : Parsed J :=
  if spec.newPath then
    if lib.isDirectory (lib.dirname val) then accept (.text val)
    else invalidArgument "Path '%s' is not a directory" [lib.dirname val]
  else if lib.readable val then accept (.text val)
  else invalidArgument "Path '%s' does not exist" [val]

def isAlnum (c : Char) : Bool := c.isAlpha || c.isDigit

/-- `/^([a-zA-Z0-9]|[a-zA-Z0-9][a-zA-Z0-9-]{0,61}[a-zA-Z0-9])$/` -/
def isLabel (label : Text) : Bool :=
  label.length ≤ 63 && label.all (fun c => isAlnum c || c == '-') && label.head?.any isAlnum && label.getLast?.any isAlnum

/-- `length(iptoarr(val))`, which is null of what is no address. -/
def Lib.addressLength (lib : Lib J) (val : Text) : Option Nat := (lib.iptoarr val).map List.length

/-- `length(iptoarr(val)) != 0` -/
def Lib.isAddress (lib : Lib J) (val : Text) : Bool :=
  match lib.addressLength val with
  | some n => n ≠ 0
  | none => lib.nullNeZero

def parseHost (lib : Lib J) (name val : Text) : Parsed J :=
  if lib.isAddress val then accept (.text val)
  else if 255 < val.length then ⟨none, []⟩
  else if (split '.' val).all isLabel then accept (.text val)
  else invalidArgument "value for %s is not an valid IP or hostname" [name]

/-- `[0-9a-f]` -/
def isHex (c : Char) : Bool := c.isDigit || ('a' ≤ c && c ≤ 'f')

def parseMacaddr (name val : Text) : Parsed J :=
  let arr := split ':' (lc val)
  if arr.length ≠ 6 || !arr.all (fun v => v.length = 2 && v.all isHex) then
    invalidArgument "value for %s is not an MAC address" [name]
  else accept (.text (lc val))

def parseIpv4 (lib : Lib J) (name val : Text) : Parsed J :=
  if lib.addressLength val = some 4 then accept (.text val) else invalidArgument "value for %s is not an IPv4" [name]

def parseIpv6 (lib : Lib J) (name val : Text) : Parsed J :=
  if lib.addressLength val = some 16 then accept (.text val) else invalidArgument "value for %s is not an IPv6" [name]

def parseCidr4 (lib : Lib J) (spec : Spec) (name val : Text) : Parsed J :=
  let m := split2 '/' val
  if (lib.number m.2).le (.int 32) && ((decide (m.1 = ['a', 'u', 't', 'o']) && spec.allowAuto) || lib.addressLength m.1 = some 4) then
    accept (.text val)
  else invalidArgument "value for %s is not cidr4 (e.g. 192.168.1.1/24)" [name]

inductive TypeName
  | bool | int | string | json | enum | path | host | macaddr | ipv4 | ipv6 | cidr4
deriving DecidableEq

/-- `parse` of a type. -/
def TypeName.parse (lib : Lib J) (spec : Spec) (name val : Text) : TypeName → Parsed J
  | .bool => parseBool name val
  | .int => parseInt lib spec name val
  | .string => parseString spec name val
  | .json => parseJson lib spec val
  | .enum => parseEnum spec name val
  | .path => parsePath lib spec val
  | .host => parseHost lib name val
  | .macaddr => parseMacaddr name val
  | .ipv4 => parseIpv4 lib name val
  | .ipv6 => parseIpv6 lib name val
  | .cidr4 => parseCidr4 lib spec name val

/-- `parse_arg`, of an argument of a known type or not. -/
def parseArg (lib : Lib J) (type : Option TypeName) (spec : Spec) (name : Text) (val : Option Text) : Parsed J :=
  match val, type with
  | none, _ => invalidArgument "Missing argument %s" [name]
  | some _, none => invalidArgument "Invalid type in argument: %s" [name]
  | some val, some t => t.parse lib spec name val

end RainWrt.Cli
