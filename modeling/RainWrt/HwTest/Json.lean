import RainWrt.HwTest.Py

/-! JSON values as Python holds them, with the operations of Python on them: what is missing or of the
    wrong type raises. -/

namespace RainWrt.HwTest

/-- A floating-point number, by its value. -/
inductive Flt where
  | fin (q : ℚ)
  | posInf
  | negInf
  | nan
  deriving DecidableEq

inductive Json where
  | null
  | bool (b : Bool)
  | int (n : Int)
  | float (f : Flt)
  | str (s : Text)
  | arr (l : List Json)
  /-- The keys are distinct, in the order of the text. -/
  | obj (l : List (Text × Json))

namespace Json

/-- The literal of a text. -/
def lit (s : String) : Json := .str s.toList

/-- A number; a truth value is one too. -/
def num? : Json → Option Flt
  | .bool b => some (.fin b.toNat)
  | .int n => some (.fin n)
  | .float f => some f
  | _ => none

/-- `==`, of two numbers. -/
def numEq (a b : Flt) : Bool := a ≠ .nan && a = b

/-- `<`, of two numbers. -/
def numLt : Flt → Flt → Bool
  | .fin a, .fin b => a < b
  | .fin _, .posInf => true
  | .negInf, .fin _ => true
  | .negInf, .posInf => true
  | _, _ => false

mutual

/-- `==`. -/
def eq : Json → Json → Bool
  | .null, .null => true
  | .str s, .str s' => s = s'
  | .arr l, .arr l' => eqItems l l'
  | .obj l, .obj l' => l.length = l'.length && eqFields l l'
  | .bool a, b => b.num?.any (numEq (.fin a.toNat))
  | .int n, b => b.num?.any (numEq (.fin n))
  | .float f, b => b.num?.any (numEq f)
  | _, _ => false

/-- `==`, of lists. -/
def eqItems : List Json → List Json → Bool
  | [], [] => true
  | a :: l, b :: l' => eq a b && eqItems l l'
  | _, _ => false

/-- Every entry of a dictionary is in the other one. -/
def eqFields : List (Text × Json) → List (Text × Json) → Bool
  | [], _ => true
  | (k, a) :: l, l' =>
    (match l'.lookup k with
      | some b => eq a b
      | none => false) && eqFields l l'

end

/-- `bool(x)`. -/
def truthy : Json → Bool
  | .null => false
  | .bool b => b
  | .int n => n ≠ 0
  | .float f => f ≠ .fin 0
  | .str s => s ≠ []
  | .arr l => !l.isEmpty
  | .obj l => !l.isEmpty

/-- `x is True`. -/
def isTrue : Json → Bool
  | .bool true => true
  | _ => false

/-- `x is False`. -/
def isFalse : Json → Bool
  | .bool false => true
  | _ => false

/-- `x[key]`. -/
def item (x : Json) (key : String) : Result Json :=
  match x with
  | .obj l =>
    match l.lookup key.toList with
    | some v => .ok v
    | none => .error (.keyError key.toList)
  | _ => .error .typeError

/-- `x[i]`, for an index. -/
def index (x : Json) (i : Nat) : Result Json :=
  match x with
  | .arr l =>
    match l[i]? with
    | some v => .ok v
    | none => .error .indexError
  | .str s =>
    match s[i]? with
    | some c => .ok (.str [c])
    | none => .error .indexError
  | .obj _ => .error (.keyError [])
  | _ => .error .typeError

/-- `x.get(key, default)`. -/
def get (x : Json) (key : String) (default : Json := .null) : Result Json :=
  match x with
  | .obj l => .ok ((l.lookup key.toList).getD default)
  | _ => .error .attributeError

/-- `x.items()`. -/
def items : Json → Result (List (Text × Json))
  | .obj l => .ok l
  | _ => .error .attributeError

/-- A text where only a text will do. -/
def text : Json → Result Text
  | .str s => .ok s
  | _ => .error .typeError

/-- `s.split()`. -/
def splitText (s : Text) : List Text := (s.splitOnP isPySpace).filter (· ≠ [])

/-- `x.split()`. -/
def split : Json → Result (List Text)
  | .str s => .ok (splitText s)
  | _ => .error .attributeError

/-- `len(x)`. -/
def len : Json → Result Nat
  | .str s => .ok s.length
  | .arr l => .ok l.length
  | .obj l => .ok l.length
  | _ => .error .typeError

/-- What a loop over `x` goes through. -/
def iter : Json → Result (List Json)
  | .str s => .ok (s.map fun c => .str [c])
  | .arr l => .ok l
  | .obj l => .ok (l.map fun e => .str e.1)
  | _ => .error .typeError

/-- `needle in s`. -/
def containsText (needle s : Text) : Bool := s.tails.any needle.isPrefixOf

/-- `needle in x`. -/
def contains (x : Json) (needle : String) : Result Bool :=
  match x with
  | .str s => .ok (containsText needle.toList s)
  | .arr l => .ok (l.any (eq (.str needle.toList)))
  | .obj l => .ok (l.any (·.1 = needle.toList))
  | _ => .error .typeError

/-- An element of a set. -/
def hashable : Json → Result Json
  | .arr _ => .error .typeError
  | .obj _ => .error .typeError
  | x => .ok x

/-- `==`, of two sets. -/
def setEq (a b : List Json) : Bool := a.all (fun x => b.any (eq x)) && b.all fun x => a.any (eq x)

/-- `x < y`, for a number `y`. -/
def lt (x : Json) (y : ℚ) : Result Bool :=
  match x.num? with
  | some f => .ok (numLt f (.fin y))
  | none => .error .typeError

/-- `type(x) is int`. -/
def int? : Json → Option Int
  | .int n => some n
  | _ => none

end Json

end RainWrt.HwTest
