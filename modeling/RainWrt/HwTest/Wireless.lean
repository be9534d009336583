import RainWrt.HwTest.Py

/-! `migrate_wireless`: the device path of one radio is rewritten in a wireless configuration of a
    narrow line grammar. The regular expressions are matched by hand: a bare token ends at a character
    that no token holds, so there is one way to match. -/

namespace RainWrt.HwTest

def oldWifiPath : Bytes := bytes "platform/soc@0/soc@0:wifi1@c000000"
def newWifiPath : Bytes := bytes "platform/soc@0/b00a040.wifi"

/-! ### Lines -/

/-- `[A-Za-z0-9_./:@+\-]`. -/
def isBare (b : UInt8) : Bool :=
  (65 ≤ b && b ≤ 90) || (97 ≤ b && b ≤ 122) || (48 ≤ b && b ≤ 57) || b ∈ bytes "_./:@+-"

/-- `[^'\r\n]`. -/
def isSingle (b : UInt8) : Bool := b != 39 && !isEol b

/-- `[^"\\\r\n]`. -/
def isDouble (b : UInt8) : Bool := b != 34 && b != 92 && !isEol b

/-- A quoted token whose opening quote `q` has been read. -/
def takeQuoted (q : UInt8) (inside : UInt8 → Bool) (t : Bytes) : Option (Bytes × Bytes) :=
  match t.dropWhile inside with
  | c :: rest => if c = q then some (q :: (t.takeWhile inside ++ [q]), rest) else none
  | [] => none

/-- `token`, with what follows it. -/
def takeToken : Bytes → Option (Bytes × Bytes)
  | [] => none
  | c :: t =>
    if c = 39 then takeQuoted 39 isSingle t
    else if c = 34 then takeQuoted 34 isDouble t
    else if isBare c then some ((c :: t).takeWhile isBare, (c :: t).dropWhile isBare)
    else none

/-- `\s+`. -/
def takeSpace : Bytes → Option Bytes
  | [] => none
  | c :: t => if isWs c then some (t.dropWhile isWs) else none

/-- `\s*(?:#[^\r\n]*)?\s*` up to the end. -/
def endsLine (t : Bytes) : Bool :=
  match t.dropWhile isWs with
  | [] => true
  | c :: t => c == 35 && (t.dropWhile (!isEol ·)).all isWs

/-- `startswith`, with the rest. -/
def takeWord (word t : Bytes) : Option Bytes := if word.isPrefixOf t then some (t.drop word.length) else none

def unquote (value : Bytes) : Bytes :=
  match value with
  | c :: t => if c = 39 ∨ c = 34 then t.dropLast else value
  | [] => []

/-- `header.fullmatch`: the kind and the name, as they stand there. -/
def matchHeader (line : Bytes) : Option (Bytes × Option Bytes) := do
  let t ← takeWord (bytes "config") (line.dropWhile isWs)
  let (kind, t) ← takeToken (← takeSpace t)
  match takeSpace t with
  | some t' =>
    match takeToken t' with
    | some (name, t'') => if endsLine t'' then some (kind, some name) else none
    | none => if endsLine t then some (kind, none) else none
  | none => if endsLine t then some (kind, none) else none

/-- A match of `option`. -/
structure OptionLine where
  /-- `option`, and not `list`. -/
  isOption : Bool
  name : Bytes
  value : Bytes
  /-- `match.start(3)`. -/
  start : Nat

/-- The keyword of an option line. -/
def takeKeyword (t : Bytes) : Option (Bool × Bytes) :=
  match takeWord (bytes "option") t with
  | some t => some (true, t)
  | none => (takeWord (bytes "list") t).map fun t => (false, t)

/-- `option.fullmatch`. -/
def matchOption (line : Bytes) : Option OptionLine := do
  let (isOption, t) ← takeKeyword (line.dropWhile isWs)
  let (name, t) ← takeToken (← takeSpace t)
  let t ← takeSpace t
  let (value, rest) ← takeToken t
  if endsLine rest then some ⟨isOption, name, value, line.length - t.length⟩ else none

/-- A line that is empty or a comment. -/
def isIdle (line : Bytes) : Bool :=
  match line.dropWhile isWs with
  | [] => true
  | c :: _ => c == 35

/-! ### Scan -/

/-- A path of the radio: its value and where it stands. -/
structure Found where
  value : Bytes
  start : Nat
  stop : Nat

/-- The variables of the loop. -/
structure Scan where
  kind : Option Bytes := none
  pathSeen : Bool := false
  offset : Nat := 0
  names : List Bytes := []
  found : List Found := []

def Scan.advance (s : Scan) (line : Bytes) : Scan := { s with offset := s.offset + line.length }

/-- A section starts. -/
def scanHeader (s : Scan) (kind : Bytes) (name : Option Bytes) : Result Scan :=
  let s := { s with kind := some (unquote kind), pathSeen := false }
  match name with
  | none => .ok s
  | some name =>
    if unquote name ∈ s.names then stop "PRECHECK_FAILED: ambiguous wireless sections"
    else .ok { s with names := s.names ++ [unquote name] }

/-- `value[:1] in (b"'", b'"')`. -/
def isQuoted (value : Bytes) : Bool := value.head? == some 39 || value.head? == some 34

/-- An option of a section of kind `kind`. -/
def scanOption (s : Scan) (kind : Bytes) (o : OptionLine) : Result Scan :=
  if kind = bytes "wifi-device" ∧ unquote o.name = bytes "path" then
    if s.pathSeen ∨ ¬o.isOption then stop "PRECHECK_FAILED: ambiguous wireless path option"
    else
      let value := unquote o.value
      let s := { s with pathSeen := true }
      if value = oldWifiPath ∨ value = newWifiPath then
        let start := s.offset + o.start + (isQuoted o.value).toNat
        .ok { s with found := s.found ++ [⟨value, start, start + value.length⟩] }
      else .ok s
  else .ok s

def unsupported {α : Type} : Result α := stop "PRECHECK_FAILED: unsupported wireless grammar (values withheld)"

/-- One round of the loop. -/
def scanLine (s : Scan) (line : Bytes) : Result Scan :=
  if isIdle line then .ok (s.advance line)
  else
    match matchHeader line with
    | some (kind, name) => (scanHeader s kind name).map (·.advance line)
    | none =>
      match matchOption line, s.kind with
      | some o, some kind => (scanOption s kind o).map (·.advance line)
      | _, _ => unsupported

/-- `migrate_wireless`. -/
def migrateWireless (data : Bytes) : Result Bytes := do
  let s ← (splitLinesKeep data).foldlM scanLine {}
  match s.found with
  | [] => return data
  | [f] => if f.value = oldWifiPath then return data.take f.start ++ newWifiPath ++ data.drop f.stop else return data
  | _ :: _ :: _ => stop "PRECHECK_FAILED: ambiguous QCN6122 wireless paths"

end RainWrt.HwTest
