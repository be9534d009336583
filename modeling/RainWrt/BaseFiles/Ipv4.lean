import Mathlib

/-! `ipv4.sh`: addresses, masks and prefixes as the shell computes them, on texts. -/

namespace RainWrt.BaseFiles

abbrev Text := List Char

/-! ### The shell -/

/-- A piece of a pattern of `case`. -/
inductive Glob where
  | range (a b : Char)
  | star

/-- A text matches a pattern. -/
def glob : List Glob → Text → Bool
  | [], s => s.isEmpty
  | .range _ _ :: _, [] => false
  | .range a b :: p, c :: s => a ≤ c && c ≤ b && glob p s
  | .star :: p, s => s.tails.any fun t => glob p t

def Glob.char (c : Char) : Glob := .range c c

/-- The text of a number. -/
def decimal (n : Nat) : Text := Nat.toDigits 10 n

/-- The numbers of `$((...))`. -/
abbrev Arith := BitVec 64

def Arith.text (x : Arith) : Text := if x.msb then '-' :: decimal (-x).toNat else decimal x.toNat

/-- `>>`. -/
def Arith.shr (x : Arith) (n : Nat) : Arith := x.sshiftRight n

/-- The value of a variable in `$((...))`, of which only digits are used here: behind a leading zero they are octal, and what does
    not fit is the largest number of 64 bits without a sign. -/
def readNumber (s : Text) : Option Arith :=
  let base := if s.head? = some '0' then 8 else 10
  if s ≠ [] ∧ s.all (fun c => '0' ≤ c && c.toNat < 48 + base) then some (.ofNat 64 (min (Nat.ofDigitChars base s 0) (2 ^ 64 - 1)))
  else none

/-- `[ "$s" -gt max ]`, of digits. A number that does not fit into 64 bits is an error, which is no success. -/
def testGt (s : Text) (max : Nat) : Bool := Nat.ofDigitChars 10 s 0 < 2 ^ 63 && max < Nat.ofDigitChars 10 s 0

/-! ### Numbers of 32 bits -/

def uintMax : Arith := 4294967295#64

/-- `assert_uint32`. -/
def assertUint32 (n : Text) : Bool :=
  if n = [] ∨ n.any (fun c => !('0' ≤ c && c ≤ '9')) then false
  else if testGt n 4294967295 then false
  else match readNumber n with
    | some x => (x + 0#64).text = n
    | none => false

/-- A variable that has been checked. -/
def checked (n : Text) : Option Arith := if assertUint32 n then readNumber n else none

/-- `bitcount`, without its check. -/
def bitcount (c : Arith) : Arith :=
  let c := (c.shr 1 &&& 0x55555555#64) + (c &&& 0x55555555#64)
  let c := (c.shr 2 &&& 0x33333333#64) + (c &&& 0x33333333#64)
  let c := (c.shr 4 &&& 0x0f0f0f0f#64) + (c &&& 0x0f0f0f0f#64)
  let c := (c.shr 8 &&& 0x00ff00ff#64) + (c &&& 0x00ff00ff#64)
  (c.shr 16 &&& 0x0000ffff#64) + (c &&& 0x0000ffff#64)

/-! ### Addresses -/

def digit : Glob := .range '0' '9'

/-- The patterns of an octet of three digits. -/
def threeDigits : List (List Glob) :=
  [[.char '1', digit, digit], [.char '2', .range '0' '4', digit], [.char '2', .char '5', .range '0' '5']]

/-- One of the first three octets: its digits and what follows the dot. -/
def takeOctet (ip : Text) : Option (Text × Text) :=
  let dot := [Glob.char '.', .star]
  if glob (digit :: dot) ip then some (ip.take 1, ip.drop 2)
  else if glob (.range '1' '9' :: digit :: dot) ip then some (ip.take 2, ip.drop 3)
  else if threeDigits.any fun p => glob (p ++ dot) ip then some (ip.take 3, ip.drop 4)
  else none

/-- The last octet: its digits and what follows them. -/
def lastOctet (ip : Text) : Option (Text × Text) :=
  if glob [digit] ip then some (ip.take 1, ip.drop 1)
  else if glob [.range '1' '9', digit] ip then some (ip.take 2, ip.drop 2)
  else if threeDigits.any fun p => glob p ip then some (ip.take 3, ip.drop 3)
  else none

/-- `str2ip`. -/
def str2ip (ip : Text) : Option Text := do
  let (n, ip) ← takeOctet ip
  let val : Arith := (← readNumber n) <<< 24
  let (n, ip) ← takeOctet ip
  let val : Arith := val + (← readNumber n) <<< 16
  let (n, ip) ← takeOctet ip
  let val : Arith := val + (← readNumber n) <<< 8
  let (n, ip) ← lastOctet ip
  let val : Arith := val + (← readNumber n)
  if ip ≠ [] then none else return val.text

/-- `ip2str`. -/
def ip2str (n : Text) : Option Text := do
  let n ← checked n
  return (n.shr 24).text ++ '.' :: (n.shr 16 &&& 255#64).text ++ '.' :: (n.shr 8 &&& 255#64).text ++ '.' :: (n &&& 255#64).text

/-! ### Masks -/

/-- `prefix2netmask`. -/
def prefix2netmask (n : Text) : Option Text := do
  let x ← checked n
  if testGt n 32 then none
  return (~~~(uintMax.shr x.toNat) &&& uintMax).text

/-- `is_contiguous`, without its check. -/
def isContiguous (x : Arith) : Bool :=
  let y := ~~~x &&& uintMax
  let z := (y + 1#64) &&& uintMax
  z &&& y = 0#64

/-- `netmask2prefix`. -/
def netmask2prefix (n : Text) : Option Text := do
  let x ← checked n
  if !isContiguous x then none
  return (bitcount x).text

end RainWrt.BaseFiles
