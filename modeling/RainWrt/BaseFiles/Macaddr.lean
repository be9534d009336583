import RainWrt.BaseFiles.Words

/-! `system.sh`: addresses of network cards, on texts. -/

namespace RainWrt.BaseFiles

/-! ### Hexadecimal numbers -/

def isHexDigit (c : Char) : Bool := '0' ≤ c && c ≤ '9' || 'a' ≤ c && c ≤ 'f' || 'A' ≤ c && c ≤ 'F'

def hexDigit (c : Char) : Nat := if 'a' ≤ c then c.toNat - 87 else if 'A' ≤ c then c.toNat - 55 else c.toNat - 48

/-- The number that `0x` and some digits stand for. -/
def hexValue (s : Text) : Nat := s.foldl (fun n c => 16 * n + hexDigit c) 0

/-- `printf` with `%0` and a width and `x`. -/
def printfX (width n : Nat) : Text := (Nat.toDigits 16 n).leftpad width '0'

/-! ### Sums -/

/-- What is behind the third colon: `${mac#*:*:*:}`. -/
def behindColons : (colons : Nat) → Text → Option Text
  | 0, s => some s
  | _ + 1, [] => none
  | colons + 1, c :: s => if c = ':' then behindColons colons s else behindColons (colons + 1) s

/-- `sed 's/^\(.\{2\}\)\(.\{2\}\)\(.\{2\}\)/\1:\2:\3/'`. -/
def threePairs (s : Text) : Text := if 6 ≤ s.length then s.take 2 ++ ':' :: (s.drop 2).take 2 ++ ':' :: s.drop 4 else s

/-- `macaddr_add`. -/
def macaddrAdd (mac : Text) (val : Arith) : Text :=
  let oui := ((behindColons 3 mac.reverse).getD mac.reverse).reverse
  let nic := (behindColons 3 mac).getD mac
  let nic := (.ofNat 64 (hexValue (nic.filter (· ≠ ':'))) + val) &&& 0xffffff#64
  oui ++ ':' :: threePairs (printfX 6 nic.toNat)

/-! ### Bits -/

/-- `sed -e 's/\(.\{2\}\)/\1:/g'`. -/
def pairs : Text → Text
  | a :: b :: s => a :: b :: ':' :: pairs s
  | s => s

/-- `sed -e 's/:$//'`. -/
def dropColon (s : Text) : Text := if s.getLast? = some ':' then s.dropLast else s

/-- `macaddr_setbit`. -/
def macaddrSetbit (mac : Text) (bit : Int) : Text :=
  if 0 < bit ∧ bit ≤ 48 then
    dropColon (pairs (printfX 12 (.ofNat 64 (hexValue (mac.filter (· ≠ ':'))) ||| .ofNat 64 (2 ^ (48 - bit).toNat) : Arith).toNat))
  else []

/-- `macaddr_unsetbit`. -/
def macaddrUnsetbit (mac : Text) (bit : Int) : Text :=
  if 0 < bit ∧ bit ≤ 48 then
    dropColon (pairs (printfX 12 (.ofNat 64 (hexValue (mac.filter (· ≠ ':'))) &&& ~~~(.ofNat 64 (2 ^ (48 - bit).toNat)) : Arith).toNat))
  else []

/-! ### The usual form -/

/-- `[a-fA-F0-9\.: -]`. -/
def isMacChar (c : Char) : Bool := isHexDigit c || c = '.' || c = ':' || c = ' ' || c = '-'

/-- `${mac//[\.:-]/ }`. -/
def blankSeparators (mac : Text) : Text := mac.map fun c => if c = '.' ∨ c = ':' ∨ c = '-' then ' ' else c

/-- The octets of a word, with blanks between them. -/
def spreadOctet (octet : Text) : Option Text :=
  match octet.length with
  | 1 => some ('0' :: octet)
  | 2 => some octet
  | 4 => some (octet.take 2 ++ ' ' :: (octet.drop 2).take 2)
  | 12 => some ([' '].intercalate [octet.take 2, (octet.drop 2).take 2, (octet.drop 4).take 2, (octet.drop 6).take 2,
      (octet.drop 8).take 2, (octet.drop 10).take 2])
  | _ => none

/-- The loop over the words. -/
def canonFrom : (canon : Text) → List Text → Option Text
  | canon, [] => some canon
  | canon, octet :: octets => do
    let octet ← spreadOctet octet
    canonFrom (canon ++ (if canon = [] then [] else [' ']) ++ octet) octets

/-- What is left of an argument by `echo -n $mac | tr -d \"`. -/
def Shell.printed (sh : Shell) (mac : Text) : Text := substitute ((sh.echoN (sh.words mac)).filter (· ≠ '"'))

/-- `macaddr_canonicalize`. Its `printf` has a conversion for each of six octets. -/
def Shell.macaddrCanonicalize (sh : Shell) (mac : Text) : Text :=
  let mac := sh.printed mac
  if 17 < mac.length then []
  else if mac.any fun c => !isMacChar c then []
  else
    match canonFrom [] (sh.words (blankSeparators mac)) with
    | none => []
    | some canon =>
      if canon.length ≠ 17 then []
      else [':'].intercalate ((sh.words ("0x".toList ++ canon.flatMap fun c => if c = ' ' then " 0x".toList else [c])).map fun octet =>
        printfX 2 (hexValue (octet.drop 2)))

end RainWrt.BaseFiles
