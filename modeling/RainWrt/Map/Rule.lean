import RainWrt.Logged

/-! What `mapcalc` computes of one rule: the options of the rule, the prefix that was delegated for it, the addresses
    and the PSID. Every shift and every access to memory is logged; what lies behind an object is not modelled, a copy
    that leaves its object goes on as if there were room. -/

namespace RainWrt.Map

/-! ### The port sets of a shared address -/

/-- The alignment of the PSID: only its `psidlen` upper bits are kept, if there are any. -/
def alignPsid (psidlen psid : Nat) : Nat := if psidlen > 0 then (psid >>> (16 - psidlen)) <<< (16 - psidlen) else psid

/-- One round of the loop: the range that is printed, if it is. -/
def portRange (offset psidlen psid k : Nat) : Option (Nat × Nat) :=
  let start := (k <<< (16 - offset)) ||| (psid >>> offset)
  let last := start + (1 <<< (16 - offset - psidlen)) - 1
  let start := if start = 0 then 1 else start
  if start ≤ last then some (start, last) else none

/-- The loop counter starts behind the system ports, unless there is no offset. -/
def firstRound (offset : Nat) : Nat := if offset ≠ 0 then 1 else 0

/-- `PORTSETS`, for an aligned PSID. -/
def portRanges (offset psidlen psid : Nat) : List (Nat × Nat) :=
  (List.range' (firstRound offset) (1 <<< offset - firstRound offset)).filterMap (portRange offset psidlen psid)

/-- `PORTSETS` of a rule with this offset, PSID length and PSID. -/
def portsets (offset psidlen psid : Nat) : List (Nat × Nat) := portRanges offset psidlen (alignPsid psidlen psid)

abbrev Text := List Char

/-! ### Memory -/

/-- An object of so many bytes. -/
structure Object (size : Nat) where
  byte : Nat → UInt8

def Object.zero {size : Nat} : Object size := ⟨fun _ => 0⟩

inductive Op where
  /-- A shift of a word of `width` bits. -/
  | shift (count width : Int)
  /-- An access to `len` bytes at `off` of an object. -/
  | access (size off len : Nat)
  deriving DecidableEq

/-- The operation is defined. -/
def Op.InBounds : Op → Prop
  | .shift count width => 0 ≤ count ∧ count < width
  | .access size off len => off + len ≤ size

instance (o : Op) : Decidable o.InBounds :=
  match o with
  | .shift _ _ => inferInstanceAs (Decidable (_ ∧ _))
  | .access _ _ _ => inferInstanceAs (Decidable (_ ≤ _))

abbrev Calc := Logged Op

open Logged

/-- The bytes of an object as a number, highest first. -/
def toBe {n : Nat} (k : Nat) (o : Object n) : Nat := (List.range k).foldl (fun v i => 256 * v + (o.byte i).toNat) 0

def ofBe {n : Nat} (v : Nat) : Object n := ⟨fun i => if i < n then UInt8.ofNat (v / 256 ^ (n - 1 - i)) else 0⟩

/-- A number as `size_t`. -/
def sizeT (n : Int) : Nat := (n % 2 ^ 64).toNat

section
variable {n m : Nat}

def memcmp (a : Object n) (b : Object m) (bytes : Nat) : Int :=
  match (List.range bytes).find? fun i => a.byte i ≠ b.byte i with
  | some i => (a.byte i).toNat - (b.byte i).toNat
  | none => 0

def bmemcmp (a : Object n) (b : Object m) (bits : Nat) : Calc Int := do
  let bytes := bits / 8
  let rest := bits % 8
  log (.access n 0 bytes)
  log (.access m 0 bytes)
  let res := memcmp a b bytes
  if res = 0 ∧ 0 < rest then
    log (.access n bytes 1)
    log (.access m bytes 1)
    log (.shift (8 - rest) 32)
    log (.shift (8 - rest) 32)
    return ((a.byte bytes).toNat >>> (8 - rest) : Nat) - ((b.byte bytes).toNat >>> (8 - rest) : Nat)
  else return res

/-- `!bmemcmp(a, b, bits)`. -/
def sameBits (a : Object n) (b : Object m) (bits : Nat) : Calc Bool := do
  let res ← bmemcmp a b bits
  pure (res = 0)

def bmemcpy (a : Object n) (b : Object m) (bits : Nat) : Calc (Object n) := do
  let bytes := bits / 8
  let rest := bits % 8
  log (.access m 0 bytes)
  log (.access n 0 bytes)
  let a : Object n := ⟨fun i => if i < bytes then b.byte i else a.byte i⟩
  if 0 < rest then
    log (.shift (8 - rest) 32)
    let mask : UInt8 := UInt8.ofNat (1 <<< (8 - rest) - 1)
    log (.access n bytes 1)
    log (.access m bytes 1)
    return ⟨fun i => if i = bytes then (a.byte i &&& mask) ||| (~~~mask &&& b.byte i) else a.byte i⟩
  else return a

def bmemcpys64 (a : Object n) (b : Object m) (frombits nbits : Nat) : Calc (Object n) := do
  let frombyte := frombits / 8
  let tobyte := (frombits + nbits) / 8
  log (.access m frombyte (tobyte - frombyte + 1))
  log (.access 8 0 (tobyte - frombyte + 1))
  let buf : Object 8 := ⟨fun i => if i < tobyte - frombyte + 1 then b.byte (frombyte + i) else 0⟩
  log (.shift (frombits % 8 : Nat) 64)
  let buf : Object 8 := ofBe ((toBe 8 buf <<< (frombits % 8)) % 2 ^ 64)
  bmemcpy a buf nbits

end

/-! ### Options -/

/-- What is used of the C library. -/
structure Libc where
  /-- The bits of `unsigned long`. -/
  longBits : Nat
  /-- `strtoul` sets `errno` if there are no digits. -/
  einval : Bool
  /-- What `inet_pton` leaves where it stores the address. -/
  inetPton4 : Text → Object 4 → Object 4
  inetPton6 : Text → Object 16 → Object 16

def isSpace (c : Char) : Bool := c = ' ' || (9 ≤ c.toNat && c.toNat ≤ 13)

def digit? (base : Nat) (c : Char) : Option Nat :=
  let d :=
    if '0' ≤ c ∧ c ≤ '9' then c.toNat - '0'.toNat
    else if 'a' ≤ c ∧ c ≤ 'z' then c.toNat - 'a'.toNat + 10
    else if 'A' ≤ c ∧ c ≤ 'Z' then c.toNat - 'A'.toNat + 10
    else base
  if d < base then some d else none

/-- The base of a number, and its digits. -/
def baseOf : Text → Nat × Text
  | '0' :: 'x' :: c :: t => if (digit? 16 c).isSome then (16, c :: t) else (8, '0' :: 'x' :: c :: t)
  | '0' :: 'X' :: c :: t => if (digit? 16 c).isSome then (16, c :: t) else (8, '0' :: 'X' :: c :: t)
  | '0' :: t => (8, '0' :: t)
  | t => (10, t)

/-- `strtoul(value, NULL, 0)`, and whether `errno` is set. -/
def strtoul (libc : Libc) (value : Text) : Nat × Bool :=
  let t := value.dropWhile isSpace
  let negative := t.head? = some '-'
  let t := if t.head? = some '-' ∨ t.head? = some '+' then t.tail else t
  let (base, t) := baseOf t
  let digits := (t.takeWhile fun c => (digit? base c).isSome).filterMap (digit? base)
  let v := digits.foldl (fun v d => base * v + d) 0
  if digits = [] then (0, libc.einval)
  else if 2 ^ libc.longBits ≤ v then (2 ^ libc.longBits - 1, true)
  else (if negative then (2 ^ libc.longBits - v) % 2 ^ libc.longBits else v, false)

/-- A number as `int`. -/
def toInt (n : Nat) : Int := (n : Int).bmod (2 ^ 32)

/-- The settings of a rule. -/
structure Options where
  lw4o6 : Bool
  fmr : Bool
  ealen : Int
  prefix4len : Int
  prefix6len : Int
  pdlen : Int
  ipv4prefix : Object 4
  ipv6prefix : Object 16
  pd : Object 16
  offset : Int
  psidlen : Int
  psid : Int
  dmr : Option Text
  br : Option Text

def Options.init : Options := ⟨false, false, -1, 32, -1, -1, .zero, .zero, .zero, -1, -1, -1, none, none⟩

/-- The options between the commas; a comma at the end ends nothing. -/
def subopts (rule : Text) : List Text :=
  let parts := rule.splitOn ','
  if parts.getLast? = some [] then parts.dropLast else parts

/-- `getsubopt`, of one option: its name and its value, if it has one. -/
def getsubopt (option : Text) : Text × Option Text :=
  match option.dropWhile (· ≠ '=') with
  | [] => (option, none)
  | _ :: value => (option.takeWhile (· ≠ '='), some value)

/-- A number within its bound. -/
def within (bound intval : Int) (errno : Bool) : Option Int := if intval ≤ bound ∧ errno = false then some intval else none

/-- `(intval = strtoul(value, NULL, 0)) <= bound && !errno`; without a value the program crashes. -/
def number (libc : Libc) (bound : Int) (value : Option Text) : Option (Option Int) :=
  value.map fun value => within bound (toInt (strtoul libc value).1) (strtoul libc value).2

/-- One option; a crash is `none`. What is not taken is reported and skipped. -/
def setOption (libc : Libc) (o : Options) (option : Text) : Option Options :=
  let (name, value) := getsubopt option
  match String.ofList name with
  | "type" => some { o with lw4o6 := value = some "lw4o6".toList }
  | "fmr" => some { o with fmr := true }
  | "ealen" => (number libc 48 value).map fun v => { o with ealen := v.getD o.ealen }
  | "prefix4len" => (number libc 32 value).map fun v => { o with prefix4len := v.getD o.prefix4len }
  | "prefix6len" => (number libc 128 value).map fun v => { o with prefix6len := v.getD o.prefix6len }
  | "ipv4prefix" => value.map fun value => { o with ipv4prefix := libc.inetPton4 value o.ipv4prefix }
  | "ipv6prefix" => value.map fun value => { o with ipv6prefix := libc.inetPton6 value o.ipv6prefix }
  | "pd" => value.map fun value => { o with pd := libc.inetPton6 value o.pd }
  | "offset" => (number libc 16 value).map fun v => { o with offset := v.getD o.offset }
  | "psidlen" => (number libc 16 value).map fun v => { o with psidlen := v.getD o.psidlen }
  | "pdlen" => (number libc 128 value).map fun v => { o with pdlen := v.getD o.pdlen }
  | "psid" => (number libc 65535 value).map fun v => { o with psid := v.getD o.psid }
  | "dmr" => some { o with dmr := value }
  | "br" => some { o with br := value }
  | _ => some o

/-- The options of a rule; a crash is `none`. -/
def parseRule (libc : Libc) (rule : Text) : Option Options := (subopts rule).foldlM (setOption libc) .init

/-! ### The delegated prefix -/

/-- An entry of a list of prefixes or addresses; what is not of its type is not there. -/
structure Entry where
  address : Option Text
  mask : Option UInt32

/-- An interface of the dump; a list that is not there, or is broken, is `none`. -/
structure Interface where
  interface : Option Text
  prefixes : Option (List Entry)
  addresses : Option (List Entry)

/-- The prefix that was found; nothing if its length is negative. -/
structure Found where
  pdlen : Int
  pd : Object 16

section
variable (libc : Libc) (o : Options)

/-- The length of an entry; an address is taken as a prefix of 64 bits for `lw4o6`. -/
def maskOf (mask : UInt32) : Int := if o.lw4o6 ∧ toInt mask.toNat = 128 then 64 else toInt mask.toNat

/-- The body of the loop in `match_prefix`. -/
def matchEntry (s : Found) (e : Entry) : Calc Found :=
  match e.address, e.mask with
  | some address, some mask => do
    let pre := libc.inetPton6 address .zero
    let mask := maskOf o mask
    let inside ← if s.pdlen < mask ∧ o.prefix6len ≤ mask then sameBits pre o.ipv6prefix (sizeT o.prefix6len) else pure false
    if inside then return ⟨mask, ← bmemcpy s.pd pre (sizeT mask)⟩
    else
      let around ← if o.lw4o6 ∧ s.pdlen < o.prefix6len ∧ mask < o.prefix6len then sameBits pre o.ipv6prefix (sizeT mask) else pure false
      if around then return ⟨o.prefix6len, ← bmemcpy s.pd o.ipv6prefix (sizeT o.prefix6len)⟩
      else return s
  | _, _ => return s

/-- The entries of an interface that are looked at. -/
def entriesOf (c : Interface) : List Entry := c.prefixes.getD [] ++ if o.lw4o6 then c.addresses.getD [] else []

/-- The interface is the one that was asked for. -/
def isAsked (argv1 : Text) (c : Interface) : Option Text := c.interface.filter fun name => argv1 = ['*'] ∨ argv1 = name

/-- The search for a prefix, with the interface that it is on. -/
def findPd (argv1 : Text) (iface : Text) (s : Found) : List Interface → Calc (Found × Text)
  | [] => return (s, iface)
  | c :: dump =>
    match isAsked argv1 c with
    | none => findPd argv1 iface s dump
    | some name => do
      let s ← (entriesOf o c).foldlM (matchEntry libc o) s
      if 0 ≤ s.pdlen then return (s, name) else findPd argv1 iface s dump

end

/-! ### The rule -/

/-- A rule with its lengths settled. -/
structure Rule where
  fmr : Bool
  ealen : Int
  prefix4len : Int
  prefix6len : Int
  pdlen : Int
  ipv4prefix : Object 4
  ipv6prefix : Object 16
  pd : Object 16
  offset : Int
  psidlen : Int
  psid : Int
  iface : Text
  dmr : Option Text
  br : Option Text

/-- The prefix that is delegated for a rule, with the interface that it is on. -/
def delegated (libc : Libc) (argv1 iface : Text) (dump : List Interface) (o : Options) : Calc (Found × Text) :=
  if o.pdlen < 0 then findPd libc o argv1 iface ⟨o.pdlen, o.pd⟩ dump else pure (⟨o.pdlen, o.pd⟩, iface)

/-- The lengths that are not given. -/
def settle (legacy : Bool) (o : Options) (s : Found) (iface : Text) : Rule :=
  let offset := if o.offset < 0 then (if o.lw4o6 then 0 else if legacy then 4 else 6) else o.offset
  let psidlen := if o.lw4o6 ∧ o.psidlen < 0 then 0 else o.psidlen
  let ealen := if o.lw4o6 then psidlen else o.ealen
  let ealen := if ealen < 0 ∧ 0 ≤ s.pdlen then s.pdlen - o.prefix6len else ealen
  let psid := if psidlen ≤ 0 then -1 else o.psid
  let psidlen := if psidlen ≤ 0 then max 0 (ealen - (32 - o.prefix4len)) else psidlen
  ⟨o.fmr, ealen, o.prefix4len, o.prefix6len, s.pdlen, o.ipv4prefix, o.ipv6prefix, s.pd, offset, psidlen, psid, iface, o.dmr, o.br⟩

/-- The rule is invalid or incomplete. -/
def Rule.isSkipped (r : Rule) : Bool := r.prefix4len < 0 || r.prefix6len < 0 || r.ealen < 0 || 16 < r.psidlen || r.ealen < r.psidlen

/-- What is derived from the prefix. -/
structure Derived where
  psid : Int
  psid16 : Object 2
  ipv4addr : Object 4
  addr4len : Int

/-- The PSID, at the upper end of 16 bits and as it stands in an address. -/
def derivePsid (r : Rule) : Calc (Int × Object 2) := do
  let (psid, psid16) ←
    if r.psid < 0 ∧ 0 ≤ r.psidlen ∧ 0 ≤ r.pdlen then do
      let psid16 : Object 2 ← bmemcpys64 .zero r.pd (sizeT (r.prefix6len + r.ealen - r.psidlen)) (sizeT r.psidlen)
      pure ((toBe 2 psid16 : Int), psid16)
    else pure (r.psid, .zero)
  if 0 < r.psidlen then
    log (.shift (16 - r.psidlen) 32)
    let psid := psid >>> (16 - r.psidlen).toNat
    let psid16 := ofBe (psid % 65536).toNat
    log (.shift (16 - r.psidlen) 32)
    return (psid <<< (16 - r.psidlen).toNat, psid16)
  else return (psid, psid16)

/-- The IPv4 address and its length. -/
def deriveAddr (r : Rule) : Calc (Object 4 × Int) := do
  if 0 ≤ r.pdlen ∨ r.ealen = r.psidlen then
    let addr : Object 4 ← bmemcpys64 .zero r.pd (sizeT r.prefix6len) (sizeT (r.ealen - r.psidlen))
    log (.shift r.prefix4len 32)
    let addr : Object 4 := ofBe (toBe 4 addr >>> r.prefix4len.toNat)
    let addr ← bmemcpy addr r.ipv4prefix (sizeT r.prefix4len)
    return (addr, if r.prefix4len + r.ealen < 32 then r.prefix4len + r.ealen else 32)
  else return (.zero, 32)

def derive (r : Rule) : Calc Derived := do
  let (psid, psid16) ← derivePsid r
  let (ipv4addr, addr4len) ← deriveAddr r
  return ⟨psid, psid16, ipv4addr, addr4len⟩

/-- The address of the tunnel. -/
def deriveAddr6 (legacy : Bool) (r : Rule) (d : Derived) : Calc (Object 16) := do
  let v4offset := if legacy then 9 else 10
  log (.access 16 v4offset 4)
  log (.access 16 (v4offset + 4) 2)
  let addr : Object 16 := ⟨fun i =>
    if v4offset ≤ i ∧ i < v4offset + 4 then d.ipv4addr.byte (i - v4offset)
    else if v4offset + 4 ≤ i ∧ i < v4offset + 6 then d.psid16.byte (i - (v4offset + 4))
    else 0⟩
  bmemcpy addr r.pd (sizeT r.pdlen)

/-- The port sets, if there are any. -/
def printPorts (r : Rule) (psid : Int) : Calc (List (Nat × Nat)) := do
  if 0 < r.psidlen ∧ 0 ≤ psid then
    log (.shift r.offset 32)
    (List.range' (firstRound r.offset.toNat) (1 <<< r.offset.toNat - firstRound r.offset.toNat)).forM fun _ => do
      log (.shift (16 - r.offset) 32)
      log (.shift r.offset 32)
      log (.shift (16 - r.offset - r.psidlen) 32)
      log (.shift r.offset 32)
    return portRanges r.offset.toNat r.psidlen.toNat psid.toNat
  else return []

/-- What is printed of a rule. -/
structure Printed where
  rule : Rule
  derived : Derived
  /-- If there is a prefix. -/
  ipv6addr : Option (Object 16)
  portsets : List (Nat × Nat)

/-- A rule with its lengths settled, unless it is skipped. -/
def printRule (legacy : Bool) (r : Rule) : Calc (Option Printed) := do
  if r.isSkipped then return none
  else
    let d ← derive r
    if r.pdlen < 0 ∧ r.fmr = false then return none
    else
      let ipv6addr ← if 0 ≤ r.pdlen then some <$> deriveAddr6 legacy r d else pure none
      let portsets ← printPorts r d.psid
      return some ⟨r, d, ipv6addr, portsets⟩

/-- A rule, unless it is skipped. -/
def mapRule (libc : Libc) (legacy : Bool) (argv1 iface : Text) (dump : List Interface) (o : Options) : Calc (Option Printed) := do
  let (s, iface) ← delegated libc argv1 iface dump o
  printRule legacy (settle legacy o s iface)

end RainWrt.Map
