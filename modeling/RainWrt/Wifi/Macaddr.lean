import Mathlib

/-! `common.uc`: the addresses of Wi-Fi interfaces, which are made from those of the phy. -/

namespace RainWrt.Wifi.Mac

abbrev Text := List Char

/-! ### Texts of addresses -/

/-- `%02x`. -/
def hex02 (n : Nat) : Text := if n < 16 then ['0', n.digitChar] else Nat.toDigits 16 n

def hexDigit (c : Char) : Nat :=
  if 'a' ≤ c then c.toNat - 'a'.toNat + 10 else if 'A' ≤ c then c.toNat - 'A'.toNat + 10 else c.toNat - '0'.toNat

/-- `hex`, of a text of digits. -/
def hex (s : Text) : Nat := s.foldl (fun n c => 16 * n + hexDigit c) 0

/-- `macaddr_split`. -/
def macaddrSplit (str : Text) : List Nat := (str.splitOn ':').map hex

/-- `macaddr_join`. -/
def macaddrJoin (addr : List Nat) : Text := [':'].intercalate (addr.map hex02)

/-! ### The phy -/

structure Wdev where
  /-- The address that `nl80211` has. -/
  mac : Text
  /-- The address in sysfs, of `wdev_macaddr`. -/
  address : Text
  apVlan : Bool := false
  vifRadioMask : Option Nat := none

/-- A phy with its files in sysfs, or one of its radios. An empty file counts as one that is missing. -/
structure Phy where
  radio : Option Nat := none
  macaddress : Option Text
  addressMask : Option Text
  addresses : List Text := []
  wdevs : List Wdev := []

/-- `macaddr_options`. An empty `macaddr_base` counts as none. -/
structure MacaddrOptions where
  mbssid : Int := 0
  numGlobal : Int := 1
  macaddrBase : Option Text := none

namespace Phy

/-- The interfaces that `for_each_wdev` calls back with. -/
def forEachWdev (phy : Phy) : List Wdev :=
  let macWdev := phy.wdevs.filter fun w =>
    !w.apVlan && (phy.radio.isNone || w.vifRadioMask.isNone || w.vifRadioMask == phy.radio.map (1 <<< ·))
  phy.wdevs.filter fun w => (macWdev.map (·.mac)).contains w.mac

/-! ### Deriving an address -/

def noMask : Text := "ff:ff:ff:ff:ff:ff".toList

inductive MacType where
  | b1
  | b5
  | add
  deriving DecidableEq

def macType (mbssid useGlobal : Bool) (mask : List Nat) : MacType :=
  if mbssid then .b5
  else if useGlobal then .add
  else if 0 < mask.getD 0 0 then .b1
  else if mask.getD 5 0 < 0xff then .b5
  else .add

/-- The loop of the additive type, from an octet down to the second one. -/
def addFrom (idx : Nat) : (i : Nat) → List Nat → List Nat
  | 0, addr => addr
  | i + 1, addr =>
    let v := addr.getD (i + 1) 0 + idx
    if v < 256 then addr.set (i + 1) v else addFrom idx i (addr.set (i + 1) (v % 256))

def derive (type : MacType) (mbssid : Bool) (idx : Nat) (addr : List Nat) : List Nat :=
  let a0 := addr.getD 0 0
  match type with
  | .b1 =>
    let idx := if a0 &&& 2 = 0 then idx - 1 else idx
    addr.set 0 ((a0 ||| 2) ^^^ idx <<< 2)
  | .b5 =>
    let addr := if mbssid then addr.set 0 (a0 ||| 2) else addr
    addr.set 5 (addr.getD 5 0 ^^^ idx)
  | .add => addFrom idx 5 addr

/-- `address_mask`, where a phy without one has zeros. -/
def mask (baseMask : Text) : Text := if baseMask = "00:00:00:00:00:00".toList then noMask else baseMask

/-- How an address is made: it is taken as it is, or derived from one with an index. -/
inductive Recipe where
  | copy (addr : Text)
  | derive (type : MacType) (mbssid : Bool) (idx : Nat) (addr : Text)

def Recipe.text : Recipe → Text
  | .copy addr => addr
  | .derive type mbssid idx addr => macaddrJoin (Phy.derive type mbssid idx (macaddrSplit addr))

/-- The part of `macaddr_generate` behind the choice of an address and an index. -/
def recipeFrom (data : MacaddrOptions) (baseMask : Text) (id : Nat) (addr : Text) (idx : Nat) : Recipe :=
  let mbssid : Bool := 0 < data.mbssid
  let useGlobal : Bool := !mbssid && decide ((id : Int) < data.numGlobal)
  if idx = 0 ∧ !mbssid then .copy addr
  else .derive (macType mbssid useGlobal (macaddrSplit baseMask)) mbssid idx addr

/-- `macaddr_generate`, without the last steps. -/
def recipe (phy : Phy) (data : MacaddrOptions) (id : Nat) : Option Recipe :=
  match phy.macaddress, phy.addressMask with
  | some baseAddr, some baseMask =>
    let baseMask := mask baseMask
    match data.macaddrBase with
    | some addr => some (recipeFrom data baseMask id addr id)
    | none =>
      if baseMask = noMask ∧ ((phy.radio.any fun r => 0 < r) ∨ data.numGlobal ≤ id) then
        match phy.radio with
        | some r =>
          if r ≠ 0 ∧ r < phy.addresses.length then some (recipeFrom data baseMask id (phy.addresses.getD r []) id)
          else some (recipeFrom data baseMask id baseAddr (id + r * 16))
        | none =>
          if id < phy.addresses.length then some (.copy (phy.addresses.getD id []))
          else some (recipeFrom data baseMask id baseAddr id)
      else some (recipeFrom data baseMask id baseAddr id)
  | _, _ => none

/-- `macaddr_generate`. -/
def macaddrGenerate (phy : Phy) (data : MacaddrOptions) (id : Nat) : Option Text := (phy.recipe data id).map Recipe.text

/-! ### Allocating addresses -/

/-- `macaddr_list`. -/
abbrev MacaddrList := Text → Option Int

/-- `macaddr_init`; the addresses of an array have the value -1. -/
def macaddrInit (phy : Phy) (used : List (Text × Int)) : MacaddrList :=
  phy.forEachWdev.foldl
    (fun list w => if list w.address = none then Function.update list w.address (some (-1)) else list)
    (used.foldl (fun list (addr, val) => Function.update list addr (some val)) fun _ => none)

/-- The loop of `macaddr_next`, which an empty address ends too. -/
def findFree (generate : Nat → Option Text) (list : MacaddrList) : (tries id : Nat) → Option Text
  | 0, _ => none
  | tries + 1, id =>
    match (generate id).filter (· ≠ []) with
    | none => none
    | some mac => if (list mac).isSome then findFree generate list tries (id + 1) else some mac

/-- `macaddr_next`. -/
def macaddrNext (phy : Phy) (data : MacaddrOptions) (list : MacaddrList) (val : Option Int) : Option Text × MacaddrList :=
  match findFree (phy.macaddrGenerate data) list 32 0 with
  | none => (none, list)
  | some mac => (some mac, Function.update list mac (some (val.getD (-1))))

/-- The addresses that calls return. -/
def allocate (phy : Phy) (data : MacaddrOptions) : MacaddrList → List (Option Int) → List Text
  | _, [] => []
  | list, val :: calls =>
    match phy.macaddrNext data list val with
    | (none, list) => phy.allocate data list calls
    | (some mac, list) => mac :: phy.allocate data list calls

end Phy

end RainWrt.Wifi.Mac
