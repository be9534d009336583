import RainWrt.BaseFiles.Ipv4

/-! `ipcalc.sh`: the network of an address, and a range of addresses in it. -/

namespace RainWrt.BaseFiles

/-- `-d`, `-x`, or neither of them. -/
inductive Format where
  | dotted
  | decimal
  | hexadecimal

/-- `_ip2str`. -/
def Format.ip2str (format : Format) (n : Text) : Option Text := do
  let x ← checked n
  match format with
  | .decimal => return n
  | .hexadecimal => return Nat.toDigits 16 x.toNat
  | .dotted => BaseFiles.ip2str n

/-- `${s%/*}`. -/
def beforeSlash (s : Text) : Text := (s.reverse.dropWhile (· ≠ '/')).tail.reverse

/-- `${s#*/}`. -/
def afterSlash (s : Text) : Text := (s.dropWhile (· ≠ '/')).tail

/-- The address, the netmask and the prefix of the arguments, and the arguments that are left. -/
def network (args : List Text) : Option (Text × Text × Text × List Text) :=
  match args with
  | [] => none
  | arg :: args =>
    if glob [.star, .char '/', .star, .char '.', .star] arg then do
      let ipaddr ← str2ip (beforeSlash arg)
      let netmask ← str2ip (afterSlash arg)
      let pfx ← netmask2prefix netmask
      return (ipaddr, netmask, pfx, args)
    else if glob [.star, .char '/', .star] arg then do
      let ipaddr ← str2ip (beforeSlash arg)
      let pfx := afterSlash arg
      if !assertUint32 pfx then none
      if testGt pfx 32 then none
      let netmask ← prefix2netmask pfx
      return (ipaddr, netmask, pfx, args)
    else do
      let ipaddr ← str2ip arg
      let netmask ← str2ip (args.headD [])
      let pfx ← netmask2prefix netmask
      return (ipaddr, netmask, pfx, args.tail)

/-- The first and the last address of a range. -/
def addressRange (ipaddr netmask : Arith) (pfx : Nat) (start limit : Text) : Option (Arith × Arith) := do
  let hostmask := netmask ^^^ 0xffffffff#64
  let network := ipaddr &&& netmask
  let lower := if pfx ≤ 30 then network + 1 else network
  let start := network ||| ((← checked start) &&& hostmask)
  let start := if start.slt lower then lower else start
  let start := if start = ipaddr then start + 1 else start
  let upper := if pfx ≤ 30 then (network ||| hostmask) - 1 else if pfx = 31 then network ||| hostmask else network
  let last := start + (← checked limit) - 1
  let last := if upper.slt last then upper else last
  let last := if last = ipaddr then last - 1 else last
  if last.slt start then none else return (start, last)

/-- What is printed. -/
structure Report where
  ip : Text
  netmask : Text
  network : Text
  broadcast : Option Text
  pfx : Text
  count : Text
  /-- `START` and `END`. -/
  range : Option (Text × Text)
  deriving DecidableEq

def takeFormat : List Text → Format × List Text
  | ['-', 'd'] :: args => (.decimal, args)
  | ['-', 'x'] :: args => (.hexadecimal, args)
  | args => (.dotted, args)

/-- The lines about the network. -/
def networkReport (format : Format) (ipText maskText pfx : Text) (ipaddr netmask : Arith) (number : Nat) : Option Report := do
  let hostmask := netmask ^^^ 0xffffffff#64
  return {
    ip := ← format.ip2str ipText
    netmask := ← format.ip2str maskText
    network := ← format.ip2str (Arith.text (ipaddr &&& netmask))
    broadcast := ← if number ≤ 30 then some <$> format.ip2str (Arith.text (ipaddr &&& netmask ||| hostmask)) else some none
    pfx
    count := Arith.text (hostmask + 1)
    range := none }

/-- The lines about the range, if there are arguments for it. -/
def rangeReport (format : Format) (report : Report) (ipaddr netmask : Arith) (number : Nat) : List Text → Option Report
  | [start, limit] =>
    if start = [] ∧ limit = [] then some report
    else do
      let (first, last) ← addressRange ipaddr netmask number start limit
      return { report with range := some (← format.ip2str (Arith.text first), ← format.ip2str (Arith.text last)) }
  | _ => some report

/-- `ipcalc.sh` with its arguments, if it ends with status 0. -/
def ipcalc (args : List Text) : Option Report := do
  let (format, args) := takeFormat args
  let (ipText, maskText, pfx, args) ← network args
  if args.length ≠ 0 ∧ args.length ≠ 2 then none
  else
    let ipaddr ← readNumber ipText
    let netmask ← readNumber maskText
    let number ← readNumber pfx
    let report ← networkReport format ipText maskText pfx ipaddr netmask number.toNat
    rangeReport format report ipaddr netmask number.toNat args

end RainWrt.BaseFiles
