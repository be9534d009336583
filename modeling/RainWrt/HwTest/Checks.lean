import RainWrt.HwTest.Json

/-! What the runner checks of a system that it has probed: the layout of the flash, the release it comes
    from, the radios, and the state after an upgrade. The order is the order in which Python evaluates. -/

namespace RainWrt.HwTest

def mibibSum : String := "b0c9f1a0239bd150e121063278d123b30e7697a6959ea4543cce8e83aa47ca54"
def appsblSum : String := "a92f08878499bb697e67cfb5f597bb5757e48b4846f4f250fbc612ea166ad4f3"

def knownGood2512Identity : Json := .obj
  [("RAINWRT_VERSION".toList, .lit "25.12.2-hwtest1"),
    ("RAINWRT_BUILD_ID".toList, .lit "25.12.2-hwtest1-ff21ae557201-45d16c23d08e"),
    ("RAINWRT_SOURCE_REVISION".toList, .lit "ff21ae557201e2def1ca4770275abca2fdae477f"),
    ("RAINWRT_UPSTREAM_VERSION".toList, .lit "25.12.2"),
    ("RAINWRT_UPSTREAM_REVISION".toList, .lit "4fc16f2985a358bd43bb522e43f05395fcbd6ed5"),
    ("RAINWRT_TARGET".toList, .lit "qualcommax/ipq50xx"),
    ("RAINWRT_PROFILE".toList, .lit "redmi_ax3000"),
    ("RAINWRT_BUILD_STATUS".toList, .lit "hardware-test-candidate")]

def knownGood2512Release : Json := .obj
  [("release".toList, .lit "25.12.2"), ("revision".toList, .lit "r38135-0c4cd0f9920a"), ("target".toList, .lit "qualcommax/ipq50xx")]

/-- `RADIO_PATHS`. -/
def radioPaths : List (String × String) := [("2g", "platform/soc@0/c000000.wifi"), ("5g", "platform/soc@0/b00a040.wifi")]

/-- The results of checks, under their names. -/
abbrev Checks := List (Text × Json)

/-- `all(checks.values())`. -/
def Checks.allTrue (checks : Checks) : Bool := checks.all fun c => c.2.truthy

def check (name : String) (b : Bool) : Text × Json := (name.toList, .bool b)

/-! ### Lines -/

/-- `re.search('^LINE$', s, re.M)`. -/
def hasLine (line : String) (s : Text) : Bool := (s.splitOn '\n').any (· = line.toList)

/-- `re.search('^LEAD.*TAIL$', s, re.M)`. -/
def hasLineBetween (lead tail : String) (s : Text) : Bool :=
  (s.splitOn '\n').any fun l => lead.toList.isPrefixOf l && tail.toList.isSuffixOf (l.drop lead.length)

/-- `re.search('^LEAD', s, re.M)`. -/
def hasLineFrom (lead : String) (s : Text) : Bool := (s.splitOn '\n').any lead.toList.isPrefixOf

/-! ### Layout and source -/

/-- `layout_checks`. -/
def layoutChecks (p : Json) : Result Checks := do
  let board := (← p.item "board").eq (.lit "redmi,ax3000")
  let mtd18 := hasLine "mtd18: 07480000 00020000 \"rootfs\"" (← (← p.item "mtd").text)
  let char := (← p.item "char").isTrue
  let rootfs1 ← (← p.item "mtd").contains "\"rootfs_1\""
  let offset := (← p.item "offset").eq (.int 0xA80000)
  let cmdline := (← p.item "cmdline").isTrue
  let mibib ←
    if (← p.item "mibib").eq (.lit mibibSum) then do pure (hasLineBetween "mtd1: " " \"0:MIBIB\"" (← (← p.item "mtd").text))
    else pure false
  let appsbl ←
    if (← p.item "appsbl").eq (.lit appsblSum) then do pure (hasLineBetween "mtd12: " " \"0:APPSBL\"" (← (← p.item "mtd").text))
    else pure false
  let bootcmd := (← p.item "bootcmd").eq (.lit "bootmiwifi")
  return [check "board" board, check "mtd18" mtd18, check "mtd_character" char, check "rootfs_1_absent" !rootfs1,
    check "rootfs_offset" offset, check "cmdline" cmdline, check "mibib" mibib, check "appsbl" appsbl, check "bootcmd" bootcmd]

/-- `known_good_source`. -/
def knownGoodSource (p : Json) : Result Bool := do
  let legacy ←
    if (← p.get "kernel").eq (.lit "6.6.137") then do
      pure ((← (← p.get "release" (.obj [])).get "revision").eq (.lit "r0-2b3c0919"))
    else pure false
  let current ←
    if (← p.get "kernel").eq (.lit "6.12.103") then do
      if (← p.get "identity").eq knownGood2512Identity then do pure ((← p.get "release").eq knownGood2512Release) else pure false
    else pure false
  return legacy || current

/-! ### Radios -/

/-- `r.get('band') == band and r.get('path') == path`. -/
def isRadio (band path : String) (r : Json) : Result Bool := do
  if (← r.get "band").eq (.lit band) then do pure ((← r.get "path").eq (.lit path)) else pure false

/-- `a['up'] and a['hostapd_enabled']`. -/
def apUp (a : Json) : Result Bool := do
  if (← a.item "up").truthy then do pure (← a.item "hostapd_enabled").truthy else pure false

/-- `all(f(a) for a in l)`, which stops at the first one that fails. -/
def allM (f : Json → Result Bool) : List Json → Result Bool
  | [] => .ok true
  | a :: l => do if ← f a then allM f l else pure false

/-- The access points of a radio that is not disabled. -/
def apsUp (p radio : Json) (path : String) : Result Bool := do
  let aps ← (← (← p.get "aps" (.arr [])).iter).filterM fun a => do pure ((← a.item "path").eq (.lit path))
  if !(← radio.item "up").truthy then pure false
  else if aps.isEmpty then pure false
  else allM apUp aps

/-- One round of the loop of `wireless_check`. -/
def bandCheck (p : Json) (radios configured : List Json) (band path : String) : Result Bool := do
  let found ← radios.filterM (isRadio band path)
  let conf ← configured.filterM (isRadio band path)
  match found, conf with
  | [radio], [c] =>
    if !(← radio.item "name").eq (← c.item "name") then pure false
    else if ← (do if (← radio.get "pending").truthy then pure true else pure (← radio.get "retry_setup_failed").truthy) then pure false
    else if !(← radio.item "disabled").eq (← c.item "disabled") then pure false
    else if (← radio.item "disabled").truthy then pure true
    else apsUp p radio path
  | _, _ => pure false

/-- `{r['name'] for r in l}`. -/
def namesOf (l : List Json) : Result (List Json) := l.mapM fun r => do (← r.item "name").hashable

/-- `wireless_check`. -/
def wirelessCheck (p : Json) : Result Bool := do
  let paths := radioPaths.map fun e => ("/sys/devices/" ++ e.2).toList
  if sortTexts (← (← p.item "phy").split) ≠ sortTexts paths then pure false
  else if !(← p.item "bands").eq (.lit "1 1") then pure false
  else do
    let radios ← p.item "wifi"
    let configured ← p.get "wifi_devices" (.arr [])
    if (← radios.len) ≠ 2 then pure false
    else if (← configured.len) ≠ 2 then pure false
    else do
      let radios ← radios.iter
      let configured ← configured.iter
      if !Json.setEq (← namesOf radios) (← namesOf configured) then pure false
      else if !(← bandCheck p radios configured "2g" "platform/soc@0/c000000.wifi") then pure false
      else bandCheck p radios configured "5g" "platform/soc@0/b00a040.wifi"

/-! ### After an upgrade -/

/-- The checks that a system passes or fails by itself. -/
def ownChecks (p expected : Json) : Result Checks := do
  let layout ← layoutChecks p
  let identity := (← p.item "identity").eq (← expected.item "identity")
  let kernel := (← p.item "kernel").eq (← expected.item "kernel")
  let release := (← (← p.item "release").item "release").eq (← (← expected.item "identity").item "RAINWRT_UPSTREAM_VERSION")
  let target := (← (← p.item "release").item "target").eq (.lit "qualcommax/ipq50xx")
  let ubi ←
    if (← p.item "ubi_mtd").eq (.int 18) then do
      let volumes ← (← p.item "ubi").split
      pure (Json.setEq (volumes.map .str) [.lit "kernel", .lit "rootfs", .lit "rootfs_data"])
    else pure false
  let root := hasLineFrom "/ overlay " (← (← p.item "mounts").text)
  let overlay := hasLineFrom "/overlay ubifs " (← (← p.item "mounts").text)
  let fatal := (← p.item "fatal").isFalse
  let ipq ← if ← (← p.item "phy").contains "c000000.wifi" then do pure (decide ("0x10".toList ∈ (← (← p.item "bdf").split))) else pure false
  let qcn ←
    if (← (← p.item "phy").split).length = 2 then do
      if "0x60".toList ∈ (← (← p.item "bdf").split) then do pure (decide (3 ≤ (← (← p.item "rproc").split).count "running".toList)) else pure false
    else pure false
  let wireless ← wirelessCheck p
  let ports ← (← p.item "ports").split
  let ethernet ← if ["lan1", "lan2", "lan3", "wan", "br-lan"].all fun x => decide (x.toList ∈ ports) then p.item "carrier" else pure (.bool false)
  let wg ← p.item "wg"
  let wireguard ← if wg.truthy then do pure (.bool ((← p.item "wg_abi").eq (← expected.item "kernel"))) else pure wg
  let apk := (← p.item "apk").isTrue
  return layout ++ [check "exact_build_identity" identity, check "kernel" kernel, check "release" release, check "target" target, check "ubi" ubi,
    check "root_mount" root, check "overlay_mount" overlay, check "no_fatal_errors" fatal, check "IPQ5018" ipq, check "QCN6122" qcn,
    check "wireless" wireless, ("ethernet".toList, ethernet), ("WireGuard".toList, wireguard), check "APK_packages" apk]

/-- `not baseline[key] or p[key]`. -/
def keeps (p baseline : Json) (key : String) : Result Json := do
  if (← baseline.item key).truthy then p.item key else pure (.bool true)

/-- The checks that compare a system with one before it. -/
def relativeChecks (p baseline : Json) : Result Checks := do
  let ipv4 ← keeps p baseline "ipv4"
  let ipv6 ← keeps p baseline "ipv6"
  let resolver ← keeps p baseline "resolver"
  return [("IPv4_route".toList, ipv4), ("IPv6_route".toList, ipv6), ("resolver".toList, resolver)]

/-- `required_checks`. -/
def requiredChecks (p expected baseline : Json) : Result Checks := do
  let own ← ownChecks p expected
  let relative ← relativeChecks p baseline
  return own ++ relative

inductive ReturnState where
  | waitingForReturn
  | returnedOldSystem
  | returnedWrongBuild
  | success
  | postcheckFailed
  deriving DecidableEq, Repr

/-- `classify_return`. -/
def classifyReturn (p expected baseline : Json) : Result ReturnState := do
  if (← p.item "boot_id").eq (← baseline.item "boot_id") then pure .waitingForReturn
  else if !(← p.item "identity").eq (← expected.item "identity") then
    if (← p.item "release").eq (← baseline.item "release") then pure .returnedOldSystem else pure .returnedWrongBuild
  else if (← requiredChecks p expected baseline).allTrue then pure .success
  else pure .postcheckFailed

inductive HandoffState where
  | expectedHandoff
  | indeterminateHandoff
  | preHandoffFailure
  deriving DecidableEq, Repr

/-- The name of the event. -/
def HandoffState.event : HandoffState → String
  | .expectedHandoff => "EXPECTED_HANDOFF"
  | .indeterminateHandoff => "INDETERMINATE_HANDOFF"
  | .preHandoffFailure => "PRE_HANDOFF_FAILURE"

/-- `handoff_state`. -/
def handoffState (code : Int) (output : Bytes) : HandoffState :=
  let has (s : String) : Bool := output.tails.any (bytes s).isPrefixOf
  if has "Commencing upgrade" || has "Closing all shell sessions" then .expectedHandoff
  else if has "RAINWRT_SYSUPGRADE_INVOKED" then .indeterminateHandoff
  else if code ∈ [0, 246, 255, 124] then .indeterminateHandoff
  else .preHandoffFailure

end RainWrt.HwTest

/-! The last check of the memory before the router is handed over, as its shell makes it. -/

namespace RainWrt.HwTest

/-! ### Numbers of the shell -/

/-- `$(( ))` computes in 64 bits. -/
def arith (n : Int) : Int := n.bmod (2 ^ 64)

/-- A number that `[` takes. -/
def isLong (n : Int) : Bool := -2 ^ 63 ≤ n && n < 2 ^ 63

/-- `[ a op b ]`, of two numbers; one that is too long is an error, and fails. -/
def test (op : Int → Int → Bool) (a b : Int) : Bool := isLong a && isLong b && op a b

def testEq : Int → Int → Bool := test fun a b => a == b
def testGt : Int → Int → Bool := test fun a b => b < a
def testLe : Int → Int → Bool := test fun a b => a ≤ b
def testGe : Int → Int → Bool := test fun a b => b ≤ a

/-! ### The check -/

/-- What `memory_sample` prints. -/
structure MemorySample where
  memKib : Int
  tmpKib : Int
  anonKib : Int
  observerAnonKib : Int
  lockedKib : Int
  swapKib : Int

/-- What `memory_pre_handoff` prints, and whether it succeeds. -/
structure PreHandoff where
  physicalRequiredKib : Int
  tmpRequiredKib : Int
  success : Bool

/-- `memory_pre_handoff`. -/
def memoryPreHandoff (ramfsKib handoffKib configKib : Int) (sample : MemorySample) : PreHandoff :=
  let credit :=
    if testEq sample.lockedKib 0 && testEq sample.swapKib 0 && testGt sample.anonKib sample.observerAnonKib then
      let credit := arith (sample.anonKib - sample.observerAnonKib)
      if testLe credit ramfsKib then credit else ramfsKib
    else 0
  let physical := arith (ramfsKib + 8192 + configKib - credit)
  let running := arith (handoffKib + 8192 + configKib)
  let physical := if testGe physical running then physical else running
  let capacity := arith (2 * ramfsKib + configKib)
  ⟨physical, capacity, testGe sample.memKib physical && testGe sample.tmpKib capacity⟩

end RainWrt.HwTest
