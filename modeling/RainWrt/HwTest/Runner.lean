import RainWrt.HwTest.Controller

/-! `main` of the hardware-test runner: the checks on the host, the checks on the router, and the two ways
    to go on, which are to flash the candidate or to resume the validation of one that has been flashed. -/

namespace RainWrt.HwTest

/-! ### Texts -/

/-- A character that the shell takes as it is. -/
def isPlain (c : Char) : Bool := c.isAlphanum || c ∈ "_@%+=:,./-".toList

/-- `shlex.quote`. -/
def shlexQuote (t : Text) : Text :=
  if t = [] then "''".toList
  else if t.all isPlain then t
  else '\'' :: t.flatMap (fun c => if c = '\'' then "'\"'\"'".toList else [c]) ++ ['\'']

/-- The test of a shell that a file has this digest. -/
def hasSum (path digest : Text) : Text := "[ \"$(sha256sum ".toList ++ path ++ " | cut -d' ' -f1)\" = ".toList ++ digest ++ " ]".toList

/-- `detector_check`. -/
def detectorCheck (path : Text) : Text :=
  "[ \"$(set +u; . ".toList ++ shlexQuote path ++ "; mi_layout_detect)\" = rainwrt-single-slot ]\n".toList

/-- The parts of a path. -/
def pathParts (path : Text) : List Text := (path.splitOn '/').filter fun part => part ≠ [] ∧ part ≠ ['.']

/-- The name of a path. -/
def pathName (path : Text) : Text := (pathParts path).getLast?.getD []

/-- A size in KiB, rounded up to pages. -/
def pagesKib (size : Nat) : Nat := (size + 4095) / 4096 * 4

/-- `x[key]`, for a key that was read itself. -/
def Json.itemBy (x key : Json) : Result Json :=
  match x, key with
  | .obj l, .str k =>
    match l.lookup k with
    | some v => .ok v
    | none => .error (.keyError k)
  | .obj _, .arr _ => .error .typeError
  | .obj _, .obj _ => .error .typeError
  | .obj _, _ => .error (.keyError [])
  | _, _ => .error .typeError

/-- `expected['identity']['RAINWRT_BUILD_ID']`, as a part of a name. -/
def buildId (expected : Json) : Result Text := do (← (← expected.item "identity").item "RAINWRT_BUILD_ID").text

/-- `expected['files'][expected['image']]`. -/
def imageSum (expected : Json) : Result Json := do (← expected.item "files").itemBy (← expected.item "image")

section
variable (site : Site)

/-- The marker that a build has been flashed. -/
def executeMarker (id : Text) : Text := join site.state (id ++ ".execute-started".toList)

/-- The marker that the reboot of a build has been validated. -/
def rebootMarker (id : Text) : Text := join site.state (id ++ ".validation-reboot-started".toList)

end

/-! ### After the return -/

def isDomainChar (c : Char) : Bool := c.isAlphanum || c == '.' || c == '-'
def isPathChar (c : Char) : Bool := c.isAlphanum || c == '/' || c == '_' || c == '.' || c == '-'

/-- The domain of an endpoint `https://[a-zA-Z0-9.-]+/[a-zA-Z0-9/_.-]*`. -/
def endpointDomain (endpoint : Text) : Option Text :=
  match (afterWord "https://".toList endpoint).map (·.span isDomainChar) with
  | some (domain, '/' :: path) => if domain ≠ [] ∧ path.all isPathChar then some domain else none
  | _ => none

/-- `network_check`. -/
def networkCheck (ipv6 : Bool) : List Text → Py Bool
  | [] => pure false
  | endpoint :: endpoints => do
    match endpointDomain endpoint with
    | none => raiseStop "PRECHECK_FAILED: invalid public endpoint"
    | some domain =>
      let r ← run (.text ("nslookup ".toList ++ shlexQuote domain ++ " >/dev/null 2>&1 && curl ".toList ++ (if ipv6 then "-6" else "-4").toList ++
        " -fLsS --max-time 12 --connect-timeout 5 --output /dev/null ".toList ++ shlexQuote endpoint ++ ['\n'])) 20
      if r.returncode = 0 then pure true else networkCheck ipv6 endpoints

/-- The families of addresses that worked before. -/
def networkChecks (endpoints : List Text) : List (Text × Json) → Py Checks
  | [] => pure []
  | (family, wasUp) :: rest => do
    let ok ← if wasUp.truthy then networkCheck (family = "ipv6".toList) endpoints else pure true
    return ("HTTPS_DNS_".toList ++ family, .bool ok) :: (← networkChecks endpoints rest)

/-- The scripts are all sent; all must succeed. -/
def runAll : List Text → Py Bool
  | [] => pure true
  | script :: scripts => do
    let r ← run (.text script)
    let ok ← runAll scripts
    return r.returncode = 0 && ok

def enabledScript (service : Text × Text) : Text :=
  hasSum (initPath service.1) service.2 ++ " && [ -x ".toList ++ initPath service.1 ++ " ] && find /etc/rc.d -name \"S??".toList ++ service.1 ++
    "\" | grep -q .\n".toList

def disabledScript (service : Text) : Text := "! find /etc/rc.d -name \"S??".toList ++ service ++ "\" | grep -q .\n".toList

/-- What `finish_checks` reads of a migration. -/
structure Evidence where
  enabledCustomServices : List (Text × Text)
  disabledServices : List Text
  wirelessSha256 : Option Text

/-- `finish_checks`. -/
def finishChecks (p expected baseline baselineNet : Json) (endpoints : List Text) (migration : Evidence) (runDir : Text) (phase : String) : Py Unit := do
  let required ← ofResult (requiredChecks p expected baseline)
  let network ← networkChecks endpoints (← ofResult baselineNet.items)
  let enabled ← runAll (migration.enabledCustomServices.map enabledScript)
  let disabled ← runAll (migration.disabledServices.map disabledScript)
  let wireless ←
    match migration.wirelessSha256 with
    | some digest => do
      let r ← run (.text (hasSum "/etc/config/wireless".toList digest ++ ['\n']))
      pure [check "wireless_preserved_ABI_bytes" (r.returncode = 0)]
    | none => pure []
  let checks := required ++ network ++ [check "preserved_service_bytes_enabled" enabled, check "preserved_service_disabled" disabled] ++ wireless
  emit phase (some (.obj checks))
  privateWrite (join runDir (phase ++ ".json").toList) (.json p)
  refuse (!checks.allTrue) (if phase = "first_boot" then "POSTCHECK_FAILED" else "REBOOT_VALIDATION_FAILED")

/-! ### Resumption -/

/-- `[e['detail'] for e in events if e['event'] == name]`. -/
def detailsOf (name : String) : List Json → Result (List Json)
  | [] => .ok []
  | e :: events => do
    if (← e.item "event").eq (.lit name) then return (← e.item "detail") :: (← detailsOf name events) else detailsOf name events

/-- `any(e['event'] in names for e in events)`. -/
def anyEvent (names : List String) : List Json → Result Bool
  | [] => .ok false
  | e :: events => do
    let event ← e.item "event"
    if names.any fun name => event.eq (.lit name) then pure true else anyEvent names events

/-- The events of an execution are those of this candidate, and end behind the handoff. -/
def isBound (imageEvents configEvents events : List Json) (imageSum : Json) (archive : Text) : Py Bool := do
  match imageEvents with
  | [image] =>
    if !(← ofResult (image.item "candidate_sha256")).eq imageSum then pure false
    else
      match configEvents with
      | [config] =>
        let digest ← ofResult (config.item "archive_sha256")
        if !digest.eq (.str (← sha archive)) then pure false
        else ofResult (anyEvent ["EXPECTED_HANDOFF", "INDETERMINATE_HANDOFF"] events)
      | _ => pure false
  | _ => pure false

section
variable (lib : Python) (site : Site)

/-- `json.loads`, of each line. -/
def loadLines (lines : List Text) : Result (List Json) := lines.mapM lib.loads

/-- What `resume_context` recovers. -/
structure Context where
  baseline : Json
  baselineNet : Json
  migration : Evidence
  events : List Json

/-- `resume_context`. -/
def resumeContext (expected : Json) : Py Context := do
  let marker := executeMarker site (← ofResult (buildId expected))
  let absent ← if ← isSymlink marker then pure true else do pure !(← isFile marker)
  refuse absent "RESUME_REQUIRES_EXISTING_EXECUTE_MARKER"
  let prior := strip (← readText marker)
  let foreign ←
    if ← isSymlink prior then pure true
    else do
      let resolved ← resolvePath prior
      let state ← resolvePath site.state
      pure ((pathParts resolved).dropLast ≠ pathParts state || !startsWith "test-".toList (pathName prior))
  refuse foreign "RESUME_INVALID_EXECUTION_EVIDENCE"
  let events ← ofResult (loadLines lib (splitlines (← readText (join prior "events.jsonl".toList))))
  let imageHash ← ofResult (imageSum expected)
  let imageEvents ← ofResult (detailsOf "REMOTE_IMAGE_VALIDATION_PASS" events)
  let configEvents ← ofResult (detailsOf "CONFIG_MIGRATION_PASS" events)
  let archive := join prior "config-migrated.tgz".toList
  let bound ← isBound imageEvents configEvents events imageHash archive
  refuse (!bound) "RESUME_UNBOUND_EXECUTION_EVIDENCE"
  let baseline ← readJson (join prior "baseline.json".toList)
  let good ← ofResult (do if ← knownGoodSource baseline then pure (← layoutChecks baseline).allTrue else pure false)
  refuse (!good) "RESUME_INVALID_ORIGINAL_BASELINE"
  let members ← readTar archive
  let services ← ofResult (resumeServices lib.sha256 members)
  let counted ← ofResult ((configEvents.headD .null).item "preserved_enabled_custom_services")
  refuse (!counted.eq (.int services.enabledCustomServices.length)) "RESUME_SERVICE_EVIDENCE_MISMATCH"
  let net ← readJson (join prior "network-baseline.json".toList)
  pure ⟨baseline, net, ⟨services.enabledCustomServices, services.disabledServices, some services.wirelessSha256⟩, events⟩

/-- `reserve_validation_reboot`. -/
def reserveValidationReboot (expected : Json) (runDir : Text) (priorEvents : List Json) : Py Unit := do
  let again ← ofResult (anyEvent ["NORMAL_REBOOT_VALIDATION"] priorEvents)
  refuse again "REFUSING_SECOND_VALIDATION_REBOOT"
  let marker := rebootMarker site (← ofResult (buildId expected))
  match ← Proc.Raising.outcome (privateWrite marker (.text (runDir ++ ['\n']))) with
  | .error .fileExistsError => raiseStop "REFUSING_SECOND_VALIDATION_REBOOT"
  | .error e => throw e
  | .ok () => syncDir site.state

/-- The reboot that is validated, and what is checked behind it. -/
def validateReboot (rounds : Nat) (expected : Json) (c : Context) (endpoints : List Text) (runDir : Text) (priorEvents : List Json)
    (controller : Controller) (first : Json) : Run Unit := do
  reserveValidationReboot site expected runDir priorEvents
  let (_, second) ← controller.reboot lib site expected c.baseline rounds first
  finishChecks second expected c.baseline c.baselineNet endpoints c.migration runDir "second_boot"

/-- `resume_validation`. -/
def resumeValidation (rounds : Nat) (expected : Json) (endpoints : List Text) (runDir : Text) (validate : Bool) : Run Unit := do
  let c ← (resumeContext lib site expected : Py Context)
  let first ← (probe lib site : Py Json)
  let other ← (ofResult (do
    if !(← first.item "identity").eq (← expected.item "identity") then pure true
    else if !(← first.item "kernel").eq (.lit "6.12.103") then pure true
    else if !(← expected.item "kernel").eq (.lit "6.12.103") then pure true
    else pure ((← first.item "boot_id").eq (← c.baseline.item "boot_id"))) : Py Bool)
  refuse other "RESUME_REQUIRES_EXACT_NEW_RUNNING_BUILD"
  finishChecks first expected c.baseline c.baselineNet endpoints c.migration runDir "first_boot"
  emit "FIRST_BOOT_VALIDATED"
  if validate then
    validateReboot lib site rounds expected c endpoints runDir c.events {} first
    emit "HARDWARE_VALIDATED"

end

/-! ### Checks on the host -/

def recoverySum : String := "7b48d723d93612c6fb8857ec4f05ac7faf62242f6848e5686f53fc8ff6752e69"

/-- `BASELINE_HELPERS`. -/
def baselineHelpers : List Text :=
  ["/sbin/sysupgrade".toList, "/lib/upgrade/stage2".toList, "/lib/upgrade/do_stage2".toList, "/lib/upgrade/platform.sh".toList,
    "/lib/upgrade/mi_layout.sh".toList, "/lib/upgrade/mi_dualboot.sh".toList, "/lib/upgrade/nand.sh".toList, "/lib/upgrade/common.sh".toList]

inductive Mode where
  | dryRun
  | execute
  | resumeValidation
  deriving DecidableEq

/-- The arguments of the command line. -/
structure Args where
  mode : Mode := .dryRun
  validateReboot : Bool := false
  candidateDir : Option Text := none
  recoveryDir : Option Text := none
  host : Text := "192.168.1.1".toList
  endpoints : Option (List Text) := none

/-- The endpoints that show that the network works. -/
def Args.endpointList (args : Args) : List Text :=
  args.endpoints.getD ["https://www.cloudflare.com/cdn-cgi/trace".toList, "https://www.wikipedia.org/".toList]

/-- `[0-9a-f]{64}`. -/
def isSum (t : Text) : Bool := t.length = 64 && t.all fun c => c.isDigit || ('a' ≤ c && c ≤ 'f')

/-- All values are digests. -/
def areSums : List (Text × Json) → Result Bool
  | [] => .ok true
  | (_, digest) :: helpers => do if isSum (← digest.text) then areSums helpers else pure false

/-- The helpers of the running system, with the digests that the manifest binds them to. -/
def helperSums (expected : Json) : Result (List (Text × Text)) := do
  let helpers ← expected.get "baseline_helpers" (.obj [])
  let names ← (← helpers.iter).mapM Json.hashable
  stopIf (Json.setEq names (baselineHelpers.map .str) = false) "PRECHECK_FAILED: current-system stage2 helper hashes are not bound"
  let entries ← helpers.items
  let bound ← areSums entries
  stopIf (bound = false) "PRECHECK_FAILED: current-system stage2 helper hashes are not bound"
  entries.mapM fun e => do return (e.1, ← e.2.text)

/-- The script that verifies the helpers. -/
def referenceVerify (helpers : List (Text × Text)) : Text :=
  "set -eu\n".toList ++ (sortServices helpers).flatMap fun helper => hasSum helper.1 helper.2 ++ ['\n']

/-- The files of the candidate have their digests. -/
def checkFiles (candidate : Text) : List (Text × Json) → Py Unit
  | [] => pure ()
  | (name, digest) :: files => do
    let bad ← if '/' ∈ name ∨ name = ['.'] ∨ name = ['.', '.'] then pure true else do pure !(Json.str (← sha (join candidate name))).eq digest
    refuse bad "PRECHECK_FAILED: candidate file SHA mismatch"
    checkFiles candidate files

section
variable (lib : Python) (site : Site)

/-- The tools of the runner have their digests. -/
def checkTools : List (Text × Json) → Py Unit
  | [] => pure ()
  | (name, digest) :: tools => do
    let bad ←
      if hasParent name || !(startsWith "scripts/".toList name || name = detector) then pure true
      else do pure !(Json.str (← sha (join site.root name))).eq digest
    refuse bad "PRECHECK_FAILED: runner/helper version mismatch"
    checkTools tools

/-- The local tools are there. -/
def checkWhich : List String → Py Unit
  | [] => pure ()
  | tool :: tools => do
    let found ← Proc.Raising.ask (A := LookAnswer) (.which tool.toList)
    refuse (!found) ("PRECHECK_FAILED: missing local tool " ++ tool)
    checkWhich tools

/-- `settings.get(key, default)`, as a path. -/
def settingPath (settings : Json) (key : String) (default : Text) : Result Text := do (← settings.get key (.str default)).text

/-- A directory that was given, or that of the settings. -/
def dirOr (given : Option Text) (settings : Json) (key : String) (default : Text) : Result Text :=
  match given with
  | some dir => .ok dir
  | none => settingPath settings key default

/-- What the checks on the host establish. -/
structure Candidate where
  dir : Text
  expected : Json
  helpers : List (Text × Text)
  image : Text

/-- The candidate is the one that was reviewed, and complete. -/
def checkCandidate (settings : Json) (candidate : Text) (expected : Json) : Py (List (Text × Text)) := do
  let anchor ← ofResult (settings.get "manifest_sha256")
  let unbound ← if anchor.truthy then do pure !(Json.str (← sha (join candidate "candidate.json".toList))).eq anchor else pure true
  refuse unbound "PRECHECK_FAILED: candidate manifest has no matching local review anchor"
  checkFiles candidate (← ofResult (do (← expected.item "files").items))
  let tools ← ofResult (do (← expected.item "tools").items)
  checkTools site tools
  refuse (!(tools.any (·.1 = detector) && tools.any (·.1 = memoryTool))) "PRECHECK_FAILED: unbound layout or memory tool"
  ofResult (helperSums expected)

/-- The scripts are in order, there is room for the image, and there is a way back. -/
def checkRecovery (args : Args) (settings : Json) (candidate : Text) (expected : Json) : Py Text := do
  let lint ← spawn ("shellcheck".toList :: ["scripts/attended-cr8808-hardware-test.sh".toList, "scripts/lib/cr8808-probe.sh".toList, memoryTool,
    "scripts/performance-audit.sh".toList].map (join site.root))
  if lint.returncode ≠ 0 then throw .subprocessError
  let image := join candidate (← ofResult (do (← expected.item "image").text))
  let free ← ExceptT.mk (Proc.ask (A := LookAnswer) (.diskFree site.state))
  let bytes ← size image
  refuse (free < bytes * 4 + 64 * 1024 * 1024) "PRECHECK_FAILED: local state storage too small"
  let dir ← ofResult (dirOr args.recoveryDir settings "recovery_dir" candidate)
  let recovery ← sha (join dir "rainwrt-redmi_ax3000-baseline-wg-web-recovery-factory.ubi".toList)
  refuse (recovery ≠ recoverySum.toList) "PRECHECK_FAILED: known-good recovery SHA mismatch"
  let instructions ← isFile (join candidate "HARDWARE_TEST_25_12.md".toList)
  refuse (!instructions) "PRECHECK_FAILED: recovery instructions absent"
  pure image

/-- The image is for this board, and was built from a commit that is at hand. -/
def checkSource (candidate : Text) (expected : Json) : Py Unit := do
  let metadata ← readJson (join candidate "image-metadata.json".toList)
  let wrong ← ofResult (do
    if !(← metadata.item "supported_devices").eq (.arr [.lit "redmi,ax3000"]) then pure true
    else pure !(← (← metadata.item "version").item "target").eq (.lit "qualcommax/ipq50xx"))
  refuse wrong "PRECHECK_FAILED: candidate metadata"
  let other ← ofResult (do
    pure !(← (← expected.item "identity").item "RAINWRT_SOURCE_REVISION").eq (← expected.item "source_revision"))
  refuse other "PRECHECK_FAILED: candidate source identity"
  let revision ← ofResult (do (← expected.item "source_revision").text)
  let commit ← spawn ["git".toList, "-C".toList, site.root, "rev-parse".toList, revision ++ "^\x7bcommit\x7d".toList]
  if commit.returncode ≠ 0 then throw .subprocessError
  let commit ← ofResult (decode commit.stdout)
  refuse (strip commit ≠ revision) "PRECHECK_FAILED: source commit is unavailable"

/-- The checks on the host. -/
def preflight (args : Args) (settings : Json) : Py Candidate := do
  checkWhich ["ssh", "scp", "ssh-keygen", "shellcheck"]
  let candidate ← ofResult (dirOr args.candidateDir settings "candidate_dir" (join site.root "hardware-test-candidate".toList))
  let expected ← ExceptT.mk (Proc.ask (A := LookAnswer) (.manifest candidate))
  let helpers ← checkCandidate site settings candidate expected
  let image ← checkRecovery site args settings candidate expected
  checkSource site candidate expected
  emit "LOCAL_PREFLIGHT_PASS"
  transportInit site args.host
  pure ⟨candidate, expected, helpers, image⟩

/-! ### Checks on the router -/

/-- The system that runs is one that may be replaced. -/
def fingerprint (runDir : Text) : Py Json := do
  let baseline ← probe lib site
  privateWrite (join runDir "baseline.json".toList) (.json baseline)
  let layout ← ofResult (layoutChecks baseline)
  let good ← ofResult (knownGoodSource baseline)
  let checks := layout ++ [check "known_good_source" good]
  emit "fingerprint" (some (.obj checks))
  refuse (!checks.allTrue) "PRECHECK_FAILED: fingerprint"
  pure baseline

/-- The image is on the router already. -/
def isStaged (remoteImage : Text) (digest : Json) : Py Bool := do
  let current ← run (.text ("sha256sum ".toList ++ remoteImage ++ " 2>/dev/null\n".toList))
  if current.returncode = 0 then
    match Json.splitText (← ofResult (decode current.stdout)) with
    | word :: _ => pure ((Json.str word).eq digest)
    | [] => ofResult (.error .indexError)
  else pure false

/-- The room that the upload of the image takes. -/
def uploadKib (image : Text) (staged : Bool) : Py Nat := do
  if staged then pure 0 else pure (pagesKib (← size image))

/-- `line.rsplit('/', 1)[-1]`. -/
def lastPart (line : Text) : Text := (line.splitOn '/').getLast?.getD []

/-- The names of the enabled services. -/
def serviceNames : List Text → Result (List Text)
  | [] => .ok []
  | line :: lines => do
    stopIf (isService (lastPart line) = false) "PRECHECK_FAILED: unsafe original service name"
    return setAdd (← serviceNames lines) (lastPart line)

/-- `ENABLED_SERVICES`. -/
def enabledServices : Text :=
  "for p in /etc/rc.d/S*; do [ -L \"$p\" ] && [ -x \"$p\" ] || continue; readlink \"$p\"; done\n".toList

/-- `migrate_archive`, with its files. -/
def migrateFile (source destination : Text) (enabled : List Text) : Py Migration := do
  let members ← readTar source
  let (out, migration) ← ofResult (migrateArchive lib.sha256 enabled members)
  writeTar destination out
  ExceptT.mk (Proc.ask (A := LookAnswer) (.chmod destination))
  let names := (← readTar destination).map Member.name
  refuse (names.any isBlocked) "PRECHECK_FAILED: stale feed or upgrade helper survived migration"
  pure migration

/-- `audit_archive`, with its files. -/
def auditFiles (original migrated : Text) : Py Audit := do
  gunzip migrated
  let old ← readTar original
  let new ← readTar migrated
  ofResult (auditArchive old new)

/-- The configuration is fetched, migrated and audited. -/
def migrateConfig (runDir : Text) : Py Migration := do
  let listing ← checked (.text "sysupgrade -l\n".toList)
  privateWrite (join runDir "sysupgrade-list.txt".toList) (.bytes listing)
  emit "SYSUPGRADE_LIST_COLLECTED" (some (.obj [("count".toList, .int (splitLinesKeep listing).length)]))
  let services ← checked (.text enabledServices)
  let enabled ← ofResult (do serviceNames (splitlines (← decode services)))
  let original ← checked (.text "sysupgrade -b -\n".toList)
  let source := join runDir "config-original.tgz".toList
  let migrated := join runDir "config-migrated.tgz".toList
  privateWrite source (.bytes original)
  let migration ← migrateFile lib source migrated enabled
  let audit ← auditFiles source migrated
  let bytes ← size migrated
  let digest ← sha migrated
  emit "CONFIG_MIGRATION_PASS" (some (.obj [("removed_members".toList, .int migration.removedMembers),
    ("preserved_enabled_custom_services".toList, .int migration.enabledCustomServices.length), ("archive_size".toList, .int bytes),
    ("archive_sha256".toList, .str digest), ("audit".toList, .obj (audit.checks.map (fun c => (c.1, .bool c.2)) ++
      [("core_config_count".toList, .int audit.coreConfigCount), ("SSH_host_key_count".toList, .int audit.hostKeyCount),
        ("member_count".toList, .int audit.memberCount)]))]))
  pure migration

/-- The script that verifies what lies on the router. -/
def verifyScript (helpers : List (Text × Text)) (remote imageSum archiveSum detectorSum : Text) : Text :=
  let image := remote ++ "/candidate.bin".toList
  referenceVerify helpers ++ ['\n'].intercalate
    ["set -eu".toList, hasSum image imageSum, hasSum (remote ++ "/config.tgz".toList) archiveSum, hasSum (remote ++ "/mi_layout.sh".toList) detectorSum,
      detectorCheck (remote ++ "/mi_layout.sh".toList), "sysupgrade -T ".toList ++ image,
      "fwtool -i ".toList ++ remote ++ "/metadata.json ".toList ++ image,
      "[ \"$(jsonfilter -i ".toList ++ remote ++ "/metadata.json -e '@.supported_devices[0]')\" = redmi,ax3000 ]".toList,
      "[ \"$(jsonfilter -i ".toList ++ remote ++ "/metadata.json -e '@.version.target')\" = qualcommax/ipq50xx ]".toList,
      "grep -Fq '/lib/upgrade/*.sh' /lib/upgrade/stage2".toList,
      "for h in mi_layout.sh mi_dualboot.sh platform.sh nand.sh common.sh do_stage2; do [ -s /lib/upgrade/$h ]; done\n".toList]

/-- The directory of a candidate on the router is made, or is there. -/
def makeRemote (remote : Text) : Text :=
  "set -eu\numask 077\n[ ! -L ".toList ++ remote ++ " ]\nmkdir -p ".toList ++ remote ++ "\nchmod 700 ".toList ++ remote ++
    "\nfor f in candidate.bin config.tgz mi_layout.sh metadata.json; do [ ! -L ".toList ++ remote ++ "/$f ]; done\n".toList

/-- The image is copied if it is not on the router already. -/
def upload (image remoteImage : Text) (staged : Bool) : Py Unit := if staged then pure () else copy image remoteImage

/-- What lies on the router is copied there and verified; the result is the script that verified it. -/
def stage (c : Candidate) (digest : Text) (remote migrated : Text) (staged : Bool) : Py Text := do
  upload c.image (remote ++ "/candidate.bin".toList) staged
  copy migrated (remote ++ "/config.tgz".toList)
  let source := join site.root detector
  copy source (remote ++ "/mi_layout.sh".toList)
  let detectorSum ← sha source
  let verify := verifyScript c.helpers remote digest (← sha migrated) detectorSum
  let _ ← checked (.text verify)
  emit "REMOTE_IMAGE_VALIDATION_PASS" (some (.obj [("candidate_sha256".toList, .str digest), ("detector".toList, .lit "rainwrt-single-slot"),
    ("sysupgrade_T".toList, .bool true), ("metadata_board".toList, .lit "redmi,ax3000"), ("metadata_target".toList, .lit "qualcommax/ipq50xx"),
    ("stage2_helpers".toList, .bool true)]))
  pure verify

/-- The addresses that work, of those that the baseline has. -/
def networkBaseline (endpoints : List Text) (baseline : Json) : List String → Py (List (Text × Json))
  | [] => pure []
  | family :: families => do
    let has ← ofResult (baseline.item family)
    if has.truthy then
      let ok ← networkCheck (family = "ipv6") endpoints
      return (family.toList, .bool ok) :: (← networkBaseline endpoints baseline families)
    else networkBaseline endpoints baseline families

/-- The last check of the memory. -/
def finalMemoryCheck (profile : Json) (migrated : Text) : Py Script := do
  let tool ← readText (join site.root memoryTool)
  let stage2 ← ofResult (do (← profile.item "stage2").index 1)
  let handoff ← ofResult (do (← profile.item "handoff").index 1)
  pure (.preHandoff tool stage2 handoff (pagesKib (← size migrated)))

/-- What lies on the router, and what is known of the system that runs there. -/
structure Staged where
  baseline : Json
  profile : Json
  migration : Migration
  verify : Text
  remote : Text

/-- The checks on the router up to the upload. -/
def stageCandidate (rounds : Nat) (c : Candidate) (runDir migrated : Text) : Py Staged := do
  let baseline ← fingerprint lib site runDir
  let _ ← checked (.text (referenceVerify c.helpers))
  emit "EXISTING_HELPER_HASH_PASS" (some (.obj [("count".toList, .int c.helpers.length)]))
  let profile ← memoryProfile lib site
  emit "MEMORY_PROFILE" (some profile)
  let digest ← ofResult (do (← imageSum c.expected).text)
  let remote := "/tmp/rainwrt-hwtest-".toList ++ digest.take 16
  let staged ← isStaged (remote ++ "/candidate.bin".toList) (.str digest)
  let imageKib ← uploadKib c.image staged
  let _ ← waitResources lib site rounds { imageKib := imageKib, profile := profile, phase := "PRE_UPLOAD_CAPACITY_PHYSICAL_GATE" }
  let _ ← checked (.text (makeRemote remote))
  let migration ← migrateConfig lib runDir
  let _ ← waitResources lib site rounds
    { imageKib := imageKib, profile := profile, phase := "PRE_PAYLOAD_UPLOAD_GATE", archiveBytes := (← size migrated) }
  let verify ← stage site c digest remote migrated staged
  pure ⟨baseline, profile, migration, verify, remote⟩

/-- What the checks on the router establish. -/
structure Ready where
  context : Context
  command : Upgrade

/-- The checks on the router between the upload and the handoff. -/
def checkHandoff (rounds : Nat) (runDir migrated : Text) (endpoints : List Text) (st : Staged) : Py Ready := do
  let postUpload ← probe lib site
  let _ ← waitResources lib site rounds
    { imageKib := 0, profile := st.profile, phase := "POST_UPLOAD_VALIDATION_GATE", archiveBytes := (← size migrated), staged := true }
  let changed ← ofResult (do
    if !(← st.baseline.item "boot_id").eq (← postUpload.item "boot_id") then pure true
    else pure !(← st.baseline.item "mtd").eq (← postUpload.item "mtd"))
  refuse changed "PRECHECK_FAILED: device changed during preflight"
  let net ← networkBaseline endpoints st.baseline ["ipv4", "ipv6"]
  privateWrite (join runDir "network-baseline.json".toList) (.json (.obj net))
  emit "NETWORK_BASELINE_COLLECTED" (some (.obj net))
  let _ ← waitResources lib site rounds
    { imageKib := 0, profile := st.profile, phase := "PRE_HANDOFF_GATE", archiveBytes := (← size migrated), staged := true }
  let final ← finalMemoryCheck site st.profile migrated
  let _ ← checked final
  emit "PREFLIGHT_PASS"
  let boot ← ofResult (st.baseline.item "boot_id")
  pure ⟨⟨st.baseline, .obj net, ⟨st.migration.enabledCustomServices, st.migration.disabledServices, none⟩, []⟩, ⟨st.verify, final, boot, st.remote⟩⟩

/-- The checks on the router, up to the handoff. -/
def gates (rounds : Nat) (c : Candidate) (runDir : Text) (endpoints : List Text) : Py Ready := do
  let migrated := join runDir "config-migrated.tgz".toList
  let st ← stageCandidate lib site rounds c runDir migrated
  checkHandoff lib site rounds runDir migrated endpoints st

/-! ### Runs -/

/-- The commands that change the router are about to be sent. -/
inductive Attempt where
  | resume (expected : Json)
  | flash (expected : Json) (ready : Ready)

/-- `main` as long as it only looks. -/
def prepare (rounds : Nat) (args : Args) (settings : Json) (runDir : Text) (endpoints : List Text) : Py (Option Attempt) := do
  let c ← preflight site args settings
  if args.mode = .resumeValidation then pure (some (.resume c.expected))
  else
    let ready ← gates lib site rounds c runDir endpoints
    if args.mode = .execute then
      let marker := executeMarker site (← ofResult (buildId c.expected))
      privateWrite marker (.text (runDir ++ ['\n']))
      pure (some (.flash c.expected ready))
    else
      emit "DRY_RUN_COMPLETE"
      pure none

/-- The candidate is flashed and validated. -/
def flash (rounds : Nat) (expected : Json) (ready : Ready) (endpoints : List Text) (runDir : Text) (validate : Bool) : Run Unit := do
  let c := ready.context
  let (controller, first) ← Controller.execute lib site expected c.baseline {} rounds ready.command
  finishChecks first expected c.baseline c.baselineNet endpoints c.migration runDir "first_boot"
  emit "FIRST_BOOT_VALIDATED"
  let audit ← (readText (join site.root "scripts/performance-audit.sh".toList) : Py Text)
  let performance ← (checked (.text audit) : Py Bytes)
  privateWrite (join runDir "performance.txt".toList) (.bytes performance)
  if validate then
    validateReboot lib site rounds expected c endpoints runDir [] controller first
    emit "HARDWARE_VALIDATED"
  else emit "FIRST_BOOT_VALIDATED"

/-- `main` from there on. -/
def attempt (rounds : Nat) (args : Args) (endpoints : List Text) (runDir : Text) : Attempt → Run Unit
  | .resume expected => resumeValidation lib site rounds expected endpoints runDir args.validateReboot
  | .flash expected ready => flash lib site rounds expected ready endpoints runDir args.validateReboot

/-- The exceptions that `main` catches. -/
def Exn.isCaught : Exn → Bool
  | .typeError => false
  | .attributeError => false
  | .indexError => false
  | .recursionError => false
  | .outOfRounds => false
  | _ => true

/-- The message of an exception; `attempted` says how far `main` had come. -/
def Exn.message (attempted : Bool) : Exn → String
  | .stop message => .ofList message
  | _ => (if attempted then "POSTCHECK_FAILED" else "PRECHECK_FAILED") ++ ": local/transport/format error; private evidence retained"

/-- `main` reports an exception. -/
def report (mode : Mode) (attempted : Bool) (e : Exn) : Py Int := do
  if !e.isCaught then throw e
  emit (e.message attempted)
  if e.message attempted = "FAILED_TO_RETURN" then emit "USE_VERIFIED_WEB_RECOVERY"
  emit "NO_FLASH_RETRY_NO_AUTOMATIC_RECOVERY"
  if mode = .resumeValidation then emit "HARDWARE_VALIDATION_FAILED"
  pure 1

/-- The settings, if there are any. -/
def readSettings (path : Text) : Py Json := do
  if ← pathExists path then readJson path else pure (.obj [])

/-- The state directory, the lock, the settings and the directory of this run. -/
def openRun : Py (Json × Text) := do
  ExceptT.mk (Proc.ask (A := LookAnswer) (.makeDir site.state true))
  ExceptT.mk (Proc.ask (A := LookAnswer) (.chmod site.state))
  ExceptT.mk (Proc.ask (A := LookAnswer) (.lock (join site.state "hardware-test.lock".toList)))
  let settings ← readSettings (join site.state "hardware-test.json".toList)
  let now ← Proc.Raising.ask (A := LookAnswer) .now
  let runDir := join site.state ("test-".toList ++ now)
  ExceptT.mk (Proc.ask (A := LookAnswer) (.makeDir runDir false))
  pure (settings, runDir)

/-- `main`. -/
def main (rounds : Nat) (args : Args) : Run Int := do
  let (settings, runDir) ← (openRun site : Py (Json × Text))
  match ← (Proc.Raising.outcome (prepare lib site rounds args settings runDir args.endpointList) : Py (Except Exn (Option Attempt))) with
  | .error e => report args.mode false e
  | .ok none => pure 0
  | .ok (some next) =>
    match ← Proc.Raising.outcome (attempt lib site rounds args args.endpointList runDir next) with
    | .error e => report args.mode true e
    | .ok () => pure 0

end

end RainWrt.HwTest
