import RainWrt.HwTest.Archive
import RainWrt.HwTest.Checks
import RainWrt.Proc

/-! The surroundings of the runner: the router behind the transport, the clock, and the files of the host.
    Every call may fail or give any answer. -/

namespace RainWrt.HwTest

/-- What the runner takes from the standard library as it is. -/
structure Python where
  sha256 : Bytes → Bytes
  /-- `json.loads`, of a text and of bytes. -/
  loads : Text → Result Json
  loadsBytes : Bytes → Result Json

/-- Where the runner stands: the repository, the state directory, and the known hosts of the user. -/
structure Site where
  root : Text
  state : Text
  userKnownHosts : Text

/-- `a / b`. -/
def join (a b : Text) : Text := if startsWith ['/'] b then b else a ++ '/' :: b

/-- `subprocess.CompletedProcess`. -/
structure Completed where
  returncode : Int
  stdout : Bytes
  stderr : Bytes
  deriving DecidableEq

/-- A script that is sent to the router. -/
inductive Script where
  | text (t : Text)
  /-- `memory_pre_handoff`, behind the memory tool. -/
  | preHandoff (tool : Text) (stage2 handoff : Json) (configKib : Nat)

/-- What is written into a file. -/
inductive Content where
  | bytes (data : Bytes)
  | text (t : Text)
  | json (value : Json)

/-- The calls that change nothing on the router for good. -/
inductive Look where
  | run (script : Script) (timeout : ℚ)
  | copy (source remote : Text)
  | clock
  | sleep (seconds : ℚ)
  | emit (event : Text) (detail : Option Json)
  /-- A file is created; it must not exist. -/
  | create (path : Text)
  /-- What is written goes to the disk. -/
  | write (path : Text) (data : Content)
  | syncDir (path : Text)
  | readText (path : Text)
  | readJson (path : Text)
  /-- `candidate.json` of a candidate. -/
  | manifest (candidate : Text)
  | sha (path : Text)
  | size (path : Text)
  | exists (path : Text)
  | isFile (path : Text)
  | isSymlink (path : Text)
  | resolve (path : Text)
  | diskFree (path : Text)
  | which (tool : Text)
  | spawn (argv : List Text)
  | makeDir (path : Text) (existOk : Bool)
  | chmod (path : Text)
  | lock (path : Text)
  | now
  | readTar (path : Text)
  | writeTar (path : Text) (members : List Member)
  /-- An archive is read through to its trailer. -/
  | gunzip (path : Text)

abbrev LookAnswer : Look → Type
  | .run _ _ => Result Completed
  | .copy _ _ => Result Int
  | .clock => ℚ
  | .readText _ => Result Text
  | .readJson _ => Result Json
  | .manifest _ => Result Json
  | .sha _ => Result Text
  | .size _ => Result Nat
  | .exists _ => Result Bool
  | .isFile _ => Result Bool
  | .isSymlink _ => Result Bool
  | .resolve _ => Result Text
  | .diskFree _ => Result Nat
  | .which _ => Bool
  | .spawn _ => Result Completed
  | .now => Text
  | .readTar _ => Result (List Member)
  | _ => Result Unit

/-- A program of the runner. -/
abbrev Py (α : Type) := ExceptT Exn (Proc Look LookAnswer) α

abbrev LookTrace := Proc.Trace Look LookAnswer

section
variable {α : Type}

def ofResult (r : Result α) : Py α := Proc.Raising.ofExcept r

/-- `raise Stop(message)`. -/
def raiseStop (message : String) : Py α := ofResult (stop message)

/-- `if c: raise Stop(message)`. -/
def refuse (c : Bool) (message : String) : Py Unit := ofResult (stopIf (c = true) message)

end

def run (script : Script) (timeout : ℚ := 90) : Py Completed := ExceptT.mk (Proc.ask (A := LookAnswer) (.run script timeout))
def clock : Py ℚ := Proc.Raising.ask (A := LookAnswer) .clock
def sleep (seconds : ℚ) : Py Unit := ExceptT.mk (Proc.ask (A := LookAnswer) (.sleep seconds))
def emit (event : String) (detail : Option Json := none) : Py Unit := ExceptT.mk (Proc.ask (A := LookAnswer) (.emit event.toList detail))
def readText (path : Text) : Py Text := ExceptT.mk (Proc.ask (A := LookAnswer) (.readText path))
def readJson (path : Text) : Py Json := ExceptT.mk (Proc.ask (A := LookAnswer) (.readJson path))
def sha (path : Text) : Py Text := ExceptT.mk (Proc.ask (A := LookAnswer) (.sha path))
def size (path : Text) : Py Nat := ExceptT.mk (Proc.ask (A := LookAnswer) (.size path))
def pathExists (path : Text) : Py Bool := ExceptT.mk (Proc.ask (A := LookAnswer) (.exists path))
def isFile (path : Text) : Py Bool := ExceptT.mk (Proc.ask (A := LookAnswer) (.isFile path))
def isSymlink (path : Text) : Py Bool := ExceptT.mk (Proc.ask (A := LookAnswer) (.isSymlink path))
def resolvePath (path : Text) : Py Text := ExceptT.mk (Proc.ask (A := LookAnswer) (.resolve path))
def spawn (argv : List Text) : Py Completed := ExceptT.mk (Proc.ask (A := LookAnswer) (.spawn argv))
def readTar (path : Text) : Py (List Member) := ExceptT.mk (Proc.ask (A := LookAnswer) (.readTar path))
def create (path : Text) : Py Unit := ExceptT.mk (Proc.ask (A := LookAnswer) (.create path))

def writeOut (path : Text) (data : Content) : Py Unit := ExceptT.mk (Proc.ask (A := LookAnswer) (.write path data))
def syncDir (path : Text) : Py Unit := ExceptT.mk (Proc.ask (A := LookAnswer) (.syncDir path))
def writeTar (path : Text) (members : List Member) : Py Unit := ExceptT.mk (Proc.ask (A := LookAnswer) (.writeTar path members))
def gunzip (path : Text) : Py Unit := ExceptT.mk (Proc.ask (A := LookAnswer) (.gunzip path))

/-- `private_write`. -/
def privateWrite (path : Text) (data : Content) : Py Unit := do
  create path
  writeOut path data

/-! ### Transport -/

/-- The bytes stand somewhere in the data. -/
def hasBytes (s : String) (data : Bytes) : Bool := data.tails.any (bytes s).isPrefixOf

/-- `Transport.checked`. -/
def checked (script : Script) (timeout : ℚ := 90) : Py Bytes := do
  let r ← run script timeout
  if r.returncode ≠ 0 then
    if hasBytes "HOST IDENTIFICATION HAS CHANGED" r.stderr || hasBytes "Host key verification failed" r.stderr then
      raiseStop "SSH_HOST_KEY_CHANGED"
    else raiseStop "PRECHECK_FAILED: remote command failed (private output withheld)"
  else pure r.stdout

/-- `Transport.copy`. -/
def copy (source remote : Text) : Py Unit := do
  let code ← ExceptT.mk (Proc.ask (A := LookAnswer) (.copy source remote))
  refuse (code ≠ 0) "PRECHECK_FAILED: transfer failed"

def memoryTool : Text := "scripts/lib/upgrade-memory.sh".toList
def detector : Text := "target/linux/qualcommax/ipq50xx/base-files/lib/upgrade/mi_layout.sh".toList

section
variable (lib : Python) (site : Site)

/-- `Transport.probe`. -/
def probe : Py Json := do
  let source ← readText (join site.root "scripts/lib/cr8808-probe.sh".toList)
  ofResult (lib.loadsBytes (← checked (.text source)))

/-- `Transport.resources`. -/
def resources (timeout : ℚ) : Py Json := do
  let tool ← readText (join site.root memoryTool)
  ofResult (lib.loadsBytes (← checked (.text (tool ++ "\nmemory_sample\n".toList)) timeout))

/-- `Transport.memory_profile`. -/
def memoryProfile : Py Json := do
  let tool ← readText (join site.root memoryTool)
  ofResult (lib.loadsBytes (← checked (.text (tool ++ "\nmemory_profile\n".toList))))

end

/-- A decimal number from 0 to 255 without leading zeros. -/
def isOctet (t : Text) : Bool :=
  t.all Char.isDigit && (t.length = 1 || (2 ≤ t.length && t.length ≤ 3 && t.head? ≠ some '0')) &&
    (t.foldl (fun n c => 10 * n + (c.toNat - 48)) 0) ≤ 255

/-- `ipaddress.IPv4Address` takes the text. -/
def isIPv4 (host : Text) : Bool := (host.splitOn '.').length = 4 && (host.splitOn '.').all isOctet

/-- `Transport.__init__`. -/
def transportInit (site : Site) (host : Text) : Py Unit := do
  if !isIPv4 host then ofResult (.error (.valueError host))
  let known := join site.state "known_hosts".toList
  if !(← pathExists known) then
    let data ←
      if ← pathExists site.userKnownHosts then do
        let r ← spawn ["ssh-keygen".toList, "-F".toList, host, "-f".toList, site.userKnownHosts]
        pure r.stdout
      else pure []
    privateWrite known (.bytes data)

/-! ### Resources -/

/-- The result of `phase_requirements`. -/
structure Budget where
  physicalRequiredKib : Int
  tmpRequiredKib : Int
  runningPhaseKib : Int
  ramfsPhaseKib : Int
  deferredFileCreditKib : Int
  pendingConfigKib : Int
  handoffFileKib : Int
  ramfsFileKib : Int
  transientMarginKib : Int

def Budget.fields (b : Budget) : List (Text × Json) :=
  [("physical_required_kib".toList, .int b.physicalRequiredKib), ("tmp_required_kib".toList, .int b.tmpRequiredKib),
    ("running_phase_kib".toList, .int b.runningPhaseKib), ("ramfs_phase_kib".toList, .int b.ramfsPhaseKib),
    ("deferred_file_credit_kib".toList, .int b.deferredFileCreditKib), ("pending_config_kib".toList, .int b.pendingConfigKib),
    ("handoff_file_kib".toList, .int b.handoffFileKib), ("ramfs_file_kib".toList, .int b.ramfsFileKib),
    ("transient_margin_kib".toList, .int b.transientMarginKib)]

/-- `type(sample.get(k)) is int and sample[k] >= 0`. -/
def sampleOf (sample : Json) (key : String) : Result (Option Int) := do
  match (← sample.get key).int? with
  | some n => return if 0 ≤ n then some n else none
  | none => return none

/-- A field of a sample that is an integer and not negative. -/
def demand (n : Option Int) : Result Int :=
  match n with
  | some n => .ok n
  | none => stop "PRECHECK_FAILED: invalid resource sample"

/-- `phase_requirements`. -/
def phaseRequirements (profile sample : Json) (imageKib archiveBytes : Nat) (staged : Bool) : Result Budget := do
  let h ← (← profile.item "handoff").index 1
  let r ← (← profile.item "stage2").index 1
  match h.int?, r.int? with
  | some h, some r =>
    stopIf (¬(128 ≤ h ∧ h ≤ r ∧ r ≤ 16384)) "PRECHECK_FAILED: invalid measured upgrade closure"
    let _ ← demand (← sampleOf sample "mem_kib")
    let _ ← demand (← sampleOf sample "tmp_kib")
    let anon ← demand (← sampleOf sample "anon_kib")
    let observer ← demand (← sampleOf sample "observer_anon_kib")
    let locked ← demand (← sampleOf sample "locked_kib")
    let swap ← demand (← sampleOf sample "swap_kib")
    let configKib : Int := (archiveBytes + 4095) / 4096 * 4
    let pendingConfig := if staged then configKib else 2 * configKib
    let credit := if locked ≠ 0 ∨ swap ≠ 0 then 0 else min r (max 0 (anon - observer))
    let running := h + 8192 + pendingConfig
    let afterCleanup := r + 8192 + pendingConfig
    return ⟨imageKib + max running (afterCleanup - credit), imageKib + 2 * r + pendingConfig, running, afterCleanup, credit, pendingConfig, h, r, 8192⟩
  | _, _ => stop "PRECHECK_FAILED: invalid measured upgrade closure"

/-- `round(x, 3)`. -/
def roundMilli (x : ℚ) : ℚ :=
  let m := (x * 1000).floor
  let rest := x * 1000 - m
  (if rest < 1 / 2 ∨ (rest = 1 / 2 ∧ m % 2 = 0) then m else m + 1 : Int) / 1000

/-- The sample has what the budget asks for. -/
def isEnough (p : Json) (budget : Budget) : Result Bool := do
  if (← p.item "mem_kib").int?.any (budget.physicalRequiredKib ≤ ·) then return (← p.item "tmp_kib").int?.any (budget.tmpRequiredKib ≤ ·) else return false

section
variable (lib : Python) (site : Site)

/-- The arguments of `wait_resources`. -/
structure Gate where
  imageKib : Nat
  profile : Json
  phase : String
  archiveBytes : Nat := 0
  staged : Bool := false

/-- The loop of `wait_resources`. -/
def waitResourcesFrom (g : Gate) (start finish : ℚ) : Nat → Nat → Py Json
  | 0, _ => ofResult (.error .outOfRounds)
  | rounds + 1, consecutive => do
    if (← clock) < finish then
      let p ← resources lib site (min 10 (finish - (← clock)))
      let budget ← ofResult (phaseRequirements g.profile p g.imageKib g.archiveBytes g.staged)
      let consecutive := if ← ofResult (isEnough p budget) then consecutive + 1 else 0
      emit "RESOURCE_SAMPLE" (some (.obj ([("phase".toList, .lit g.phase), ("elapsed_seconds".toList, .float (.fin (roundMilli ((← clock) - start)))),
        ("mem_kib".toList, ← ofResult (p.item "mem_kib")), ("tmp_kib".toList, ← ofResult (p.item "tmp_kib")),
        ("image_upload_kib".toList, .int g.imageKib)] ++ budget.fields ++ [("consecutive".toList, .int consecutive)])))
      if finish ≤ (← clock) then raiseStop "PRECHECK_FAILED: resource stability timeout (120 seconds; phase-aware budgets)"
      else if 2 ≤ consecutive then
        emit "RESOURCE_PASS" (some (.obj (("phase".toList, .lit g.phase) :: budget.fields)))
        pure p
      else
        sleep (min 5 (finish - (← clock)))
        waitResourcesFrom g start finish rounds consecutive
    else raiseStop "PRECHECK_FAILED: resource stability timeout (120 seconds; phase-aware budgets)"

/-- `wait_resources`. -/
def waitResources (rounds : Nat) (g : Gate) : Py Json := do
  let start ← clock
  waitResourcesFrom lib site g start (start + 120) rounds 0

end

end RainWrt.HwTest
