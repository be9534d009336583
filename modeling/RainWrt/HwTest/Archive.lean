import RainWrt.HwTest.Wireless

/-! The configuration archive of an upgrade: `migrate_archive` drops what the new system must not get
    and writes a script that restores the services; `resume_context` reads that script back. An archive
    is the list of its members. -/

namespace RainWrt.HwTest

inductive Kind where
  | file
  | dir
  | sym
  | lnk
  | chr
  | blk
  | fifo
  deriving DecidableEq, Repr

/-- A member of an archive. Only a file holds data. -/
structure Member where
  name : Text
  kind : Kind := .file
  linkname : Text := []
  data : Bytes := []
  mode : Nat := 0o644
  uid : Nat := 0
  gid : Nat := 0
  deriving DecidableEq, Repr

/-! ### Names -/

/-- `member.name.removeprefix('./').lstrip('/')`. -/
def normalise (name : Text) : Text := (dropLead "./".toList name).dropWhile (· == '/')

/-- `'..' in PurePosixPath(name).parts`. -/
def hasParent (name : Text) : Bool := "..".toList ∈ name.splitOn '/'

def blocked : List Text :=
  ["etc/opkg".toList, "usr/lib/opkg".toList, "etc/apk".toList, "lib/apk".toList, "lib/upgrade".toList, "etc/rc.d".toList]

def disableName : Text := "etc/uci-defaults/10_disable_services".toList
def scriptName : Text := "etc/uci-defaults/91-rainwrt-preserved-services".toList
def wirelessName : Text := "etc/config/wireless".toList
def initDir : Text := "etc/init.d/".toList

def exactNames : List Text := ["etc/rainwrt-release".toList, "etc/init.d/uboot_env".toList, disableName, scriptName]

/-- `name == x or name.startswith(x + '/')`. -/
def below (name x : Text) : Bool := name = x || startsWith (x ++ ['/']) name

def isBlocked (name : Text) : Bool := blocked.any (below name)

/-- A name that does not go into the migrated archive. -/
def isDropped (name : Text) : Bool := name ∈ exactNames || isBlocked name

/-- `[A-Za-z0-9]`. -/
def isServiceStart (c : Char) : Bool := c.isAlphanum

/-- `[A-Za-z0-9_.-]`. -/
def isServiceChar (c : Char) : Bool := c.isAlphanum || c == '_' || c == '.' || c == '-'

/-- `SERVICE.fullmatch`. -/
def isService (name : Text) : Bool := name.head?.any isServiceStart && name.all isServiceChar && name.length ≤ 64

/-! ### Service lines -/

/-- The rest of a text that starts with `word`. -/
def afterWord (word t : Text) : Option Text := if word.isPrefixOf t then some (t.drop word.length) else none

/-- The rest after any character but a newline: a point in a regular expression. -/
def afterAny : Text → Option Text
  | c :: t => if c == '\n' then none else some t
  | [] => none

/-- A service name up to the text `verb`, which ends the line. -/
def serviceBefore (verb t : Text) : Option Text :=
  let name := t.takeWhile isServiceChar
  if isService name ∧ t.drop name.length = verb then some name else none

/-- `/etc/init.d/(NAME) disable`. -/
def matchDisable (line : Text) : Option Text := do
  let t ← afterAny (← afterWord "/etc/init".toList line)
  serviceBefore " disable".toList (← afterWord "d/".toList t)

/-- `^LEAD/bin/sh /etc/rc.common /etc/init.d/(NAME)VERB$`. -/
def matchRcCommon (lead verb line : Text) : Option Text := do
  let t ← afterAny (← afterWord (lead ++ "/bin/sh /etc/rc".toList) line)
  let t ← afterAny (← afterWord "common /etc/init".toList t)
  serviceBefore verb (← afterWord "d/".toList t)

/-! ### Restore script -/

def initPath (name : Text) : Text := "/etc/init.d/".toList ++ name

def disableLines (name : Text) : List Text :=
  ["if [ -f ".toList ++ initPath name ++ " ] && [ ! -L ".toList ++ initPath name ++ " ]; then".toList,
    "  /bin/sh /etc/rc.common ".toList ++ initPath name ++ " disable".toList, "fi".toList]

def enableLines (service : Text × Text) : List Text :=
  ["[ -f ".toList ++ initPath service.1 ++ " ] && [ ! -L ".toList ++ initPath service.1 ++ " ]".toList,
    "[ \"$(sha256sum ".toList ++ initPath service.1 ++ " | cut -d' ' -f1)\" = ".toList ++ service.2 ++ " ]".toList,
    "/bin/sh /etc/rc.common ".toList ++ initPath service.1 ++ " enable".toList]

/-- `sorted(preserved.items())`. -/
def sortServices (l : List (Text × Text)) : List (Text × Text) := l.insertionSort fun a b => toLex a ≤ toLex b

/-- `service_restore_script`. -/
def serviceRestoreScript (preserved : List (Text × Text)) (disabled : List Text) : Bytes :=
  let lines := ["#!/bin/sh".toList, "set -eu".toList] ++ (sortTexts disabled).flatMap disableLines ++
    (sortServices preserved).flatMap enableLines ++ ["exit 0".toList, []]
  encode (['\n'].intercalate lines)

/-! ### Migration -/

/-- The lines of the upstream list of disabled services, added to a set. -/
def addDisabled (disabled : List Text) (line : Text) : Result (List Text) :=
  if strip line = [] ∨ strip line = "exit 0".toList then .ok disabled
  else
    match matchDisable line with
    | some name => .ok (setAdd disabled name)
    | none => stop "PRECHECK_FAILED: unrecognized upstream disable-state format"

/-- The variables of the loop, and the members written so far. -/
structure Migrating where
  removed : Nat := 0
  preserved : List (Text × Text) := []
  seen : List Text := []
  disabled : List Text := []
  out : List Member := []

/-- The member `10_disable_services` is read for the services that it disables. -/
def readDisabled (s : Migrating) (name : Text) (m : Member) : Result Migrating :=
  if name = disableName then do
    stopIf (m.kind ≠ .file) "PRECHECK_FAILED: invalid upstream service-state member"
    let disabled ← (splitlines (← decode m.data)).foldlM addDisabled s.disabled
    return { s with disabled := disabled }
  else .ok s

/-- Links out of the archive and special files are refused. -/
def checkKind (m : Member) : Result Unit := do
  stopIf (m.kind = .lnk ∨ m.kind = .chr ∨ m.kind = .blk ∨ m.kind = .fifo) "PRECHECK_FAILED: unsupported archive member type"
  stopIf (m.kind = .sym ∧ (startsWith ['/'] m.linkname ∨ hasParent m.linkname)) "PRECHECK_FAILED: unsafe archive link"

/-- The data under which a member is written. -/
def migrateData (name : Text) (m : Member) : Result Bytes :=
  if name = wirelessName then
    if m.kind ≠ .file then stop "PRECHECK_FAILED: wireless configuration is not a regular file" else migrateWireless m.data
  else .ok m.data

section
variable (sha256 : Bytes → Bytes) (enabled : List Text)

/-- A service script is written as it is; if the service is enabled, its hash is kept. -/
def preserveService (s : Migrating) (name : Text) (m : Member) (data : Bytes) : Result Migrating :=
  if startsWith initDir name then
    let service := name.drop initDir.length
    if !isService service || m.kind ≠ .file then stop "PRECHECK_FAILED: unsafe preserved service"
    else if service ∈ enabled then .ok { s with preserved := s.preserved ++ [(service, hexdigest (sha256 data))] }
    else .ok s
  else .ok s

/-- One round of the loop of `migrate_archive`. -/
def migrateMember (s : Migrating) (m : Member) : Result Migrating := do
  let name := normalise m.name
  stopIf (hasParent name ∨ name ∈ s.seen ∨ '\n' ∈ name ∨ '\x00' ∈ name) "PRECHECK_FAILED: unsafe archive member"
  let s ← readDisabled { s with seen := s.seen ++ [name] } name m
  checkKind m
  if isDropped name then return { s with removed := s.removed + 1 }
  let data ← migrateData name m
  let s ← preserveService sha256 enabled s name m data
  return { s with out := s.out ++ [{ m with name := name, data := data }] }

/-- The result of `migrate_archive`. -/
structure Migration where
  removedMembers : Nat
  enabledCustomServices : List (Text × Text)
  disabledServices : List Text

/-- The generated member. -/
def scriptMember (preserved : List (Text × Text)) (disabled : List Text) : Member :=
  { name := scriptName, data := serviceRestoreScript preserved disabled, mode := 0o700 }

/-- The members behind the loop: the script, if it has anything to do. -/
def scriptMembers (preserved : List (Text × Text)) (disabled : List Text) : List Member :=
  if preserved = [] ∧ disabled = [] then [] else [scriptMember preserved disabled]

/-- `migrate_archive`: the migrated archive and the report. -/
def migrateArchive (members : List Member) : Result (List Member × Migration) := do
  stopIf ((members.map fun m => m.data.length).sum > 16 * 1024 * 1024) "PRECHECK_FAILED: configuration exceeds audited 16 MiB budget"
  let s ← members.foldlM (migrateMember sha256 enabled) {}
  stopIf (enabled.any (· ∈ s.disabled)) "PRECHECK_FAILED: inconsistent original service state"
  let out := s.out ++ scriptMembers s.preserved s.disabled
  stopIf (out.any fun m => isBlocked m.name) "PRECHECK_FAILED: stale feed or upgrade helper survived migration"
  return (out, ⟨s.removed, s.preserved, sortTexts s.disabled⟩)

/-! ### Resume -/

/-- `getmember`: the last member of that name. -/
def getMember (members : List Member) (name : Text) : Result Member :=
  match (members.filter fun m => m.name = name).getLast? with
  | some m => .ok m
  | none => .error (.keyError name)

/-- One part of a path more, in `os.path.normpath`; `rooted` says that the path starts with a slash. -/
def normpathPart (rooted : Bool) (parts : List Text) (part : Text) : List Text :=
  if part = [] ∨ part = ['.'] then parts
  else if part ≠ ['.', '.'] ∨ (rooted = false ∧ parts = []) ∨ parts.getLast? = some ['.', '.'] then parts ++ [part]
  else parts.dropLast

/-- `os.path.normpath`. -/
def normpath (path : Text) : Text :=
  let rooted := startsWith ['/'] path
  let slashes := if startsWith ['/', '/'] path && !startsWith ['/', '/', '/'] path then ['/', '/'] else if rooted then ['/'] else []
  let normal := slashes ++ ['/'].intercalate ((path.splitOn '/').foldl (normpathPart rooted) [])
  if normal = [] then ['.'] else normal

/-- `os.path.dirname`. -/
def dirname (path : Text) : Text :=
  let head := (path.reverse.dropWhile (· ≠ '/')).reverse
  if head.all (· = '/') then head else (head.reverse.dropWhile (· = '/')).reverse

/-- The name of the target in `_find_link_target`. -/
def linkTarget (m : Member) : Text :=
  if m.kind = .sym then ['/'].intercalate ([dirname m.name, m.linkname].filter (· ≠ [])) else m.linkname

/-- `_getmember` with normalized names: the last such member, behind those before it. -/
def findTarget (target : Text) : List Member → Option (List Member × Member)
  | [] => none
  | m :: members =>
    match findTarget target members with
    | some (before, found) => some (m :: before, found)
    | none => if normpath m.name = normpath target then some ([], m) else none

/-- `extractfile(...).read()`, of a member behind those before it. A symbolic link leads to any member, a hard link to one before
    it. A chain of more links than there are members never ends. -/
def extractfile (members : List Member) : (rounds : Nat) → (before : List Member) → Member → Result Bytes
  | 0, _, _ => .error .recursionError
  | rounds + 1, before, m =>
    if m.kind = .file then .ok m.data
    else if m.kind = .sym ∨ m.kind = .lnk then
      match findTarget (linkTarget m) (if m.kind = .sym then members else before) with
      | some (before, target) => extractfile members rounds before target
      | none => .error (.keyError (linkTarget m))
    else .error .attributeError

/-- `extractfile(NAME).read()`. -/
def readMember (members : List Member) (name : Text) : Result Bytes := do
  let m ← getMember members name
  extractfile members (members.length + 1) (members.reverse.dropWhile (·.name ≠ name)).tail.reverse m

/-- The byte string as characters, for the regular expressions. -/
def latin1 (data : Bytes) : Text := data.map fun b => Char.ofNat b.toNat

/-- `re.findall(rb'^LEAD/bin/sh /etc/rc.common /etc/init.d/(NAME)VERB$', script, re.M)`. -/
def findServices (lead verb : String) (script : Bytes) : List Text :=
  ((latin1 script).splitOn '\n').filterMap (matchRcCommon lead.toList verb.toList)

/-- `dict[key] = value`. -/
def dictSet (d : List (Text × Text)) (key value : Text) : List (Text × Text) :=
  if key ∈ d.map Prod.fst then d.map fun e => if e.1 = key then (key, value) else e else d ++ [(key, value)]

/-- The hash of a service script in the archive. -/
def rehash (members : List Member) (preserved : List (Text × Text)) (name : Text) : Result (List (Text × Text)) := do
  let m ← getMember members (initDir ++ name)
  stopIf (m.kind ≠ .file) "RESUME_INVALID_SERVICE_MEMBER"
  return dictSet preserved name (hexdigest (sha256 m.data))

/-- What the script says of the services. -/
def readServices (members : List Member) : Result (List (Text × Text) × List Text) := do
  if members.all fun m => m.name ≠ scriptName then return ([], [])
  let script ← readMember members scriptName
  let disabled := findServices "  " " disable" script
  let preserved ← (findServices "" " enable" script).foldlM (rehash sha256 members) []
  stopIf (script ≠ serviceRestoreScript preserved disabled ∨ preserved.any (·.1 ∈ disabled)) "RESUME_UNRECOGNIZED_SERVICE_STATE"
  return (preserved, disabled)

/-- What `resume_context` reads from the migrated archive. -/
structure Resumed where
  enabledCustomServices : List (Text × Text)
  disabledServices : List Text
  wirelessSha256 : Text

/-- The part of `resume_context` that reads the migrated archive. -/
def resumeServices (members : List Member) : Result Resumed := do
  let (preserved, disabled) ← readServices sha256 members
  let wireless ← migrateWireless (← readMember members wirelessName)
  return ⟨preserved, disabled, hexdigest (sha256 wireless)⟩

end

/-! ### Audit -/

def configDir : Text := "etc/config/".toList

/-- The configurations that must survive, the wireless one apart. -/
def plainCore : List Text := ["network".toList, "dhcp".toList, "firewall".toList, "system".toList].map (configDir ++ ·)

def coreNames : List Text := wirelessName :: plainCore

/-- `n.startswith('etc/dropbear/') and n.endswith('_host_key')`. -/
def isHostKey (name : Text) : Bool := startsWith "etc/dropbear/".toList name && "_host_key".toList.isSuffixOf name

/-- `{key(m): m for m in members}[name]`: the last member of that name. -/
def memberAt (key : Member → Text) (members : List Member) (name : Text) : Option Member := (members.filter fun m => key m = name).getLast?

/-- The name of a member of the original archive. -/
def originalName (m : Member) : Text := normalise m.name

section
variable (old new : List Member)

/-- A name of `same_bytes`. -/
def sameBytes (name : Text) : Bool :=
  match memberAt Member.name new name, memberAt originalName old name with
  | some m', some m => m'.kind = .file && m.kind = .file && m'.data = m.data
  | _, _ => false

def wirelessOk : Result Bool :=
  match memberAt originalName old wirelessName, memberAt Member.name new wirelessName with
  | some m, some m' => if m.kind = .file ∧ m'.kind = .file then do return (← migrateWireless m.data) = m'.data else return false
  | _, _ => return false

def hostKeys : List Text := ((old.map originalName).filter isHostKey).dedup

/-- What must not be found in the migrated archive. -/
def removedLabels : List (Text × List Text) :=
  [("old_opkg_removed".toList, ["etc/opkg".toList, "usr/lib/opkg".toList]), ("old_apk_removed".toList, ["etc/apk".toList, "lib/apk".toList]),
    ("old_upgrade_removed".toList, ["lib/upgrade".toList]), ("old_rc_d_removed".toList, ["etc/rc.d".toList])]

/-- What `audit_archive` reports. -/
structure Audit where
  checks : List (Text × Bool)
  coreConfigCount : Nat
  hostKeyCount : Nat
  memberCount : Nat

def auditChecks (wirelessOk : Bool) : List (Text × Bool) :=
  [("core_config_preserved".toList, plainCore.all (sameBytes old new) && wirelessOk), ("wireless_device_ABI_migration".toList, wirelessOk),
    ("SSH_host_keys_preserved".toList, !(hostKeys old).isEmpty && (hostKeys old).all (sameBytes old new)), ("archive_integrity".toList, true)] ++
  removedLabels.map fun l => (l.1, !new.any fun m => l.2.any (below m.name))

/-- `audit_archive`, of an archive that is intact. -/
def auditArchive : Result Audit := do
  let ok ← wirelessOk old new
  let checks := auditChecks old new ok
  stopIf (checks.any fun c => !c.2) "PRECHECK_FAILED: config preservation/integrity audit"
  return ⟨checks, coreNames.length, (hostKeys old).length, (new.map Member.name).dedup.length⟩

end

end RainWrt.HwTest
