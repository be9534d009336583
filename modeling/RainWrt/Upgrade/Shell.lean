import RainWrt.Proc

/-! The surroundings of the sysupgrade scripts: the commands they run, each with an exit status that may
    be anything, what they read from `/sys` and `/dev`, and the text tools they use. -/

namespace RainWrt.Upgrade

abbrev Text := List Char

/-! ### Commands -/

/-- A command that is judged by its exit status. -/
inductive Command where
  /-- `ubiformat DEV`, with the image that it writes, if any. -/
  | ubiformat (dev : Text) (image : Option Text)
  | ubiattach (mtdnum : Text)
  | ubidetach (mtdnum : Text)
  | ubimkvol (ubidev name size : Text)
  | ubirmvol (ubidev name : Text)
  | ubiblockRemove (dev : Text)
  | ubiupdatevol (vol : Text) (size : Nat)
  | mtdWrite (part : Text)
  | nandwrite (dev : Text)
  | flashErase (dev : Text)
  | mount (dev dir : Text)
  | umount (dir : Text)
  | mkdir (dir : Text)
  | rmdir (dir : Text)
  | mv (src dst : Text)
  | mknod (dev : Text)
  | sync
  | gzipTest (file : Text)
  /-- `$cmd < FILE | tar xOf - > /dev/null`. -/
  | tarTest (file cmd : Text)
  /-- Without a value the variable is deleted. -/
  | fwSetenv (name : Text) (value : Option Text)
  deriving DecidableEq, Repr

/-- What a script asks of its surroundings. -/
inductive Query where
  | run (c : Command)
  /-- `[ -e PATH ]`. -/
  | exist (path : Text)
  /-- `[ -f PATH ]`. -/
  | isFile (path : Text)
  /-- `[ -c PATH ]`. -/
  | isChar (path : Text)
  /-- The directories `/sys/class/ubi/ubi*` that have an `mtd_num`, with its content. -/
  | ubiDevices
  /-- The directories `/sys/class/ubi/DEV_*`, with the volume names. -/
  | ubiVolumes (ubidev : Text)
  /-- `find /dev -name "DEV_*" -maxdepth 1 | sort`, without `/dev/`. -/
  | devNodes (ubidev : Text)
  | fwPrintenv (name : Text)
  /-- A shell function has come back with a status. No script asks this: it is a record for statements
      about a run. -/
  | returned (f : Text) (status : Nat)
  deriving DecidableEq, Repr

abbrev Answer : Query → Type
  | .run _ => Nat
  | .exist _ | .isFile _ | .isChar _ => Bool
  | .ubiDevices => List (Text × Text)
  | .ubiVolumes _ => List (Text × Text)
  | .devNodes _ => List Text
  | .fwPrintenv _ => Text
  | .returned _ _ => Unit

abbrev Sh (α : Type) := Proc Query Answer α

abbrev Trace := Proc.Trace Query Answer

def run (c : Command) : Sh Nat := Proc.ask (A := Answer) (.run c)
def pathExists (path : Text) : Sh Bool := Proc.ask (A := Answer) (.exist path)
def isFile (path : Text) : Sh Bool := Proc.ask (A := Answer) (.isFile path)
def isChar (path : Text) : Sh Bool := Proc.ask (A := Answer) (.isChar path)
def ubiDevices : Sh (List (Text × Text)) := Proc.ask (A := Answer) .ubiDevices
def ubiVolumes (ubidev : Text) : Sh (List (Text × Text)) := Proc.ask (A := Answer) (.ubiVolumes ubidev)
def devNodes (ubidev : Text) : Sh (List Text) := Proc.ask (A := Answer) (.devNodes ubidev)
def returned (f : Text) (status : Nat) : Sh Unit := Proc.ask (A := Answer) (.returned f status)
def fwPrintenv (name : Text) : Sh Text := Proc.ask (A := Answer) (.fwPrintenv name)

/-! ### Text tools -/

def isSpace (c : Char) : Bool := c == ' ' || c == '\t' || c == '\n'

/-- The words of an unquoted expansion. -/
def splitWords : Text → Text → List Text
  | cur, [] => if cur = [] then [] else [cur]
  | cur, c :: t => if isSpace c then (if cur = [] then splitWords [] t else cur :: splitWords [] t) else splitWords (cur ++ [c]) t

/-- `echo` of an unquoted expansion. -/
def echoWords (t : Text) : Text := [' '].intercalate (splitWords [] t)

/-- Command substitution: the lines of the output without trailing newlines. -/
def substitute (ls : List Text) : Text := ((['\n'].intercalate ls).reverse.dropWhile (· == '\n')).reverse

/-- `${t##pre}` where `pre` holds no pattern. -/
def dropStart (pre t : Text) : Text := if pre.isPrefixOf t then t.drop pre.length else t

/-- `cut -d SEP -f N` and `awk -F SEP '{ print $N }'`, counting from 0. -/
def field (sep : Char) (n : Nat) (t : Text) : Text := ((t.splitOn sep)[n]?).getD []

/-- `find_mtd_index`, on the lines of `/proc/mtd`. -/
def findMtdIndex (procMtd : List Text) (name : Text) : Text :=
  let part := substitute ((procMtd.filter fun l => decide (['"'] ++ name ++ ['"'] <:+: l)).map (field ':' 0))
  echoWords (dropStart "mtd".toList part)

/-! ### UBI devices and volumes -/

/-- `ubi_mknod`; no caller looks at its status. -/
def ubiMknod (name : Text) : Sh Unit := do
  unless ← pathExists ("/dev/".toList ++ name) do
    let _ ← run (.mknod ("/dev/".toList ++ name))

/-- `nand_find_ubi`; an empty text says that there is none. -/
def nandFindUbi (procMtd : List Text) (part : Text) : Sh Text := do
  let mtdnum := findMtdIndex procMtd part
  if mtdnum = [] then return []
  match (← ubiDevices).find? fun d => d.2 = mtdnum with
  | none => return []
  | some d =>
    ubiMknod d.1
    return d.1

/-- `nand_find_volume`. Without a device it looks for directories that do not start with `ubi`, and
    there are none. -/
def nandFindVolume (ubidev name : Text) : Sh Text := do
  if ubidev = [] then return []
  match (← ubiVolumes ubidev).find? fun d => d.2 = name with
  | none => return []
  | some d =>
    ubiMknod d.1
    return d.1

/-! ### Settings -/

/-- The variables that the scripts share. -/
structure Settings where
  ciKernpart : Text := "kernel".toList
  ciUbipart : Text := "ubi".toList
  ciRootpart : Text := "rootfs".toList
  ciKernUbipart : Option Text := none
  ciRootUbipart : Option Text := none
  ciDataUbipart : Option Text := none
  ciSkipKernelMtd : Bool := false
  ciJffs2CleanMarkers : Bool := false
  upgradeOptAddProvisioning : Bool := false

namespace Settings

def kernUbipart (s : Settings) : Text := s.ciKernUbipart.getD s.ciUbipart
def rootUbipart (s : Settings) : Text := s.ciRootUbipart.getD s.ciUbipart
def dataUbipart (s : Settings) : Text := s.ciDataUbipart.getD s.ciUbipart

end Settings

def newRoot : Text := "/tmp/new_root".toList
def backupFile : Text := "sysupgrade.tgz".toList

/-- `nand_restore_config`. -/
def nandRestoreConfig (procMtd : List Text) (s : Settings) (file : Text) : Sh Nat := do
  let ubidev ← nandFindUbi procMtd s.dataUbipart
  let mut ubivol ← nandFindVolume ubidev "rootfs_data".toList
  if ubivol = [] then
    let ubidev ← nandFindUbi procMtd s.rootUbipart
    ubivol ← nandFindVolume ubidev s.ciRootpart
    if ubivol = [] then return 1
  let _ ← run (.mkdir newRoot)
  if (← run (.mount ("/dev/".toList ++ ubivol) newRoot)) ≠ 0 then
    let _ ← run (.rmdir newRoot)
    return 1
  if (← run (.mv file (newRoot ++ ['/'] ++ backupFile))) = 0 then
    if (← run (.umount newRoot)) = 0 then
      let _ ← run (.rmdir newRoot)
      return 0
  else
    let _ ← run (.umount newRoot)
  let _ ← run (.rmdir newRoot)
  return 1

end RainWrt.Upgrade
