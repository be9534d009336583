import RainWrt.Upgrade.Shell

/-! The dual-slot upgrade (`mi_dualboot.sh`): the image goes to the slot that is not running, and the
    boot flags are switched after that. -/

namespace RainWrt.Upgrade

/-! ### Slots -/

/-- `[a-zA-Z0-9_-]`. -/
def isNameChar (c : Char) : Bool := c.isAlphanum || c == '_' || c == '-'

/-- What `ubi.mtd=[a-zA-Z0-9_-]*` matches at the start of `t`; the point stands for any character. -/
def ubiMtdMatch (t : Text) : Option Text :=
  if "ubi".toList.isPrefixOf t ∧ "mtd=".toList.isPrefixOf (t.drop 4) ∧ t[3]? ≠ some '\n' then
    some (t.take 8 ++ (t.drop 8).takeWhile isNameChar)
  else none

/-- `grep -o`: all matches, after `skip` characters that belong to the last one. -/
def grepUbiMtd : Nat → Text → List Text
  | _, [] => []
  | skip + 1, _ :: t => grepUbiMtd skip t
  | 0, c :: t =>
    match ubiMtdMatch (c :: t) with
    | some m => m :: grepUbiMtd (m.length - 1) t
    | none => grepUbiMtd 0 t

def slotRootfs : Text := "rootfs".toList
def slotRootfs1 : Text := "rootfs_1".toList

/-- `mi_dualboot_current_part`. -/
def miDualbootCurrentPart (cmdline : Text) : Text := substitute ((grepUbiMtd 0 cmdline).map (field '=' 1))

/-- `mi_dualboot_target_part`. -/
def miDualbootTargetPart (current : Text) : Option Text :=
  if current = slotRootfs then some slotRootfs1 else if current = slotRootfs1 then some slotRootfs else none

/-- `mi_dualboot_target_mtdnum`. -/
def miDualbootTargetMtdnum (procMtd : List Text) (current : Text) : Sh (Option Text) := do
  match miDualbootTargetPart current with
  | none => return none
  | some target =>
    let mtdnum := findMtdIndex procMtd target
    if mtdnum = [] ∨ ¬mtdnum.all Char.isDigit then return none
    if ← isChar ("/dev/mtd".toList ++ mtdnum) then return some mtdnum
    return none

/-! ### Upgrade -/

/-- A variable of the boot loader, with its new value. -/
abbrev Flag := Text × Option Text

def flagOtaReboot : Text := "flag_ota_reboot".toList

/-- The variables that an upgrade sets, in order. -/
def upgradeFlags (currentSlot : Text) : List Flag :=
  [("flag_try_sys1_failed".toList, some ['0']), ("flag_try_sys2_failed".toList, some ['0']),
    ("flag_last_success".toList, some currentSlot), (flagOtaReboot, some ['1']), ("flag_boot_success".toList, none)]

/-- `fw_setenv NAME VALUE || return 1`, one after the other. -/
def setFlags : List Flag → Sh Nat
  | [] => return 0
  | f :: fs => do
    if (← run (.fwSetenv f.1 f.2)) ≠ 0 then return 1
    setFlags fs

/-- The value of `current_slot`. -/
def currentSlot (current : Text) : Text := if current = slotRootfs then ['0'] else ['1']

def restoreName : Text := "nand_restore_config".toList

/-- `[ -f "$UPGRADE_BACKUP" ] && nand_restore_config "$UPGRADE_BACKUP"`, whose status is not looked at. -/
def restoreBackup (procMtd : List Text) (s : Settings) (backup : Text) : Sh Unit := do
  if ← isFile backup then
    let status ← nandRestoreConfig procMtd s backup
    returned restoreName status

/-- The part of `mi_dualboot_do_upgrade` that writes the image to slot `target` and looks for its kernel
    volume; `false` is `return 1`. -/
def writeSlot (procMtd : List Text) (target mtdnum image : Text) : Sh Bool := do
  if (← run (.ubiformat ("/dev/mtd".toList ++ mtdnum) (some image))) ≠ 0 then return false
  let _ ← run .sync
  if (← run (.ubiattach mtdnum)) ≠ 0 then return false
  let ubidev ← nandFindUbi procMtd target
  if (← nandFindVolume ubidev "kernel".toList) = [] then return false
  return true

/-- `mi_dualboot_do_upgrade`. -/
def miDualbootDoUpgrade (procMtd : List Text) (cmdline : Text) (s : Settings) (image backup : Text) : Sh Nat := do
  let current := miDualbootCurrentPart cmdline
  match ← miDualbootTargetMtdnum procMtd current with
  | none => return 1
  | some mtdnum =>
    match miDualbootTargetPart current with
    | none => return 1
    | some target =>
      if ← writeSlot procMtd target mtdnum image then
        restoreBackup procMtd { s with ciUbipart := target } backup
        setFlags (upgradeFlags (currentSlot current))
      else return 1

end RainWrt.Upgrade
