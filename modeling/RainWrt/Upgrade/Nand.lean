import RainWrt.Upgrade.Shell

/-! The NAND upgrade (`nand.sh`): an image of one of four kinds goes to UBI volumes, to a raw kernel
    partition, or to the whole UBI partition. -/

namespace RainWrt.Upgrade

/-! ### Image files -/

/-- What `identify_magic_long` prints. -/
inductive FileType where
  | ubi
  | ubifs
  | squashfs
  | fit
  | combined
  | gzip
  | unknown (magic : Text)
  deriving DecidableEq, Repr

/-- `identify_magic_long`. -/
def identifyMagicLong (magic : Text) : FileType :=
  if magic = "55424923".toList then .ubi
  else if magic = "31181006".toList then .ubifs
  else if magic = "68737173".toList then .squashfs
  else if magic = "d00dfeed".toList then .fit
  else if "4349".toList.isPrefixOf magic then .combined
  else if "1f8b".toList.isPrefixOf magic then .gzip
  else .unknown magic

def hexDigit (n : Nat) : Char := "0123456789abcdef".toList.getD n '0'

/-- `dd bs=4 count=1 | hexdump -v -n 4 -e '1/1 "%02x"'`. -/
def magicLong (bytes : List UInt8) : Text := (bytes.take 4).flatMap fun b => [hexDigit (b.toNat / 16), hexDigit (b.toNat % 16)]

/-- An image file, as the tools see it. -/
structure ImageFile where
  path : Text
  /-- The output of a command that is fed with the file. -/
  bytes : Text → List UInt8
  /-- `$cmd < FILE | tar tf -`. -/
  listing : Text → List Text
  /-- `$cmd < FILE | tar xOf - NAME`; nothing if there is no such member. -/
  member : Text → Text → List UInt8

namespace ImageFile

def identify (file : ImageFile) (cmd : Text) : FileType := identifyMagicLong (magicLong (file.bytes cmd))

def identifyTar (file : ImageFile) (cmd name : Text) : FileType := identifyMagicLong (magicLong (file.member cmd name))

/-- `$(identify_if_gzip "$file")cat`. -/
def catCommand (file : ImageFile) : Text := if file.identify "cat".toList = .gzip then "zcat".toList else "cat".toList

/-- `grep -m 1 '^sysupgrade-.*/$'`, without the slash. -/
def boardDir (file : ImageFile) (cmd : Text) : Text :=
  match (file.listing cmd).find? fun l => "sysupgrade-".toList.isPrefixOf l && l.getLast? == some '/' with
  | some l => l.dropLast
  | none => []

end ImageFile

/-! ### UBI partitions -/

/-- `nand_remove_ubiblock`. -/
def nandRemoveUbiblock (ubivol : Text) : Sh Nat := do
  let ubiblk := "/dev/ubiblock".toList ++ ubivol.drop 3
  if ← pathExists ubiblk then
    let _ ← run (.umount ubiblk)
    if (← run (.ubiblockRemove ("/dev/".toList ++ ubivol))) ≠ 0 then return 1
  return 0

/-- `nand_attach_ubi`; an empty text says that it failed. -/
def nandAttachUbi (procMtd : List Text) (ubipart : Text) (hasEnv : Bool) : Sh Text := do
  let mtdnum := findMtdIndex procMtd ubipart
  if mtdnum = [] then return []
  let ubidev ← nandFindUbi procMtd ubipart
  if ubidev ≠ [] then return ubidev
  let _ ← run (.ubiattach mtdnum)
  let ubidev ← nandFindUbi procMtd ubipart
  if ubidev ≠ [] then return ubidev
  let _ ← run (.ubiformat ("/dev/mtd".toList ++ mtdnum) none)
  let _ ← run (.ubiattach mtdnum)
  let ubidev ← nandFindUbi procMtd ubipart
  if ubidev = [] then return []
  if hasEnv then
    let _ ← run (.ubimkvol ubidev "ubootenv".toList "1MiB".toList)
    let _ ← run (.ubimkvol ubidev "ubootenv2".toList "1MiB".toList)
  return ubidev

/-- The volumes of a device are released before it is detached. -/
def releaseVolumes : List Text → Sh Unit
  | [] => return ()
  | v :: vs => do
    let _ ← nandRemoveUbiblock v
    let _ ← run (.umount ("/dev/".toList ++ v))
    releaseVolumes vs

/-- `nand_detach_ubi`. -/
def nandDetachUbi (procMtd : List Text) (ubipart : Text) : Sh Nat := do
  let mtdnum := findMtdIndex procMtd ubipart
  if mtdnum = [] then return 1
  let ubidev ← nandFindUbi procMtd ubipart
  if ubidev = [] then return 0
  releaseVolumes (← devNodes ubidev)
  if (← run (.ubidetach mtdnum)) ≠ 0 then return 1
  return 0

/-- `[ "$ubivol" ] && { nand_remove_ubiblock $ubivol || return 1; }`; `false` is `return 1`. -/
def removeBlock (ubivol : Text) : Sh Bool := do
  if ubivol = [] then return true
  return (← nandRemoveUbiblock ubivol) = 0

/-- `[ "$ubivol" ] && ubirmvol /dev/$ubidev -N NAME || :`. -/
def killVolume (ubidev ubivol name : Text) : Sh Unit := do
  if ubivol ≠ [] then
    let _ ← run (.ubirmvol ubidev name)

/-- The size parameter of a volume: all that is left (`-m`), or a size (`-s`). -/
def sizeParam : Option Nat → Text
  | none => "-m".toList
  | some n => "-s ".toList ++ Nat.toDigits 10 n

/-- `if ! ubimkvol ...; then return 1; fi`, where the volume is wanted; `false` is `return 1`. -/
def makeVolume (wanted : Bool) (ubidev name size : Text) : Sh Bool := do
  if wanted then return (← run (.ubimkvol ubidev name size)) = 0
  return true

/-- The value of a digit, in a base up to 16. -/
def digitValue (c : Char) : Nat :=
  if c.isDigit then c.toNat - 48 else if 'a' ≤ c ∧ c ≤ 'f' then c.toNat - 87 else if 'A' ≤ c ∧ c ≤ 'F' then c.toNat - 55 else 16

/-- A constant in a base. -/
def constantIn (base : Nat) (digits : Text) : Option Nat :=
  if digits ≠ [] ∧ digits.all (digitValue · < base) then some (digits.foldl (fun n c => base * n + digitValue c) 0) else none

/-- An integer constant of the shell: hexadecimal, octal or decimal. -/
def constant : Text → Option Nat
  | '0' :: 'x' :: digits | '0' :: 'X' :: digits => constantIn 16 digits
  | '0' :: digits => constantIn 8 ('0' :: digits)
  | digits => constantIn 10 digits

/-- A number as the shell prints it. -/
def printNumber (n : Int) : Text := if n < 0 then '-' :: Nat.toDigits 10 n.natAbs else Nat.toDigits 10 n.natAbs

/-- `$((name))`, where the variable holds an integer constant, in 64 bits, up to the greatest one. Other expressions are left as they are. -/
def arithmetic (value : Text) : Text :=
  match constant value with
  | some n => printNumber (((min n (2 ^ 64 - 1) : Nat) : Int).bmod (2 ^ 64))
  | none => value

example : arithmetic "0x100000".toList = "1048576".toList := by decide

/-- The provisioning volume. -/
def makeProvisioning (s : Settings) (root : Text) : Sh Bool := do
  if s.upgradeOptAddProvisioning then
    let vol ← nandFindVolume root "provisioning".toList
    makeVolume (vol = []) root "provisioning".toList (sizeParam (some 131072))
  else return true

/-- The data volume, for a root file system that is not UBIFS: of the wanted size, else of any size. -/
def makeData (data : Text) (rootfsType : Option FileType) (dataMax : Text) : Sh Bool := do
  let wanted := rootfsType ≠ some .ubifs
  let param := if dataMax = [] then sizeParam none else "-s ".toList ++ dataMax
  if ← makeVolume wanted data "rootfs_data".toList param then return true
  makeVolume wanted data "rootfs_data".toList (sizeParam none)

/-- The part of `nand_upgrade_prepare_ubi` that creates the volumes, on the devices for the kernel, the
    root file system and the data. -/
def createVolumes (s : Settings) (kern root data : Text) (rootfsLength : Option Nat) (rootfsType : Option FileType)
    (kernelLength : Option Nat) (dataMax : Text) : Sh Nat := do
  if !(← makeProvisioning s root) then return 1
  if !(← makeVolume kernelLength.isSome kern s.ciKernpart (sizeParam kernelLength)) then return 1
  let param := if rootfsType = some .ubifs then sizeParam none else sizeParam rootfsLength
  if !(← makeVolume rootfsLength.isSome root s.ciRootpart param) then return 1
  if !(← makeData data rootfsType dataMax) then return 1
  return 0

/-- `nand_upgrade_prepare_ubi`. -/
def nandUpgradePrepareUbi (procMtd : List Text) (s : Settings) (rootfsLength : Option Nat) (rootfsType : Option FileType)
    (kernelLength : Option Nat) (hasEnv : Bool) : Sh Nat := do
  let dataMax ← fwPrintenv "rootfs_data_max".toList
  if rootfsLength = none ∧ kernelLength = none then return 1
  let kern ← nandAttachUbi procMtd s.kernUbipart hasEnv
  if kern = [] then return 1
  let root ← nandAttachUbi procMtd s.rootUbipart false
  if root = [] then return 1
  let data ← nandAttachUbi procMtd s.dataUbipart false
  if data = [] then return 1
  let kernVol ← nandFindVolume kern s.ciKernpart
  let rootVol₀ ← nandFindVolume root s.ciRootpart
  let dataVol ← nandFindVolume data "rootfs_data".toList
  let rootVol := if rootVol₀ = kernVol then [] else rootVol₀
  if !(← removeBlock kernVol) then return 1
  if !(← removeBlock rootVol) then return 1
  if !(← removeBlock dataVol) then return 1
  killVolume kern kernVol s.ciKernpart
  killVolume root rootVol s.ciRootpart
  killVolume data dataVol "rootfs_data".toList
  createVolumes s kern root data rootfsLength rootfsType kernelLength (if dataMax = [] then [] else arithmetic dataMax)

/-! ### Writers -/

/-- `nand_upgrade_ubinized`. -/
def nandUpgradeUbinized (procMtd : List Text) (s : Settings) (file : ImageFile) : Sh Nat := do
  if (← nandDetachUbi procMtd s.ciUbipart) ≠ 0 then return 1
  let mtdnum := findMtdIndex procMtd s.ciUbipart
  let status ← run (.ubiformat ("/dev/mtd".toList ++ mtdnum) (some file.path))
  if status ≠ 0 then return status
  run (.ubiattach mtdnum)

/-- A volume is filled: the last lines of `nand_upgrade_ubifs` and `nand_upgrade_fit`, and two places in
    `nand_upgrade_tar`. -/
def updateVolume (procMtd : List Text) (ubipart name : Text) (length : Nat) : Sh Nat := do
  let ubidev ← nandFindUbi procMtd ubipart
  let ubivol ← nandFindVolume ubidev name
  run (.ubiupdatevol ("/dev/".toList ++ ubivol) length)

/-- `nand_upgrade_ubifs`. -/
def nandUpgradeUbifs (procMtd : List Text) (s : Settings) (file : ImageFile) (cmd : Text) : Sh Nat := do
  let length := (file.bytes cmd).length
  if (← nandUpgradePrepareUbi procMtd s (some length) (some .ubifs) none false) ≠ 0 then return 1
  updateVolume procMtd s.rootUbipart s.ciRootpart length

/-- `nand_upgrade_fit`. -/
def nandUpgradeFit (procMtd : List Text) (s : Settings) (file : ImageFile) (cmd : Text) : Sh Nat := do
  let length := (file.bytes cmd).length
  if (← nandUpgradePrepareUbi procMtd s none none (some length) true) ≠ 0 then return 1
  updateVolume procMtd s.kernUbipart s.ciKernpart length

/-- The length of a member of a tar image; an empty one counts as missing. -/
def memberLength (file : ImageFile) (cmd name : Text) : Option Nat :=
  let length := (file.member cmd (file.boardDir cmd ++ ['/'] ++ name)).length
  if length = 0 then none else some length

/-- `kernel_length` of `nand_upgrade_tar`. -/
def kernelLength (s : Settings) (file : ImageFile) (cmd : Text) : Option Nat :=
  if s.ciKernpart = "none".toList then none else memberLength file cmd "kernel".toList

/-- `rootfs_length` of `nand_upgrade_tar`. -/
def rootfsLength (file : ImageFile) (cmd : Text) : Option Nat := memberLength file cmd "root".toList

/-- `kernel_mtd` of `nand_upgrade_tar`. -/
def kernelMtd (procMtd : List Text) (s : Settings) : Text :=
  if s.ciKernpart = "none".toList ∨ s.ciSkipKernelMtd then [] else findMtdIndex procMtd s.ciKernpart

/-- The raw kernel is made invalid before anything else is written. -/
def invalidateKernel (procMtd : List Text) (s : Settings) (kernel : Option Nat) : Sh Unit := do
  if kernel.isSome ∧ kernelMtd procMtd s ≠ [] then
    let _ ← run (.mtdWrite s.ciKernpart)

/-- The root file system of a tar image. -/
def writeTarRoot (procMtd : List Text) (s : Settings) : Option Nat → Sh Unit
  | none => return ()
  | some length => do
    let _ ← updateVolume procMtd s.rootUbipart s.ciRootpart length

/-- The kernel of a tar image, to the raw partition or to a volume. -/
def writeTarKernel (procMtd : List Text) (s : Settings) : Option Nat → Sh Unit
  | none => return ()
  | some length => do
    let mtd := kernelMtd procMtd s
    if mtd ≠ [] then
      if s.ciJffs2CleanMarkers then
        let _ ← run (.flashErase ("/dev/mtd".toList ++ mtd))
        let _ ← run (.nandwrite ("/dev/mtd".toList ++ mtd))
      else
        let _ ← run (.mtdWrite s.ciKernpart)
    else
      let _ ← updateVolume procMtd s.kernUbipart s.ciKernpart length

/-- `nand_upgrade_tar`. -/
def nandUpgradeTar (procMtd : List Text) (s : Settings) (file : ImageFile) (cmd : Text) : Sh Nat := do
  let kernel := kernelLength s file cmd
  let rootfs := rootfsLength file cmd
  let rootfsType := rootfs.map fun _ => file.identifyTar cmd (file.boardDir cmd ++ "/root".toList)
  invalidateKernel procMtd s kernel
  let ubiKernel := if kernelMtd procMtd s = [] then kernel else none
  if (← nandUpgradePrepareUbi procMtd s rootfs rootfsType ubiKernel false) ≠ 0 then return 1
  writeTarRoot procMtd s rootfs
  writeTarKernel procMtd s kernel
  return 0

/-! ### Dispatch -/

/-- `nand_verify_if_gzip_file`. -/
def nandVerifyIfGzipFile (file : ImageFile) (cmd : Text) : Sh Nat := do
  if cmd = "zcat".toList then
    if (← run (.gzipTest file.path)) ≠ 0 then return 1
  return 0

/-- `nand_verify_tar_file`. -/
def nandVerifyTarFile (file : ImageFile) (cmd : Text) : Sh Nat := do
  if (← run (.tarTest file.path cmd)) ≠ 0 then return 1
  return 0

/-- The command that unpacks the file: the one given, or the one that fits the file. -/
def unpackCommand (file : ImageFile) (cmd : Text) : Text := if cmd = [] then file.catCommand else cmd

/-- The UBI partition is `rootfs` where there is no other. -/
def withUbipart (procMtd : List Text) (s : Settings) : Settings :=
  if findMtdIndex procMtd s.ciUbipart = [] then { s with ciUbipart := "rootfs".toList } else s

/-- `nand_do_flash_file`. -/
def nandDoFlashFile (procMtd : List Text) (s₀ : Settings) (file : ImageFile) (cmd₀ : Text) : Sh Nat := do
  let cmd := unpackCommand file cmd₀
  let s := withUbipart procMtd s₀
  match file.identify cmd with
  | .fit =>
    if (← nandVerifyIfGzipFile file cmd) ≠ 0 then return 1
    nandUpgradeFit procMtd s file cmd
  | .ubi =>
    if (← nandVerifyIfGzipFile file cmd) ≠ 0 then return 1
    nandUpgradeUbinized procMtd s file
  | .ubifs =>
    if (← nandVerifyIfGzipFile file cmd) ≠ 0 then return 1
    nandUpgradeUbifs procMtd s file cmd
  | _ =>
    if (← nandVerifyTarFile file cmd) ≠ 0 then return 1
    nandUpgradeTar procMtd s file cmd

end RainWrt.Upgrade
