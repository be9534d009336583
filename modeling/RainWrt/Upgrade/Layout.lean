import RainWrt.Upgrade.Shell

/-! The two detectors of the merged layout: `mi_layout.sh`, which runs on the router before it writes,
    and `cr8808-probe.sh` with `layout_checks` of `hardware_test.py`, which judge it from the host. -/

namespace RainWrt.Upgrade

/-! ### Device -/

/-- An entry of `/proc/mtd`. -/
structure MtdEntry where
  index : Nat
  size : Nat
  erasesize : Nat
  name : Text

/-- `%8.8x`. -/
def hex8 (n : Nat) : Text := let digits := Nat.toDigits 16 n; List.replicate (8 - digits.length) '0' ++ digits

namespace MtdEntry

def dev (e : MtdEntry) : Text := "mtd".toList ++ Nat.toDigits 10 e.index ++ [':']

def quoted (name : Text) : Text := ['"'] ++ name ++ ['"']

/-- The kernel's `"mtd%d: %8.8llx %8.8x \"%s\""`. -/
def line (e : MtdEntry) : Text := e.dev ++ ' ' :: (hex8 e.size ++ ' ' :: (hex8 e.erasesize ++ ' ' :: quoted e.name))

end MtdEntry

/-- What the detectors read. -/
structure Device where
  board : Text
  mtd : List MtdEntry
  /-- `/proc/cmdline`, without the newline at its end. -/
  cmdline : Text
  isChar : Text → Bool
  /-- The bytes of a device, if it can be read. -/
  content : Text → Option (List UInt8)
  /-- What `fw_printenv -n bootcmd` prints. -/
  bootcmd : Text
  /-- `/sys/class/mtd/mtd18/offset`. -/
  offset : Nat

def mtdHeader : Text := "dev:    size   erasesize  name".toList

def Device.procMtd (d : Device) : List Text := mtdHeader :: d.mtd.map MtdEntry.line

/-! ### Text tools -/

/-- `[[:space:]]`. -/
def isSpaceClass (c : Char) : Bool := c ∈ [' ', '\t', '\n', '\x0b', '\x0c', '\r']

def isBlank (c : Char) : Bool := c == ' '

/-- `awk '{ print $N }'`, counting from 0. -/
def awkField (n : Nat) (l : Text) : Text := ((splitWords [] l)[n]?).getD []

/-- `sed -n 's/^mtd\([0-9][0-9]*\):.*/\1/p'` on a line. -/
def sedIndex (l : Text) : Option Text :=
  let digits := (l.drop 3).takeWhile Char.isDigit
  if "mtd".toList.isPrefixOf l ∧ digits ≠ [] ∧ (l.drop (3 + digits.length)).head? = some ':' then some digits else none

/-- `(SP|$)` at the start of `t`. -/
def endsAt (sp : Char → Bool) (t : Text) : Bool := t.head?.all sp

/-- `(^|SP)WORD(SP|$)` on a line; `start` says that what stands before `t` allows a match. -/
def grepWord (sp : Char → Bool) (word : Text) : Bool → Text → Bool
  | start, [] => start && word.isPrefixOf []
  | start, c :: t => (start && word.isPrefixOf (c :: t) && endsAt sp ((c :: t).drop word.length)) || grepWord sp word (sp c) t

def ubiMtdRootfs : Text := "ubi.mtd=rootfs".toList

/-- `grep -Eq '(^|SP)ubi\.mtd=rootfs(SP|$)' /proc/cmdline`. -/
def grepCmdline (sp : Char → Bool) (cmdline : Text) : Bool := (cmdline.splitOn '\n').any (grepWord sp ubiMtdRootfs true)

/-! ### On the router -/

def mibibHash : Text := "b0c9f1a0239bd150e121063278d123b30e7697a6959ea4543cce8e83aa47ca54".toList
def appsblHash : Text := "a92f08878499bb697e67cfb5f597bb5757e48b4846f4f250fbc612ea166ad4f3".toList

def devPath (index : Text) : Text := "/dev/mtd".toList ++ index

section
variable (sha256 : List UInt8 → Text) (d : Device)

/-- `mi_layout_mtd_line`; no line stands for its failure. -/
def miLayoutMtdLine (name : Text) : List Text := d.procMtd.filter fun l => awkField 3 l = MtdEntry.quoted name

/-- `mi_layout_mtd_size`. -/
def miLayoutMtdSize (name : Text) : Text := substitute ((miLayoutMtdLine d name).map (awkField 1))

/-- `mi_layout_mtd_index`. -/
def miLayoutMtdIndex (name : Text) : Text := substitute ((miLayoutMtdLine d name).filterMap sedIndex)

/-- `dd if=PATH bs=1 skip=2048 count=632 | sha256sum`, the hash alone. -/
def tableHash (path : Text) : Text := sha256 ((((d.content path).getD []).drop 2048).take 632)

/-- `sha256sum PATH`, the hash alone. -/
def fileHash (path : Text) : Text := ((d.content path).map sha256).getD []

/-- `mi_layout_mibib_fingerprint`. -/
def miLayoutMibibFingerprint : Text :=
  let index := miLayoutMtdIndex d "0:MIBIB".toList
  if index = [] then [] else tableHash sha256 d (devPath index)

/-- `mi_layout_appsbl_fingerprint`. -/
def miLayoutAppsblFingerprint : Text :=
  let index := miLayoutMtdIndex d "0:APPSBL".toList
  if index = [] then [] else fileHash sha256 d (devPath index)

/-- `mi_layout_board_supported`. -/
def miLayoutBoardSupported (board : Text) : Bool := board = "redmi,ax3000".toList || board = "xiaomi,cr880x-m81".toList

/-- `mi_layout_is_single`. -/
def miLayoutIsSingle : Bool :=
  miLayoutBoardSupported d.board &&
  miLayoutMtdIndex d "0:MIBIB".toList = "1".toList &&
  miLayoutMtdIndex d "rootfs".toList = "18".toList &&
  miLayoutMtdSize d "rootfs".toList = "07480000".toList &&
  d.isChar (devPath "18".toList) &&
  miLayoutMtdLine d "rootfs_1".toList = [] &&
  grepCmdline isSpaceClass d.cmdline &&
  miLayoutMibibFingerprint sha256 d = mibibHash &&
  miLayoutMtdIndex d "0:APPSBL".toList = "12".toList &&
  miLayoutAppsblFingerprint sha256 d = appsblHash &&
  d.bootcmd = "bootmiwifi".toList

/-! ### From the host -/

/-- The fields of the probe that the layout checks read. -/
structure Probe where
  board : Text
  mtd : Text
  mibib : Text
  appsbl : Text
  bootcmd : Text
  char : Bool
  cmdline : Bool
  offset : Nat

/-- `cr8808-probe.sh`. -/
def probe : Probe where
  board := d.board
  mtd := substitute d.procMtd
  mibib := tableHash sha256 d (devPath "1".toList)
  appsbl := fileHash sha256 d (devPath "12".toList)
  bootcmd := d.bootcmd
  char := d.isChar (devPath "18".toList)
  cmdline := grepCmdline isBlank d.cmdline
  offset := d.offset

/-- `re.search(r'^LINE$', text, re.M)`. -/
def searchLine (l text : Text) : Bool := (text.splitOn '\n').any (· = l)

/-- `re.search(r'^START.*END$', text, re.M)`. -/
def searchEnds (start stop text : Text) : Bool :=
  (text.splitOn '\n').any fun l => start.isPrefixOf l && stop.isSuffixOf (l.drop start.length)

/-- `layout_checks`. -/
def layoutChecks (p : Probe) : List (Text × Bool) :=
  [("board".toList, p.board = "redmi,ax3000".toList),
    ("mtd18".toList, searchLine "mtd18: 07480000 00020000 \"rootfs\"".toList p.mtd),
    ("mtd_character".toList, p.char),
    ("rootfs_1_absent".toList, ¬"\"rootfs_1\"".toList <:+: p.mtd),
    ("rootfs_offset".toList, p.offset = 0xA80000),
    ("cmdline".toList, p.cmdline),
    ("mibib".toList, p.mibib = mibibHash && searchEnds "mtd1: ".toList " \"0:MIBIB\"".toList p.mtd),
    ("appsbl".toList, p.appsbl = appsblHash && searchEnds "mtd12: ".toList " \"0:APPSBL\"".toList p.mtd),
    ("bootcmd".toList, p.bootcmd = "bootmiwifi".toList)]

end

end RainWrt.Upgrade
