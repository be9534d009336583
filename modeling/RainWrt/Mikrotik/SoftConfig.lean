import RainWrt.Bytes

/-! `rb_softconfig`: the settings of the boot loader, which are changed in memory and then committed to the flash. -/

namespace RainWrt.Mikrotik.SoftConfig

/-! ### Tags -/

/-- `RB_MAGIC_SOFT`. -/
def magicSoft : UInt32 := 0x74666f53

/-- The loop of `routerboot_tag_find` over the nodes. -/
def tagFindLoop (buf : Bytes) (tagId datum : Nat) : Option (Nat × Nat) :=
  if datum < buf.length then
    let node := word buf datum
    if node = 0 then none
    else
      let id := node.toNat % 2 ^ 16
      let len := node.toNat / 2 ^ 16
      if tagId = id then
        if datum + 4 ≥ buf.length then none else some ((datum + 4) % 2 ^ 16, len)
      else tagFindLoop buf tagId (datum + 4 + 4 * ((len + 3) / 4 * 4 % 2 ^ 16 / 4))
  else none
termination_by buf.length - datum

/-- `routerboot_tag_find`: the place and the length of the payload. -/
def routerbootTagFind (buf : Bytes) (tagId : Nat) : Option (Nat × Nat) := tagFindLoop buf tagId 0

/-- The attributes that can be written. -/
inductive Attr where
  | uartSpeed
  | bootDelay
  | bootDevice
  | bootKey
  | cpuMode
  | bootProto
  | cpufreqIndex
  | booter
  | silentBoot
  deriving DecidableEq

def Attr.tagId : Attr → Nat
  | .uartSpeed => 0x01
  | .bootDelay => 0x02
  | .bootDevice => 0x03
  | .bootKey => 0x04
  | .cpuMode => 0x05
  | .bootProto => 0x09
  | .cpufreqIndex => 0x0c
  | .booter => 0x0d
  | .silentBoot => 0x0f

/-! ### Values -/

/-- `sysfs_streq`: a newline at the end does not count. -/
def sysfsStreq (s t : String) : Bool := s == t || s == t ++ "\n" || s ++ "\n" == t

/-- `kstrtou32` with base 10. -/
def kstrtou32 (s : String) : Option UInt32 :=
  let cs := s.toList
  let cs := if cs.getLast? = some '\n' then cs.dropLast else cs
  let cs := if cs.head? = some '+' then cs.tail else cs
  if cs.isEmpty || !cs.all Char.isDigit then none
  else
    let n := cs.foldl (fun n c => 10 * n + (c.toNat - '0'.toNat)) 0
    if n < 2 ^ 32 then some (.ofNat n) else none

/-- `struct sc_u32tvs`, a table of values and their names. -/
abbrev U32tvs := List (UInt32 × String)

def uartspeeds : U32tvs :=
  [(8, "off"), (7, "1200"), (6, "2400"), (5, "4800"), (4, "9600"), (3, "19200"), (2, "38400"), (1, "57600"), (0, "115200")]

def bootdevices : U32tvs := [(0, "eth"), (1, "flasheth"), (3, "ethonce"), (5, "flash"), (7, "cfg"), (8, "cfgonce")]

def cpufreqIndexesAth799x : U32tvs := [(0, "a"), (8, "b"), (16, "c"), (24, "d"), (32, "e"), (40, "f")]

def cpufreqIndexesAth797x : U32tvs :=
  [(0, "a"), (144, "b"), (288, "c"), (432, "d"), (576, "e"), (720, "f"), (864, "g"), (1008, "h")]

/-- The processors with a known table of frequencies. -/
inductive Soc where
  | ar7161
  | ar724x
  | ar9344
  | qca953x
  | qca9556
  | qca9558
  | other
  deriving DecidableEq

/-- `sc_tag_store_cpufreq_indexes`: the part of the table that the processor supports. -/
def Soc.cpufreqIndexes : Soc → Option U32tvs
  | .ar7161 => some cpufreqIndexesAth797x
  | .ar724x => some (cpufreqIndexesAth797x.take 4)
  | .ar9344 => some cpufreqIndexesAth799x
  | .qca953x => some (cpufreqIndexesAth799x.take 5)
  | .qca9556 => some (cpufreqIndexesAth799x.take 3)
  | .qca9558 => some (cpufreqIndexesAth799x.take 4)
  | .other => none

/-- `sc_tag_store_u32tvs`: the value that is stored. -/
def u32tvsValue (tvs : U32tvs) (input : String) : Option UInt32 := (tvs.find? fun tv => sysfsStreq input tv.2).map (·.1)

/-- `sc_tag_store_boolts`. -/
def booltsValue (strfalse strtrue : String) (input : String) : Option UInt32 :=
  if sysfsStreq input strfalse then some 0 else if sysfsStreq input strtrue then some 1 else none

/-- `sc_tag_store_bootdelays`. -/
def bootdelaysValue (input : String) : Option UInt32 := do
  let data ← kstrtou32 input
  if data < 1 ∨ 9 < data then none else some data

def Attr.value (soc : Soc) : Attr → String → Option UInt32
  | .uartSpeed => u32tvsValue uartspeeds
  | .bootDelay => bootdelaysValue
  | .bootDevice => u32tvsValue bootdevices
  | .bootKey => booltsValue "any" "del"
  | .cpuMode => booltsValue "powersave" "regular"
  | .bootProto => booltsValue "bootp" "dhcp"
  | .cpufreqIndex => fun input => do u32tvsValue (← soc.cpufreqIndexes) input
  | .booter => booltsValue "regular" "backup"
  | .silentBoot => booltsValue "off" "on"

/-! ### The driver -/

/-- `RB_SC_CRC32_OFFSET`. -/
def crc32Offset : Nat := 4

/-- `RB_SC_GETCRC`. -/
def getCrc (buf : Bytes) : UInt32 := word buf crc32Offset

/-- `RB_SC_SETCRC`. -/
def setCrc (buf : Bytes) (crc : UInt32) : Bytes := writeAt buf crc32Offset (le32 crc)

/-- `RB_SC_CLRCRC`. -/
def clrCrc (buf : Bytes) : Bytes := setCrc buf 0

/-- The checksum of a buffer as it is. -/
def checksum (buf : Bytes) : UInt32 := ~~~(crc32Le 0xffffffff buf)

/-- Where a commit is. -/
inductive Phase where
  | idle
  | checked (flush : Bool)
  | failed
  deriving DecidableEq

/-- The driver and the flash, with the commits of any number of threads. -/
structure State where
  buf : Bytes
  flash : Bytes
  phase : Nat → Phase
  /-- The images that were handed to `mtd_write` so far. -/
  written : List Bytes

/-- What the attributes need: the processor, and the place and length of each payload. -/
structure Config where
  soc : Soc
  payload : Attr → Nat × Nat

/-- `rb_softconfig_init`. -/
def init (soc : Soc) (flash : Bytes) : Option (Config × State) :=
  if word flash 0 ≠ magicSoft then none
  else
    let payload attr :=
      match routerbootTagFind (flash.drop 8) (Attr.tagId attr) with
      | some (ofs, len) => ((ofs + 8) % 2 ^ 16, len)
      | none => (0, 0)
    some ({ soc, payload }, { buf := flash, flash, phase := fun _ => .idle, written := [] })

/-- `sc_attr_store`, whose only locked section is the one that stores the value. -/
def attrStore (c : Config) (buf : Bytes) (attr : Attr) (input : String) : Bytes :=
  let (pldOfs, pldLen) := c.payload attr
  if pldLen ≠ 4 then buf
  else
    match attr.value c.soc input with
    | none => buf
    | some v => clrCrc (writeAt buf pldOfs (le32 v))

/-- `sc_commit_show`: whether it shows that there is no change to commit. -/
def showsClean (s : State) : Bool := getCrc s.buf ≠ 0

/-- How erasing and writing ended, and what is in the flash where they failed. -/
inductive Flush where
  | done
  | eraseFailed (left : Bytes)
  | writeFailed (left : Bytes)

/-- The sections of the threads, each of which runs under the lock, and the last one, which does not. -/
inductive Label where
  | store (attr : Attr) (input : String)
  /-- The first section of `sc_commit_store`, with what `kstrtobool` makes of the input. -/
  | check (i : Nat) (arg : Option Bool)
  /-- The second section. For a read that failed: what is in the buffer. -/
  | reread (i : Nat) (failed : Option Bytes)
  | flush (i : Nat) (result : Flush)
  /-- The end of a commit that failed. -/
  | mtdfail (i : Nat)

def State.enter (s : State) (i : Nat) (p : Phase) : State := { s with phase := fun j => if j = i then p else s.phase j }

def step (c : Config) (s : State) : Label → Option State
  | .store attr input => some { s with buf := attrStore c s.buf attr input }
  | .check i arg =>
    if s.phase i ≠ .idle then none
    else if getCrc s.buf ≠ 0 then some s
    else
      match arg with
      | none => some s
      | some flush => some (s.enter i (.checked flush))
  | .reread i failed =>
    if s.phase i ≠ .checked false then none
    else
      match failed with
      | none => some { s.enter i .idle with buf := s.flash }
      | some left => some { s.enter i .failed with buf := left }
  | .flush i result =>
    if s.phase i ≠ .checked true then none
    else
      -- the checksum is taken over the buffer with whatever is in the field
      let buf := setCrc s.buf (checksum s.buf)
      match result with
      | .done => some { s.enter i .idle with buf, flash := buf, written := s.written ++ [buf] }
      | .eraseFailed left => some { s.enter i .failed with buf, flash := left }
      | .writeFailed left => some { s.enter i .failed with buf, flash := left, written := s.written ++ [buf] }
  | .mtdfail i => if s.phase i ≠ .failed then none else some { s.enter i .idle with buf := clrCrc s.buf }

/-- The sections in the order in which they run. -/
def run (c : Config) (s : State) (labels : List Label) : Option State := labels.foldlM (step c) s

end RainWrt.Mikrotik.SoftConfig
