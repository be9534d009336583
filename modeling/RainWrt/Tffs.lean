import RainWrt.Bytes

/-! `fritz_tffs_nand_read.c`: looking up the entries of a TFFS partition on NAND flash. An access outside its allocation
    stops the program with `fault`. Allocations of at most the size of the partition are taken to succeed; only the
    table of segments, whose size the flash chooses, may fail to be allocated. Pointers have 64 bits. -/

namespace RainWrt.Tffs

def idEnd : UInt32 := 0xffffffff
def blockHeaderMagic : Nat := 0x41564d5f54464653
def entryHeaderSize : Nat := 0x18
def maximumSegmentSize : Nat := 0x800 - entryHeaderSize
def sectorSize : Nat := 0x800
def sectorOobSize : Nat := 0x40
def sectorsPerPage : UInt32 := 2
def segmentCleared : UInt32 := 0xffffffff

/-- `sizeof(struct tffs_entry_segment)`. -/
def sizeofSegment : Nat := 16

/-- The device as `MEMGETINFO`, `pread` and `MEMREADOOB` show it, and the program's options. -/
structure Flash where
  size : UInt32
  erasesize : UInt32
  page : Nat → Option Bytes
  oob : Nat → Option Bytes
  /-- `-b` was given, or the host has the highest byte first. -/
  bigEndian : Bool
  readOobSectorHealth : Bool
  /-- The most bytes that `realloc` gives. -/
  heap : Nat
  erasesize_ne : erasesize ≠ 0
  /-- A read that passes the end of the device comes back short. -/
  length_page : ∀ sector p, page sector = some p → p.length = sectorSize ∧ (sector + 1) * sectorSize ≤ size.toNat
  length_oob : ∀ sector o, oob sector = some o → o.length = sectorOobSize

inductive Stop
  | fault
  | exit
  deriving DecidableEq, Repr

structure State where
  /-- The bits of the bitmap, from the highest one of each byte. -/
  sectors : List Bool
  sectorIds : List UInt32
  deriving DecidableEq, Repr

namespace Flash

variable (F : Flash)

def numSectors : Nat := F.size.toNat / sectorSize

/-- `pos % blocksize == 0`. -/
def startsBlock (sector : Nat) : Bool := sector * sectorSize % F.erasesize.toNat = 0

def readUint32 (buf : Bytes) (off : Nat) : UInt32 :=
  if F.bigEndian then word (slice buf off 4).reverse 0 else word buf off

def readUint64 (buf : Bytes) (off : Nat) : Nat :=
  if F.bigEndian then (F.readUint32 buf off).toNat * 2 ^ 32 + (F.readUint32 buf (off + 4)).toNat
  else (F.readUint32 buf off).toNat + (F.readUint32 buf (off + 4)).toNat * 2 ^ 32

end Flash

def readUint8 (buf : Bytes) (off : Nat) : UInt8 := buf.getD off 0

/-! ### Sectors -/

/-- The index `num / 8`, which is rounded towards zero, is inside the bitmap. -/
def State.inBitmap (s : State) (num : Int) : Prop := 0 ≤ num.tdiv 8 ∧ num.tdiv 8 < (s.sectors.length / 8 : Nat)

instance (s : State) (num : Int) : Decidable (s.inBitmap num) := inferInstanceAs (Decidable (_ ∧ _))

/-- `sector_mark_bad`. For a negative number the bit is shifted out of its byte. -/
def sectorMarkBad (s : State) (num : Int) : Except Stop State :=
  if s.inBitmap num then .ok (if num < 0 then s else { s with sectors := s.sectors.set num.toNat false })
  else .error .fault

def sectorGetGood (s : State) (num : Int) : Except Stop Bool :=
  if s.inBitmap num then .ok (decide (0 ≤ num) && s.sectors.getD num.toNat false) else .error .fault

/-- `read_sector`: what is in `readbuf`, if the read succeeds. -/
def readSector (F : Flash) (s : State) (sector : Nat) : Except Stop (Option Bytes × State) :=
  match F.page sector with
  | none => .ok (none, s)
  | some readbuf =>
    if sector < s.sectorIds.length then
      .ok (some readbuf, { s with sectorIds := s.sectorIds.set sector (F.readUint32 readbuf 0) })
    else .error .fault

/-! ### Scanning -/

def checkSector (F : Flash) (sector : Nat) : Bool :=
  if F.readOobSectorHealth then
    match F.oob sector with
    | none => false
    | some oobbuf => readUint8 oobbuf 0 = 0xff && readUint8 oobbuf 1 = 0xff
  else true

/-- The argument of `sector_mark_bad` for entry `i` of a header's list, as an `int`. -/
def headerBad (F : Flash) (readbuf : Bytes) (sector i : Nat) : Int :=
  Int.bmod (sector + F.readUint64 readbuf (0x1c + 8 * i)) (2 ^ 32)

def checkBlock (F : Flash) (s : State) (sector : Nat) : Except Stop (Bool × State) :=
  if checkSector F sector then do
    match ← readSector F s sector with
    | (none, s) => return (false, s)
    | (some readbuf, s) =>
      if F.readUint64 readbuf 0 ≠ blockHeaderMagic then return (false, s)
      else if F.readUint32 readbuf 0x0c ≠ sectorsPerPage then return (false, s)
      else
        let numHdrBad := F.readUint32 readbuf 0x0c
        let s ← (List.range numHdrBad.toNat).foldlM (fun s i => sectorMarkBad s (headerBad F readbuf sector i)) s
        return (true, s)
  else .ok (false, s)

structure Scan where
  state : State
  blockOk : Bool
  validBlocks : Nat

/-- `block_ok && sector_get_good(sector) && check_sector(pos)`. -/
def usable (F : Flash) (st : Scan) (sector : Nat) : Except Stop Bool :=
  if st.blockOk then do
    let good ← sectorGetGood st.state sector
    return good && checkSector F sector
  else .ok false

/-- One round of `scan_mtd`. -/
def scanStep (F : Flash) (st : Scan) (sector : Nat) : Except Stop Scan :=
  if F.startsBlock sector then do
    let (blockOk, s) ← checkBlock F st.state sector
    let s ← sectorMarkBad s sector
    return { state := s, blockOk := blockOk, validBlocks := if blockOk then st.validBlocks + 1 else st.validBlocks }
  else do
    let usable ← usable F st sector
    if usable then return st
    else
      let s ← sectorMarkBad st.state sector
      return { st with state := s }

/-- The state after the allocations of `scan_mtd`. -/
def Flash.blank (F : Flash) : State :=
  ⟨List.replicate (8 * ((F.numSectors + 7) / 8)) true, List.replicate F.numSectors 0⟩

/-- `scan_mtd`. The loop goes on while the position is inside the device. -/
def scanMtd (F : Flash) : Except Stop (Nat × State) := do
  let st ← (List.range ((F.size.toNat + (sectorSize - 1)) / sectorSize)).foldlM (scanStep F) ⟨F.blank, false, 0⟩
  return (st.validBlocks, st.state)

/-! ### Looking up an entry -/

/-- What a sector holds behind the checks of `find_entry`. -/
structure Segment where
  rev : UInt32
  seg : UInt32
  next : UInt32
  val : Bytes
  length_val : val.length ≤ maximumSegmentSize
  deriving DecidableEq, Repr

/-- What a round of `find_entry` makes of a sector. -/
inductive Found
  | skip
  | blockEnd
  | segment (e : Segment)
  deriving DecidableEq, Repr

/-- The copies in the OOB area differ from the header. -/
def inconsistent (F : Flash) (readbuf oobbuf : Bytes) : Bool :=
  F.readOobSectorHealth && (F.readUint32 oobbuf 0x02 ≠ F.readUint32 readbuf 0x00 ||
    F.readUint32 oobbuf 0x06 ≠ F.readUint32 readbuf 0x04 || F.readUint32 oobbuf 0x0a ≠ F.readUint32 readbuf 0x0c)

/-- The checks between reading a sector and comparing revisions. -/
def examine (F : Flash) (id : UInt32) (readbuf oobbuf : Bytes) : Found :=
  let readId := F.readUint32 readbuf 0x00
  let readLen := F.readUint32 readbuf 0x04
  if inconsistent F readbuf oobbuf then .skip
  else if readId = idEnd then .blockEnd
  else if h : readLen.toNat > maximumSegmentSize then .skip
  else if readId = id then
    .segment {
      rev := F.readUint32 readbuf 0x0c
      seg := F.readUint32 readbuf 0x10
      next := F.readUint32 readbuf 0x14
      val := slice readbuf entryHeaderSize readLen.toNat
      length_val := Nat.le_trans (List.length_take_le _ _) (Nat.le_of_not_lt h) }
  else .skip

/-- The part of a round that looks at the sector. -/
def visit (F : Flash) (id : UInt32) (s : State) (sector : Nat) : Except Stop (Found × State) := do
  let good ← sectorGetGood s sector
  if good then
    match s.sectorIds[sector]? with
    | none => .error .fault
    | some cached =>
      if cached ≠ 0 ∧ cached = idEnd then return (.blockEnd, s)
      else if cached ≠ 0 ∧ cached ≠ id then return (.skip, s)
      else
        match F.oob sector with
        | none => .error .exit
        | some oobbuf =>
          match ← readSector F s sector with
          | (none, _) => .error .exit
          | (some readbuf, s) => return (examine F id readbuf oobbuf, s)
  else return (.skip, s)

/-- `rev`, `num_segments` and `segments`; `none` is a segment whose `val` is `NULL`. -/
structure Table where
  rev : UInt32
  segments : List (Option Bytes)
  deriving DecidableEq, Repr

/-- `new_num_segs`. -/
def Segment.newNumSegs (e : Segment) : UInt32 := if e.next = 0 then e.seg + 1 else e.next + 1

/-- Growing the table with `realloc`. -/
def grow (F : Flash) (newNumSegs : Nat) (segments : List (Option Bytes)) : Except Stop (List (Option Bytes)) :=
  if newNumSegs > segments.length then
    if newNumSegs * sizeofSegment ≤ F.heap then .ok (segments ++ List.replicate (newNumSegs - segments.length) none)
    else .error .fault
  else .ok segments

/-- What a round does with a segment of the entry. -/
def addSegment (F : Flash) (t : Table) (e : Segment) : Except Stop Table :=
  if e.rev < t.rev then .ok t
  else
    let t := if e.rev > t.rev then ⟨e.rev, []⟩ else t
    if e.seg = segmentCleared then .ok t
    else do
      let segments ← grow F e.newNumSegs.toNat t.segments
      if e.seg.toNat < segments.length then return { t with segments := segments.set e.seg.toNat (some e.val) }
      else .error .fault

structure Lookup where
  state : State
  blockEnd : Bool
  table : Table
  deriving DecidableEq, Repr

/-- One round of `find_entry`. -/
def findStep (F : Flash) (id : UInt32) (l : Lookup) (sector : Nat) : Except Stop Lookup :=
  if l.blockEnd then .ok (if F.startsBlock sector then { l with blockEnd := false } else l)
  else do
    let (found, s) ← visit F id l.state sector
    match found with
    | .skip => return { l with state := s }
    | .blockEnd => return { l with state := s, blockEnd := true }
    | .segment e =>
      let t ← addSegment F l.table e
      return { l with state := s, table := t }

/-- The end of `find_entry`. The length is an `uint32_t`, and so is the size of the copy. -/
def finish (t : Table) : Except Stop (Option Bytes) :=
  if t.segments.length = 0 then .ok none
  else
    match t.segments.mapM fun val => val with
    | none => .ok none
    | some vals => if (vals.map List.length).sum < 2 ^ 32 then .ok (some vals.flatten) else .error .fault

def findEntry (F : Flash) (id : UInt32) (s : State) : Except Stop (Option Bytes × State) := do
  let l ← (List.range F.numSectors).foldlM (findStep F id) ⟨s, false, ⟨0, []⟩⟩
  let entry ← finish l.table
  return (entry, l.state)

/-! ### Names -/

def getWalkSize (entryLen : Nat) : Nat := (entryLen + 3) / 4 * 4

/-- The loop of `parse_key_names` from position `pos`. `strdup` reads as far as the next NUL. -/
def parseKeyNames (F : Flash) (val : Bytes) (pos : Nat) : Except Stop (List (UInt32 × Bytes)) :=
  let name := (val.drop (pos + 4)).takeWhile (· ≠ 0)
  let next := pos + 4 + getWalkSize (name.length + 1)
  if pos + 4 + name.length < val.length then
    if next < val.length then do
      let items ← parseKeyNames F val next
      return (F.readUint32 val pos, name) :: items
    else .ok [(F.readUint32 val pos, name)]
  else .error .fault
termination_by val.length - pos
decreasing_by omega

/-! ### Runs -/

/-- The states in which an entry is looked up: behind the scan and any lookups that returned. -/
inductive Reached (F : Flash) : State → Prop
  | scanned {validBlocks : Nat} {s : State} (h : scanMtd F = .ok (validBlocks, s)) : Reached F s
  | found {id : UInt32} {entry : Option Bytes} {s s' : State} (hs : Reached F s) (h : findEntry F id s = .ok (entry, s')) : Reached F s'

end RainWrt.Tffs
