import RainWrt.Nand

/-! The NMBM instance (`mtk_bmt_nmbm.c`): the geometry it is attached to, its headers, the in-memory
    tables, and the small operations on them: the block state bitmap and the walks over good blocks.

    Block addresses are naturals; where the driver subtracts unsigned words and the result may wrap,
    `sub32` says so. The two tables are kept as the words that `memcpy` moves. -/

namespace RainWrt.Nmbm

/-! ### Constants -/

def nmbmMagicSignature : UInt32 := 0x304d4d4e
def nmbmMagicInfoTable : UInt32 := 0x314d4d4e
def nmbmVer : UInt32 := 1
def nmbmMgmtDiv : Nat := 16
def nmbmTryCount : Nat := 3
def nmbmSpareBlockMin : Nat := 2

def blockStBad : UInt32 := 0
def blockStGood : UInt32 := 3
def blockStMask : UInt32 := 3

/-- Subtraction of `uint32_t` values. -/
def sub32 (a b : Nat) : Nat := (2 ^ 32 + a - b) % 2 ^ 32

/-! ### Geometry -/

/-- The part of `bmtd` that describes the chip. Page and block sizes are powers of two, as the driver's
    shifts and masks take for granted, and positive as an `int`; `total_blks` is a `u16`. A page holds a
    signature: `nmbm_write_repeated_data` refuses to write one to a smaller page. -/
structure Chip where
  totalBlks : Nat
  blkShift : Nat
  pgShift : Nat
  oobsize : UInt32
  totalBlks_pos : 0 < totalBlks
  totalBlks_lt : totalBlks < 2 ^ 16
  pgShift_ge : 6 ≤ pgShift
  pgShift_le : pgShift ≤ blkShift
  blkShift_lt : blkShift < 31
  deriving DecidableEq

namespace Chip

def blkSize (c : Chip) : Nat := 2 ^ c.blkShift
def pgSize (c : Chip) : Nat := 2 ^ c.pgShift
def pagesPerBlock (c : Chip) : Nat := c.blkSize / c.pgSize

/-- `ALIGN(n, bmtd.pg_size)`. -/
def alignPage (c : Chip) (n : Nat) : Nat := (n + c.pgSize - 1) / c.pgSize * c.pgSize

def size2blk (c : Chip) (size : Nat) : Nat := (size + c.blkSize - 1) / c.blkSize

/-- `bmtd.total_blks << bmtd.blk_shift`, an `int` that is then widened to 64 bits. -/
def nandSize (c : Chip) : UInt64 :=
  let v := c.totalBlks * 2 ^ c.blkShift % 2 ^ 32
  .ofNat (if v < 2 ^ 31 then v else v + (2 ^ 64 - 2 ^ 32))

def stateTableSize (c : Chip) : Nat := (c.totalBlks + 15) / 16 * 4
def mappingTableSize (c : Chip) : Nat := c.totalBlks * 4
def stateTableOff (c : Chip) : Nat := c.alignPage 32
def mappingTableOff (c : Chip) : Nat := c.stateTableOff + c.alignPage c.stateTableSize
def infoTableSize (c : Chip) : Nat := c.mappingTableOff + c.alignPage c.mappingTableSize

/-- Blocks that an info table takes. -/
def tableBlocks (c : Chip) : Nat := c.size2blk c.infoTableSize

end Chip

/-- `nmbm_get_spare_block_count`. -/
def getSpareBlockCount (blockCount : Nat) : Nat := max ((blockCount + 1) / 2) nmbmSpareBlockMin

def Chip.infoTableSpareBlocks (c : Chip) : Nat := getSpareBlockCount c.tableBlocks

/-! ### Headers -/

/-- `struct nmbm_info_table_header`, 32 bytes. -/
structure InfoTableHeader where
  magic : UInt32 := 0
  version : UInt32 := 0
  size : UInt32 := 0
  checksum : UInt32 := 0
  writeCount : UInt32 := 0
  stateTableOff : UInt32 := 0
  mappingTableOff : UInt32 := 0
  padding : UInt32 := 0
  deriving DecidableEq, Repr

def InfoTableHeader.toBytes (h : InfoTableHeader) : Bytes :=
  unwords [h.magic, h.version, h.size, h.checksum, h.writeCount, h.stateTableOff, h.mappingTableOff, h.padding]

def InfoTableHeader.ofBytes (b : Bytes) : InfoTableHeader where
  magic := word b 0
  version := word b 4
  size := word b 8
  checksum := word b 12
  writeCount := word b 16
  stateTableOff := word b 20
  mappingTableOff := word b 24
  padding := word b 28

/-- `struct nmbm_signature`: 44 bytes of fields and 4 of tail padding. -/
structure Signature where
  magic : UInt32 := 0
  version : UInt32 := 0
  size : UInt32 := 0
  checksum : UInt32 := 0
  nandSize : UInt64 := 0
  blockSize : UInt32 := 0
  pageSize : UInt32 := 0
  spareSize : UInt32 := 0
  mgmtStartPb : UInt32 := 0
  maxTryCount : UInt32 := 0
  deriving DecidableEq, Repr

def signatureSize : Nat := 48

def Signature.toBytes (g : Signature) : Bytes :=
  unwords [g.magic, g.version, g.size, g.checksum, .ofNat (g.nandSize.toNat % 2 ^ 32), .ofNat (g.nandSize.toNat / 2 ^ 32),
    g.blockSize, g.pageSize, g.spareSize, g.mgmtStartPb, g.maxTryCount, 0]

def Signature.ofBytes (b : Bytes) : Signature where
  magic := word b 0
  version := word b 4
  size := word b 8
  checksum := word b 12
  nandSize := .ofNat ((word b 16).toNat + 2 ^ 32 * (word b 20).toNat)
  blockSize := word b 24
  pageSize := word b 28
  spareSize := word b 32
  mgmtStartPb := word b 36
  maxTryCount := word b 40

/-! ### Instance -/

/-- `struct nmbm_instance`. An entry of `blockMapping` is an `int32_t`; -1 is the word 0xffffffff. -/
structure Instance where
  chip : Chip
  signature : Signature := {}
  infoTableCache : Bytes
  infoTable : InfoTableHeader
  blockState : List UInt32
  blockStateChanged : Nat := 0
  blockMapping : List UInt32
  blockMappingChanged : Nat := 0
  «protected» : Bool := false
  dataBlockCount : Nat := 0
  mgmtStartBa : Nat := 0
  mainTableBa : Nat := 0
  backupTableBa : Nat := 0
  mappingBlocksBa : Nat := 0
  mappingBlocksTopBa : Nat := 0
  signatureBa : Nat := 0
  maxRatio : Nat
  maxReservedBlocks : Nat
  emptyPageEccOk : Bool
  forceCreate : Bool
  deriving DecidableEq

/-- What the driver does, beside its flash operations. The driver never reads this record: statements
    about a run refer to it. -/
inductive Event where
  /-- `nmbm_write_mgmt_range` or `nmbm_erase_range` hands block `ba` to the chip. -/
  | mgmt (ba : Nat) (ni : Instance)
  /-- `nmbm_set_block_state` changed an entry. -/
  | stateChanged (ba : Nat)
  | cacheGenerated
  /-- `nmbm_mark_tables_clean`. -/
  | clean
  /-- `nmbm_map_block` is called. -/
  | map (ni : Instance)
  deriving DecidableEq

structure State where
  ni : Instance
  nand : Nand
  /-- The last event comes first. -/
  trace : List Event := []

namespace Instance

def blockCount (ni : Instance) : Nat := ni.chip.totalBlks

/-- The tables differ from what was last written. -/
def dirty (ni : Instance) : Bool := ni.blockStateChanged ≠ 0 || ni.blockMappingChanged ≠ 0

end Instance

/-! ### Block states -/

/-- `nmbm_get_block_state_raw`: two bits per block, sixteen blocks per word. -/
def getBlockStateRaw (blockState : List UInt32) (ba : Nat) : UInt32 :=
  (blockState.getD (ba / 16) 0 >>> .ofNat (ba % 16 * 2)) &&& blockStMask

def getBlockState (ni : Instance) (ba : Nat) : UInt32 := getBlockStateRaw ni.blockState ba

/-- Block `ba` is recorded as good. -/
def Instance.good (ni : Instance) (ba : Nat) : Bool := getBlockState ni ba == blockStGood

/-- The new word of `nmbm_set_block_state`. -/
def putState (w : UInt32) (shift st : UInt32) : UInt32 :=
  (w &&& ~~~(blockStMask <<< shift)) ||| (st <<< shift)

def setBlockStateRaw (blockState : List UInt32) (ba : Nat) (st : UInt32) : List UInt32 :=
  blockState.set (ba / 16) (putState (blockState.getD (ba / 16) 0) (.ofNat (ba % 16 * 2)) (st &&& blockStMask))

def setBlockState (s : State) (ba : Nat) (st : UInt32) : State :=
  let orig := getBlockState s.ni ba
  let s' := { s with ni.blockState := setBlockStateRaw s.ni.blockState ba st }
  if orig ≠ st &&& blockStMask then
    { s' with ni.blockStateChanged := s.ni.blockStateChanged + 1, trace := .stateChanged ba :: s.trace }
  else s'

/-! ### Walks -/

/-- The loop of `nmbm_block_walk_asc`, `n` blocks before the limit. -/
def walkAscLoop (ni : Instance) : Nat → Nat → Nat → Option Nat
  | 0, _, _ => none
  | n + 1, ba, count =>
    if ni.good ba then
      match count with
      | 0 => some ba
      | count + 1 => walkAscLoop ni n (ba + 1) count
    else walkAscLoop ni n (ba + 1) count

/-- The limit that both walks use. -/
def walkLimit (ni : Instance) (limit : Nat) : Nat := if limit ≥ ni.blockCount then ni.blockCount - 1 else limit

/-- `nmbm_block_walk_asc`: the block after `count` good blocks from `ba` on, below `limit`. -/
def blockWalkAsc (ni : Instance) (ba count limit : Nat) : Option Nat :=
  walkAscLoop ni (walkLimit ni limit - ba) ba count

/-- The loop of `nmbm_block_walk_desc`, `n` blocks above the limit. -/
def walkDescLoop (ni : Instance) : Nat → Nat → Nat → Option Nat
  | 0, _, _ => none
  | n + 1, ba, count =>
    if ni.good ba then
      match count with
      | 0 => some ba
      | count + 1 => walkDescLoop ni n (ba - 1) count
    else walkDescLoop ni n (ba - 1) count

/-- `nmbm_block_walk_desc`: the block before `count` good blocks from `ba` down, above `limit`. -/
def blockWalkDesc (ni : Instance) (ba count limit : Nat) : Option Nat :=
  walkDescLoop ni (ba - walkLimit ni limit) ba count

/-- `nmbm_try_reserve_blocks` with the minimum 0 that every caller passes: skips `count` good blocks, or
    as many as possible. -/
def tryReserveBlocks (ni : Instance) (ba : Nat) (count limit : Nat) : Option Nat :=
  match blockWalkAsc ni ba count limit with
  | some nba => some nba
  | none =>
    match count with
    | 0 => none
    | count + 1 => tryReserveBlocks ni ba count limit

end RainWrt.Nmbm
