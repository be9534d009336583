import RainWrt.Nmbm.Mgmt

/-! Creating NMBM on a chip and the run-time operations on it: remapping a failed block to a spare one
    and undoing that. -/

namespace RainWrt.Nmbm

/-! ### Mapping -/

/-- `nmbm_map_block`. The spare block that is taken is the first good one from `mapping_blocks_top_ba`
    down, and `mapping_blocks_top_ba` then goes down by one. -/
def mapBlock (s : State) (lb : Nat) : Bool × State :=
  let s := { s with trace := .map s.ni :: s.trace }
  if s.ni.mappingBlocksBa = s.ni.mappingBlocksTopBa then (false, s)
  else
    match blockWalkDesc s.ni s.ni.mappingBlocksTopBa 0 s.ni.mappingBlocksBa with
    | none =>
      let s := (updateInfoTable s).2
      (false, { s with ni.mappingBlocksTopBa := s.ni.mappingBlocksBa })
    | some pb =>
      (true, { s with
        ni.blockMapping := s.ni.blockMapping.set lb (.ofNat pb)
        ni.mappingBlocksTopBa := s.ni.mappingBlocksTopBa - 1
        ni.blockMappingChanged := s.ni.blockMappingChanged + 1 })

/-- `nmbm_scan_badblocks`, `n` blocks from `ba` on. -/
def scanLoop : Nat → Nat → State → State
  | 0, _, s => s
  | n + 1, ba, s =>
    match checkBadPhysBlock s ba with
    | (true, s) => scanLoop n (ba + 1) (setBlockState s ba blockStBad)
    | (false, s) => scanLoop n (ba + 1) s

def scanBadblocks (s : State) : State := scanLoop s.ni.blockCount 0 s

/-- The blocks of the data area that are not bad, in order. -/
def usableBlocks (ni : Instance) : List Nat :=
  (List.range ni.mgmtStartBa).filter fun pb => getBlockState ni pb != blockStBad

/-- `nmbm_build_mapping_table`. -/
def buildMappingTable (s : State) : State :=
  let pbs := usableBlocks s.ni
  { s with
    ni.blockMapping := pbs.map .ofNat ++ List.replicate (s.ni.blockCount - pbs.length) 0xffffffff
    ni.dataBlockCount := pbs.length }

/-- The loop of `nmbm_create_info_table` that maps the logical blocks at the end of the data area. -/
def createMapLoop : Nat → Nat → State → State
  | 0, _, s => s
  | n + 1, lb, s =>
    match mapBlock s lb with
    | (false, s) => s
    | (true, s) => createMapLoop n (lb + 1) { s with ni.dataBlockCount := s.ni.dataBlockCount + 1 }

/-- `nmbm_create_info_table`. -/
def createInfoTable (s : State) : Bool × State :=
  match blockWalkDesc s.ni s.ni.signatureBa 1 s.ni.mgmtStartBa with
  | none => (false, s)
  | some top =>
    match rebuildInfoTable (generateInfoTableCache { s with ni.mappingBlocksTopBa := top }).2 with
    | (false, s) => (false, s)
    | (true, s) =>
      updateInfoTable (createMapLoop (s.ni.mgmtStartBa - s.ni.dataBlockCount) s.ni.dataBlockCount s)

/-! ### Signature -/

/-- The loop of `nmbm_write_signature`, `n` blocks above the limit. -/
def writeSignatureLoop (sig : Bytes) : Nat → State → Nat → Option Nat × State
  | 0, s, _ => (none, s)
  | n + 1, s, ba =>
    if s.ni.good ba then
      match checkBadPhysBlock s ba with
      | (true, s) => writeSignatureLoop sig n (setBlockState s ba blockStBad) (ba - 1)
      | (false, s) =>
        match eraseBlockAndCheck s ba with
        | (false, s) => writeSignatureLoop sig n (retireBlock s ba) (ba - 1)
        | (true, s) =>
          match writeRepeatedData s ba sig with
          | (true, s) => (some ba, s)
          | (false, s) => writeSignatureLoop sig n (retireBlock s ba) (ba - 1)
    else writeSignatureLoop sig n s (ba - 1)

/-- `nmbm_write_signature`. -/
def writeSignature (s : State) (limit : Nat) (sig : Bytes) : Option Nat × State :=
  writeSignatureLoop sig (s.ni.blockCount - 1 - limit) s (s.ni.blockCount - 1)

/-- The management boundary that `nmbm_create_new` chooses. -/
def createMgmtStart (ni : Instance) : Nat :=
  let start := ni.blockCount * sub32 nmbmMgmtDiv ni.maxRatio % 2 ^ 32 / nmbmMgmtDiv
  if ni.maxReservedBlocks ≠ 0 ∧ sub32 ni.blockCount start > ni.maxReservedBlocks then
    sub32 ni.blockCount ni.maxReservedBlocks
  else start

/-- The signature that `nmbm_create_new` fills in, without its checksum. -/
def newSignature (ni : Instance) (mgmtStart : Nat) : Signature where
  magic := nmbmMagicSignature
  version := nmbmVer
  size := .ofNat signatureSize
  nandSize := ni.chip.nandSize
  blockSize := .ofNat ni.chip.blkSize
  pageSize := .ofNat ni.chip.pgSize
  spareSize := ni.chip.oobsize
  mgmtStartPb := .ofNat mgmtStart
  maxTryCount := .ofNat nmbmTryCount

/-- The part of `nmbm_create_new` before the signature is written. -/
def prepareNew (s : State) : State :=
  let s := buildMappingTable (scanBadblocks { s with ni.mgmtStartBa := createMgmtStart s.ni })
  { s with ni.signature := .ofBytes (updateChecksum (newSignature s.ni s.ni.mgmtStartBa).toBytes) }

/-- `nmbm_create_new`. -/
def createNew (s : State) : Bool × State :=
  let s := prepareNew s
  match writeSignature s s.ni.mgmtStartBa s.ni.signature.toBytes with
  | (none, s) => (false, s)
  | (some ba, s) => createInfoTable { s with ni.signatureBa := ba }

/-! ### Run time -/

/-- `bbt_nand_copy`: copies pages until `maxOffset` bytes are copied or an operation fails. -/
def nandCopy (pgSize dest src maxOffset : Nat) : Nat → Nat → Nand → Nand
  | 0, _, n => n
  | k + 1, p, n =>
    if p * pgSize ≥ maxOffset then n
    else
      match n.read pgSize src p with
      | (.error _, n) => n
      | (.ok d, n) =>
        match n.program dest p d with
        | (false, n) => n
        | (true, n) => nandCopy pgSize dest src maxOffset k (p + 1) n

/-- `remap_block_nmbm`. -/
def remapBlock (s : State) (block mappedBlock copyLen : Nat) : Bool × State :=
  if block ≥ s.ni.dataBlockCount then (false, s)
  else
    match mapBlock (setBlockState s mappedBlock blockStBad) block with
    | (false, s) => (false, s)
    | (true, s) =>
      let newBlock := (s.ni.blockMapping.getD block 0).toNat
      let n := (s.nand.erase newBlock).2
      let n := if copyLen > 0 then
          nandCopy s.ni.chip.pgSize newBlock mappedBlock copyLen s.ni.chip.pagesPerBlock 0 n
        else n
      (true, (updateInfoTable { s with nand := n }).2)

/-- `get_mapping_block_index_nmbm`; `none` is -1. -/
def getMappingBlockIndex (ni : Instance) (block : Nat) : Option UInt32 :=
  if block ≥ ni.dataBlockCount then none else ni.blockMapping[block]?

/-- The memory of a new instance, as `nmbm_init_structure` leaves it. -/
def initStructure (c : Chip) (maxRatio maxReservedBlocks : Nat) (emptyPageEccOk forceCreate : Bool) : Instance where
  chip := c
  infoTableCache := List.replicate c.infoTableSize 0
  infoTable := { stateTableOff := .ofNat c.stateTableOff, mappingTableOff := .ofNat c.mappingTableOff }
  blockState := List.replicate (c.stateTableSize / 4) 0xffffffff
  blockMapping := List.replicate c.totalBlks 0
  maxRatio := maxRatio
  maxReservedBlocks := maxReservedBlocks
  emptyPageEccOk := emptyPageEccOk
  forceCreate := forceCreate

end RainWrt.Nmbm
