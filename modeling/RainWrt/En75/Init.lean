import RainWrt.En75.Remap

/-! How the EN75 driver starts: it scans the reserve area from the end of the chip downwards, finds the
    tables or reconstructs them, and compares or rewrites the list of factory bad blocks. -/

namespace RainWrt.En75

def initialReadTries : Nat := 3

/-- `REQUIRED_GOOD_BLOCKS`. -/
def requiredGoodBlocks (totalBlocks : Nat) : Nat := totalBlocks * 8 / 100

/-! ### Out-of-band bytes -/

inductive BlockIsBad where
  | good
  | factoryBad
  | worn
  | unknownBad
  deriving DecidableEq, Repr

/-- `fdm_is_bad`. -/
def fdmIsBad (fdm : Bytes) : BlockIsBad :=
  if byteAt fdm 0 = 0xff ∧ byteAt fdm 1 = 0xff then .good
  else if byteAt fdm 0 = blockWornMark then .worn
  else if byteAt fdm 0 = 0x00 ∨ byteAt fdm 1 = 0x00 then .factoryBad
  else .unknownBad

/-- `fdm_is_mapped`. -/
def fdmIsMapped (fdm : Bytes) : Bool :=
  if byteAt fdm 0 ≠ 0xff ∨ byteAt fdm 1 ≠ 0xff then false else byteAt fdm 2 ≠ 0xff || byteAt fdm 3 ≠ 0xff

/-- `block_is_erased`. -/
def blockIsErased (data fdm : Bytes) : Bool := data.all (· == 0xff) && (bytesAt fdm 0 4).all (· == 0xff)

/-! ### Scan -/

/-- A page is read until it can be. -/
def readTry (blk : Nat) : Nat → Fl (Option (Bytes × Bytes))
  | 0 => pure none
  | tries + 1 => do
    match ← read blk 0 with
    | .ok r => pure (some r)
    | .error _ => readTry blk tries

/-- What the scan makes of a block. -/
inductive Found where
  | bad
  | mapped
  | bbt (t : BbtTable)
  | bmt (t : BmtTable)
  | available
  | needErase

def Found.status : Found → BlockStatus
  | .bad => .bad
  | .mapped => .mapped
  | .bbt _ => .bbt
  | .bmt _ => .bmt
  | .available => .available
  | .needErase => .needErase

/-- A table that is found replaces the one found before. -/
def Found.store (ctx : Ctx) : Found → Ctx
  | .bbt t => { ctx with bbt := t }
  | .bmt t => { ctx with bmt := t }
  | _ => ctx

/-- `rblocks[rblock++] = bif`. -/
def Found.record (found : Found) (ctx : Ctx) (cursor : Nat) : Ctx :=
  let ctx := found.store ctx
  { ctx with rblocks := ctx.rblocks ++ [⟨cursor, found.status⟩] }

/-- `good_blocks += (bif.status != BS_BAD)`. -/
def Found.count (found : Found) (good : Nat) : Nat := if found.status = .bad then good else good + 1

def classify : Option (Bytes × Bytes) → Found
  | none => .bad
  | some (data, fdm) =>
    if fdmIsBad fdm ≠ .good then .bad
    else if fdmIsMapped fdm then .mapped
    else
      match tryParseBbt data with
      | some t => .bbt t
      | none =>
        match tryParseBmt data with
        | some t => .bmt t
        | none => if blockIsErased data fdm then .available else .needErase

/-- The loop of `r_scan_reserve`: the block at which it stops, 0 if there are not enough good ones. -/
def scanFrom : Nat → Nat → Ctx → Fl (Ctx × Nat)
  | 0, _, ctx => pure (ctx, 0)
  | cursor + 1, good, ctx => do
    let found := classify (← readTry (cursor + 1) initialReadTries)
    let ctx := found.record ctx (cursor + 1)
    let good := found.count good
    if good ≥ requiredGoodBlocks ctx.totalBlks then pure (ctx, cursor + 1) else scanFrom cursor good ctx

/-- `r_scan_reserve`. -/
def rScanReserve (ctx : Ctx) : Fl (Ctx × Int) := do
  let (ctx, cursor) ← scanFrom (ctx.totalBlks - 1) 0 ctx
  if cursor = 0 then pure (ctx, -eNospc) else pure ({ ctx with reserveAreaBegin := cursor }, 0)

/-! ### Reconstruction -/

/-- The header and the entries as far as `sizeof(table)` reaches from the start of the structure. -/
def BmtTable.reset (t : BmtTable) : BmtTable where
  signature := bmtSignature
  signature_length := rfl
  version := 1
  badCount := 0
  size := 0
  checksum := 0
  reserved := List.replicate 13 0
  reserved_length := length_zeros
  table := t.table.mapIdx fun i e => if i < 251 then .zero else e
  table_length := by rw [List.length_mapIdx]; exact t.table_length

/-- `bmt.table[bmt.header.size++] = e`. -/
def BmtTable.push (t : BmtTable) (e : BmtEntry) : BmtTable :=
  { t with
    table := t.table.set t.size.toNat e
    table_length := by rw [List.length_set]; exact t.table_length
    size := t.size + 1 }

/-- The loop of `r_reconstruct_bmt`, over the blocks from `count` places above `begin` down to it. -/
def reconstructBmt : Nat → Ctx → Fl Ctx
  | 0, ctx => pure ctx
  | count + 1, ctx => do
    let i := ctx.reserveAreaBegin + count
    match ← read i 0 with
    | .error _ => reconstructBmt count ctx
    | .ok (_, fdm) =>
      let mappedBlock := be16At fdm 2
      if fdmIsBad fdm ≠ .good ∨ mappedBlock.toNat ≥ ctx.reserveAreaBegin then reconstructBmt count ctx
      else reconstructBmt count { ctx with bmt := ctx.bmt.push ⟨mappedBlock, .ofNat i⟩ }

/-- `r_reconstruct_bmt`. -/
def rReconstructBmt (ctx : Ctx) : Fl Ctx :=
  reconstructBmt ctx.reserveBlockCount { ctx with bmt := ctx.bmt.reset, bmtDirty := ctx.bmtDirty + 1 }

/-- `bbt.table[bbt.header.size++] = b`. -/
def BbtTable.push (t : BbtTable) (b : Nat) : BbtTable :=
  { t with
    table := t.table.set t.size.toNat (.ofNat b)
    table_length := by rw [List.length_set]; exact t.table_length
    size := t.size + 1 }

/-- A list of factory bad blocks without entries. -/
def BbtTable.fresh : BbtTable where
  signature := bbtSignature
  signature_length := rfl
  checksum := 0xffffffff
  version := 1
  size := 0
  reserved := [0xff, 0xff]
  reserved_length := rfl
  table := List.replicate maxBbtSize 0
  table_length := length_zeros

/-- The loop of `r_reconstruct_bbt`, over the blocks from `i` on. -/
def reconstructBbt (ctx : Ctx) : Nat → Nat → BbtTable → Fl BbtTable
  | _, 0, bbt => pure bbt
  | i, count + 1, bbt =>
    if ctx.bmt.entries.any (·.src.toNat = i) then reconstructBbt ctx (i + 1) count bbt
    else do
      match ← read i 0 with
      | .error _ => reconstructBbt ctx (i + 1) count (bbt.push i)
      | .ok (_, fdm) =>
        if fdmIsBad fdm = .good ∨ fdmIsBad fdm = .worn then reconstructBbt ctx (i + 1) count bbt
        else reconstructBbt ctx (i + 1) count (bbt.push i)

/-- `r_reconstruct_bbt`. -/
def rReconstructBbt (ctx : Ctx) : Fl (Ctx × Int) :=
  if ctx.bmt.version = 0 then pure (ctx, -eInval)
  else do
    let bbt ← reconstructBbt ctx 0 ctx.reserveAreaBegin .fresh
    pure ({ ctx with bbt := bbt.sortBbt }, 0)

/-! ### Factory bad blocks -/

/-- The entry `i` is taken out: the size goes down, the last entry comes into its place, and the last
    place is cleared. -/
def BbtTable.takeOut (t : BbtTable) (i : Nat) : BbtTable :=
  let size := t.size - 1
  { t with
    size := size
    table := (t.table.set i (t.table.getD size.toNat 0)).set size.toNat 0
    table_length := by rw [List.length_set, List.length_set]; exact t.table_length }

/-- The loop that clears the BBT and un-bads the blocks that will not be added back. -/
def clearBbt (blocks : List UInt32) : Nat → Ctx → Fl Ctx
  | 0, ctx => pure ctx
  | i + 1, ctx =>
    let stays := blocks.any (·.toNat = (ctx.bbt.table.getD i 0).toNat)
    let ctx := { ctx with bbt := ctx.bbt.takeOut i }
    if stays then clearBbt blocks i ctx
    else do
      let _ ← wEraseOne ctx (ctx.bbt.table.getD i 0).toNat true
      clearBbt blocks i ctx

/-- The loop that unmaps the blocks of the list. -/
def unmapFactory : List UInt32 → Ctx → Fl Ctx
  | [], ctx => pure ctx
  | block :: blocks, ctx =>
    match ctx.getMappingBlock block.toNat with
    | none => unmapFactory blocks ctx
    | some mappedBlock =>
      if mappedBlock < ctx.reserveAreaBegin then unmapFactory blocks ctx
      else do
        let (ctx, _) ← wUnmapBlock ctx block.toNat .noErase
        unmapFactory blocks ctx

/-- The loop that adds the blocks of the list. -/
def addFactory : List UInt32 → Ctx → Fl Ctx
  | [], ctx => pure ctx
  | block :: blocks, ctx =>
    if ctx.bbt.blocks.any (·.toNat = block.toNat) then addFactory blocks ctx
    else do
      let ctx := { ctx with bbt := ctx.bbt.push block.toNat }
      let _ ← wMarkBad ctx block.toNat true
      addFactory blocks ctx

/-- Without `can_write_factory_bbt` the list is an assertion. -/
def assertFactory (ctx : Ctx) (blocks : List UInt32) : Int :=
  if ctx.bbt.size.toNat ≠ blocks.length then -eIo
  else if blocks.all fun b => ctx.bbt.blocks.any (·.toNat = b.toNat) then 0 else -eIo

/-- The list is set. -/
def setFactory (ctx : Ctx) (blocks : List UInt32) : Fl Ctx := do
  let ctx ← clearBbt blocks ctx.bbt.size.toNat ctx
  let ctx ← unmapFactory blocks ctx
  let ctx ← addFactory blocks ctx
  pure { ctx with bbt := ctx.bbt.sortBbt, bbtDirty := ctx.bbtDirty + 1 }

/-- `w_factory_badblocks`. -/
def wFactoryBadblocks (ctx : Ctx) (blocks : List UInt32) : Fl (Ctx × Int) :=
  if ctx.bbt.version = 0 then pure (ctx, -eInval)
  else if ctx.bmt.version = 0 then pure (ctx, -eInval)
  else if blocks.any (·.toNat ≥ ctx.reserveAreaBegin) then pure (ctx, -eInval)
  else if blocks.length > maxBbtSize then pure (ctx, -eNospc)
  else if !ctx.canWriteFactoryBbt then pure (ctx, assertFactory ctx blocks)
  else do
    let ctx ← setFactory ctx blocks
    pure (ctx, 0)

/-! ### Start -/

/-- The properties of the device node that are read; `factoryBadblocks` is absent if the list is too
    long, too. -/
structure DeviceNode where
  assertReserveSize : Option Int := none
  canWriteFactoryBbt : Bool := false
  factoryBadblocks : Option (List UInt32) := none
  enableRemap : Bool := false
  /-- The start and the size of each partition with a `reg` property, in bytes. -/
  partitions : List (Nat × Nat) := []

/-- `add_remap_range`. -/
def addRemapRange (ctx : Ctx) (beginBlock sizeBlocks : Nat) : Ctx :=
  if beginBlock + sizeBlocks > ctx.reserveAreaBegin then ctx
  else { ctx with canRemapRanges := ctx.canRemapRanges ++ [(beginBlock, beginBlock + sizeBlocks)] }

/-- A partition may be remapped; the property is asked of the device, not of the partition. -/
def addPartition (np : DeviceNode) (ctx : Ctx) (reg : Nat × Nat) : Ctx :=
  let blkSize := ctx.blkPages * ctx.pgSize
  if !np.enableRemap then ctx
  else if reg.1 % blkSize ≠ 0 ∨ reg.2 % blkSize ≠ 0 then ctx
  else addRemapRange ctx (reg.1 / blkSize % 65536) (reg.2 / blkSize % 65536)

/-- The ranges in which blocks may be remapped. -/
def addRemapRanges (np : DeviceNode) (ctx : Ctx) : Ctx :=
  if np.enableRemap then addRemapRange ctx 0 ctx.reserveAreaBegin else np.partitions.foldl (addPartition np) ctx

/-- The tables that were not found are reconstructed. -/
def ensureTables (np : DeviceNode) (ctx : Ctx) : Fl (Ctx × Int) :=
  if ctx.bbt.version ≠ 0 then
    if ctx.bmt.version = 0 then do
      let ctx ← rReconstructBmt ctx
      pure (ctx, 0)
    else pure (ctx, 0)
  else if !ctx.canWriteFactoryBbt then pure (ctx, -eIo)
  else if np.factoryBadblocks.isSome then
    if ctx.bmt.version = 0 then do
      let ctx ← rReconstructBmt ctx
      pure (ctx, 0)
    else pure (ctx, 0)
  else if ctx.bmt.version ≠ 0 then rReconstructBbt ctx
  else do
    let ctx ← rReconstructBmt ctx
    rReconstructBbt ctx

/-- The list of the device node, if there is one. -/
def checkFactory (np : DeviceNode) (ctx : Ctx) : Fl (Ctx × Int) :=
  match np.factoryBadblocks with
  | some blocks => wFactoryBadblocks ctx blocks
  | none => pure (ctx, 0)

/-- What the device node says of the scanned chip. -/
def configure (np : DeviceNode) (ctx : Ctx) : Ctx :=
  addRemapRanges np { ctx with canWriteFactoryBbt := ctx.canWriteFactoryBbt || np.canWriteFactoryBbt }

/-- `w_init`. -/
def wInit (np : DeviceNode) (ctx : Ctx) : Fl (Ctx × Int) := do
  let (ctx, ret) ← rScanReserve ctx
  if ret ≠ 0 then pure (ctx, ret)
  else if np.assertReserveSize.any (· ≠ (ctx.reserveBlockCount : Int)) then pure (ctx, -eInval)
  else do
    let (ctx, ret) ← ensureTables np (configure np ctx)
    if ret ≠ 0 then pure (ctx, ret) else checkFactory np ctx

/-- `pub_init`, on memory that is still blank. -/
def pubInit (np : DeviceNode) (totalBlks pgSize blkPages : Nat) : Fl (Ctx × Int) := do
  let (ctx, ret) ← wInit np { totalBlks := totalBlks, pgSize := pgSize, blkPages := blkPages }
  if ret ≠ 0 then pure (ctx, ret)
  else do
    let (ctx, _) ← wSyncTables ctx
    pure (ctx, 0)

/-- The number of blocks of the user area: `mtd->size`, in blocks. -/
def Ctx.userBlocks (ctx : Ctx) : Nat := ctx.reserveAreaBegin - ctx.bbt.size.toNat

end RainWrt.En75
