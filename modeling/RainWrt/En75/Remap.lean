import RainWrt.En75.State

/-! The part of the EN75 driver that writes: worn blocks are remapped into the reserve area, and the
    tables are stored anew in a free block of it. -/

namespace RainWrt.En75

def blockWornMark : UInt8 := 0x55
def writeTries : Nat := 3
def eraseTries : Nat := 3
def updateTableTries : Nat := 3
def remapCopyTries : Nat := 10

/-- `for (i = 0; i < tries; i++) { ret = op(); if (!ret) break; }`, for at least one try. -/
def retry (op : Fl Int) : Nat → Fl Int
  | 0 => pure 0
  | 1 => op
  | tries + 1 => do
    let ret ← op
    if ret = 0 then pure ret else retry op tries

/-! ### Write, erase, mark bad -/

section
variable (ctx : Ctx)

/-- `w_write`: to the first page of a block, either data or out-of-band bytes. -/
def wWrite (bi : Nat) (userArea : Bool) (data oob : Bytes) : Fl Int :=
  if !ctx.blockIndexIsSane bi userArea then pure (-eInval) else retry (program bi 0 data oob) writeTries

/-- `w_mark_bad`. -/
def wMarkBad (bi : Nat) (userArea : Bool) : Fl Int := wWrite ctx bi userArea [] [blockWornMark, 0xff, 0xff, 0xff]

/-- `w_erase_one`. -/
def wEraseOne (bi : Nat) (userArea : Bool) : Fl Int :=
  if !ctx.blockIndexIsSane bi userArea then pure (-eInval) else retry (erase bi) eraseTries

/-- One round of `w_erase_pending`. -/
def erasePending (info : BlockInfo) : Fl BlockInfo :=
  if info.status ≠ .needErase then pure info
  else do
    let ret ← wEraseOne ctx info.index false
    if ret = 0 then pure { info with status := .available }
    else if ret = -eInval then pure { info with status := .bad }
    else do
      let _ ← wMarkBad ctx info.index false
      pure { info with status := .bad }

/-- The rounds of `w_erase_pending`. -/
def erasePendings : List BlockInfo → Fl (List BlockInfo)
  | [] => pure []
  | info :: rblocks => do
    let info ← erasePending ctx info
    let rblocks ← erasePendings rblocks
    pure (info :: rblocks)

/-- `w_erase_pending`. -/
def wErasePending : Fl Ctx := do
  let rblocks ← erasePendings ctx ctx.rblocks
  pure { ctx with rblocks := rblocks }

end

/-! ### Tables -/

/-- The rounds of `w_update_table`; on success the place in `rblocks`. -/
def updateTable (startFromEnd : Bool) (data : Bytes) : Nat → Ctx → Fl (Ctx × Except Int Nat)
  | 0, ctx => pure (ctx, .error (-eIo))
  | tries + 1, ctx =>
    match ctx.findAvailableBlock startFromEnd with
    | none => pure (ctx, .error (-eNospc))
    | some info => do
      let ret ← wWrite ctx (ctx.rblockIndex info) false data []
      if ret = 0 then pure (ctx, .ok info) else updateTable startFromEnd data tries (ctx.setStatus info .needErase)

/-- `w_update_table`. -/
def wUpdateTable (ctx : Ctx) (startFromEnd : Bool) (data : Bytes) : Fl (Ctx × Except Int Nat) :=
  updateTable startFromEnd data updateTableTries ctx

/-- `for (i = bmt.header.size; i < rblocks; i++) bmt.table[i] = 0`. -/
def BmtTable.clearFrom (t : BmtTable) (rblocks : Nat) : BmtTable :=
  { t with
    table := t.table.mapIdx fun i e => if t.size.toNat ≤ i ∧ i < rblocks then .zero else e
    table_length := by rw [List.length_mapIdx]; exact t.table_length }

def BmtTable.withChecksum (t : BmtTable) : BmtTable := { t with checksum := t.bmtChecksum t.size.toNat }

/-- The table has room for `maxBmtSize` entries, however many blocks are in reserve. -/
def clearBmt (ctx : Ctx) : Fl Ctx := do
  let cleared := { ctx with bmt := ctx.bmt.clearFrom ctx.reserveBlockCount }
  if ctx.reserveBlockCount ≤ maxBmtSize then pure cleared else overrun

/-- The block is written, the blocks with the old table are to be erased. -/
def Ctx.newTable (ctx : Ctx) (info : Nat) (status : BlockStatus) : Ctx := (ctx.markForErasure status).setStatus info status

/-- The BMT in `w_sync_tables`. -/
def syncBmt (ctx : Ctx) : Fl (Ctx × Int) :=
  if ctx.bmtDirty = 0 then pure (ctx, 0)
  else do
    let ctx ← clearBmt ctx
    let ctx := { ctx with bmt := ctx.bmt.withChecksum }
    let (ctx, res) ← wUpdateTable ctx true ctx.bmt.bytes
    match res with
    | .error e => pure (ctx, e)
    | .ok info => pure ({ ctx.newTable info .bmt with bmtDirty := 0 }, 0)

/-- `for (i = bbt.header.size; i < MAX_BBT_SIZE; i++) bbt.table[i] = 0`, and the checksum. -/
def BbtTable.withChecksum (t : BbtTable) : BbtTable :=
  let cleared : BbtTable :=
    { t with
      table := t.blocks ++ List.replicate (maxBbtSize - t.size.toNat) 0
      table_length := by
        have := t.size.toNat_lt
        simp only [blocks, List.length_append, List.length_take, List.length_replicate, t.table_length, maxBbtSize]
        omega }
  { cleared with checksum := cleared.bbtChecksum.toUInt32 }

/-- The BBT in `w_sync_tables`. -/
def syncBbt (ctx : Ctx) : Fl (Ctx × Int) :=
  if ctx.bbtDirty = 0 ∨ !ctx.canWriteFactoryBbt then pure (ctx, 0)
  else do
    let ctx := { ctx with bbt := ctx.bbt.withChecksum }
    let (ctx, res) ← wUpdateTable ctx false ctx.bbt.bytes
    match res with
    | .error e => pure (ctx, e)
    | .ok info => pure ({ ctx.newTable info .bbt with bbtDirty := 0 }, 0)

/-- `w_sync_tables`. -/
def wSyncTables (ctx : Ctx) : Fl (Ctx × Int) := do
  let ctx ← wErasePending ctx
  let (ctx, ret) ← syncBmt ctx
  if ret ≠ 0 then pure (ctx, ret)
  else do
    let (ctx, ret) ← syncBbt ctx
    if ret ≠ 0 then pure (ctx, ret)
    else do
      let ctx ← wErasePending ctx
      pure (ctx, 0)

/-! ### Remap -/

/-- `w_make_mapping`: the block that is replaced is written beside the replacement. -/
def wMakeMapping (ctx : Ctx) (replacementBlock : BlockInfo) (badBlockIndex : Nat) : Fl Int :=
  if badBlockIndex ≥ ctx.reserveAreaBegin then pure (-eInval)
  else if replacementBlock.status ≠ .available then pure (-eInval)
  else wWrite ctx replacementBlock.index false [] ([0xff, 0xff] ++ be16 (.ofNat badBlockIndex))

/-- The rounds of `bbt_nand_copy`: page by page, the data alone. -/
def copyPages (ctx : Ctx) (destBlk srcBlk : Nat) (maxOffset : Int) : Nat → Nat → Fl Int
  | _, 0 => pure 0
  | page, pages + 1 =>
    if (page * ctx.pgSize : Nat) ≥ maxOffset then pure 0
    else do
      match ← read srcBlk page with
      | .error e => pure e
      | .ok (data, _) => do
        let ret ← program destBlk page data []
        if ret < 0 then pure ret else copyPages ctx destBlk srcBlk maxOffset (page + 1) pages

/-- `bbt_nand_copy`. -/
def bbtNandCopy (ctx : Ctx) (destBlk srcBlk : Nat) (maxOffset : Int) : Fl Int :=
  copyPages ctx destBlk srcBlk maxOffset 0 ctx.blkPages

/-- `bmt.table[i]` for the first entry that maps `block`. -/
def BmtTable.indexOf (t : BmtTable) (block : Nat) : Option Nat := t.entries.findIdx? (·.src.toNat = block)

/-- The entry for `block` gets a new block, or is added. -/
def BmtTable.assign (t : BmtTable) (block dst : Nat) : BmtTable :=
  match t.indexOf block with
  | some i =>
    { t with
      table := t.table.modify i fun e => { e with dst := .ofNat dst }
      table_length := by rw [List.length_modify]; exact t.table_length }
  | none =>
    { t with
      table := t.table.set t.size.toNat ⟨.ofNat block, .ofNat dst⟩
      table_length := by rw [List.length_set]; exact t.table_length
      size := t.size + 1 }

/-- The data of the block is copied; a failure is only logged. -/
def copyBlock (ctx : Ctx) (newBlock copyFrom : Nat) (copyLen : Int) : Fl Int :=
  if copyLen = 0 then pure 0 else retry (bbtNandCopy ctx newBlock copyFrom copyLen) remapCopyTries

/-- `if (maybe_mapped_block) maybe_mapped_block->status = BS_NEED_ERASE`. -/
def Ctx.release (ctx : Ctx) : Option Nat → Ctx
  | some m => ctx.setStatus m .needErase
  | none => ctx

/-- The mapping is entered, and the blocks that are out of use are marked. -/
def enterMapping (ctx : Ctx) (block newBlock : Nat) (maybeMappedBlock : Option Nat) : Fl (Ctx × Int) := do
  let ctx := { ctx with bmt := ctx.bmt.assign block (ctx.rblockIndex newBlock), bmtDirty := ctx.bmtDirty + 1 }
  let ctx := ctx.setStatus newBlock .mapped
  let _ ← wMarkBad ctx block true
  pure (ctx.release maybeMappedBlock, 0)

/-- `w_remap_block`; `maybeMappedBlock` is a place in `rblocks`. -/
def wRemapBlock (ctx : Ctx) (block : Nat) (maybeMappedBlock : Option Nat) (copyLen : Int) : Fl (Ctx × Int) :=
  if ctx.bmt.size = 0xff then pure (ctx, -eNospc)
  else
    match ctx.findAvailableBlock false with
    | none => pure (ctx, -eNospc)
    | some newBlock => do
      let ret ← wMakeMapping ctx ⟨ctx.rblockIndex newBlock, .available⟩ block
      if ret ≠ 0 then pure (ctx.setStatus newBlock .needErase, ret)
      else do
        let copyFrom := (maybeMappedBlock.map ctx.rblockIndex).getD block
        let _ ← copyBlock ctx (ctx.rblockIndex newBlock) copyFrom copyLen
        enterMapping ctx block newBlock maybeMappedBlock

/-! ### Unmap -/

inductive UnmapErase where
  | noErase
  | attemptErase
  | requireErase
  deriving DecidableEq, Repr

/-- `bmt.table[i] = bmt.table[--bmt_size]; bmt.table[bmt_size] = 0`. -/
def BmtTable.remove (t : BmtTable) (i : Nat) : BmtTable :=
  let last := t.size.toNat - 1
  { t with
    table := (t.table.set i (t.table.getD last .zero)).set last .zero
    table_length := by rw [List.length_set, List.length_set]; exact t.table_length
    size := .ofNat last }

/-- `w_unmap_block`. -/
def wUnmapBlock (ctx : Ctx) (block : Nat) (ue : UnmapErase) : Fl (Ctx × Int) :=
  match ctx.bmt.indexOf block with
  | none => pure (ctx, -eInval)
  | some i =>
    match ctx.rblocks.findIdx? (·.index = (ctx.bmt.table.getD i .zero).dst.toNat) with
    | none => pure (ctx, -eInval)
    | some mappedBlock => do
      let unmapped := { ctx with bmt := ctx.bmt.remove i, bmtDirty := ctx.bmtDirty + 1 }.setStatus mappedBlock .needErase
      if ue = .noErase then pure (unmapped, 0)
      else do
        let ret ← wEraseOne ctx (ctx.rblockIndex mappedBlock) false
        if ret ≠ 0 ∧ ue = .requireErase then pure (ctx, ret) else pure (unmapped, 0)

/-! ### Public functions -/

/-- `pub_remap_block`. The block number is kept in an unsigned word, so a failed lookup is not seen. -/
def pubRemapBlock (ctx : Ctx) (userBlock mappedBlockIdx : Nat) (copyLen : Int) : Fl (Ctx × Bool) :=
  if !ctx.canRemapRanges.any (fun r => r.1 ≤ userBlock && userBlock < r.2) then pure (ctx, false)
  else
    let block := (ctx.getMappingBlockBbt userBlock).getD (65536 - 22)
    if userBlock ≥ ctx.reserveAreaBegin then pure (ctx, false)
    else
      let maybeMappedBlock := ctx.rblocks.findIdx? (·.index = mappedBlockIdx)
      if mappedBlockIdx ≠ block ∧ maybeMappedBlock = none then pure (ctx, false)
      else do
        let (ctx, ret) ← wRemapBlock ctx block (if mappedBlockIdx ≠ block then maybeMappedBlock else none) copyLen
        let (ctx, _) ← wSyncTables ctx
        pure (ctx, ret ≠ -eNospc)

/-- `pub_unmap_block`. -/
def pubUnmapBlock (ctx : Ctx) (userBlock : Nat) : Fl Ctx :=
  match ctx.getMappingBlockBbt userBlock with
  | none => pure ctx
  | some block =>
    if userBlock ≥ ctx.reserveAreaBegin then pure ctx
    else do
      let (ctx, _) ← wUnmapBlock ctx block .requireErase
      let (ctx, _) ← wSyncTables ctx
      pure ctx

end RainWrt.En75
