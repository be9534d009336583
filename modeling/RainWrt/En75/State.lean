import RainWrt.En75.Table
import RainWrt.Proc

/-! The state of the EN75 driver in memory, and the operations on the chip that it can issue. -/

namespace RainWrt.En75

inductive BlockStatus where
  | invalid
  | available
  | bad
  | mapped
  | bmt
  | bbt
  | needErase
  deriving DecidableEq, Repr

/-- `struct block_info`: a block of the reserve area. -/
structure BlockInfo where
  index : Nat
  status : BlockStatus
  deriving DecidableEq, Repr

/-- `struct en75_bmt_m`, with what it uses of `struct bmt_desc`. -/
structure Ctx where
  totalBlks : Nat
  pgSize : Nat
  /-- The number of pages of a block. -/
  blkPages : Nat
  bbt : BbtTable := .blank
  bmt : BmtTable := .blank
  /-- The blocks of the reserve area, from the end of the chip downwards. -/
  rblocks : List BlockInfo := []
  reserveAreaBegin : Nat := 0
  /-- Only blocks in these ranges may be remapped; the end is not in the range. -/
  canRemapRanges : List (Nat × Nat) := []
  bbtDirty : Int8 := 0
  bmtDirty : Int8 := 0
  canWriteFactoryBbt : Bool := false

namespace Ctx

/-- `reserve_block_count`. -/
def reserveBlockCount (ctx : Ctx) : Nat := ctx.totalBlks - ctx.reserveAreaBegin

/-- `get_mapping_block_bbt`: every factory bad block at or below shifts the block up by one. -/
def getMappingBlockBbt (ctx : Ctx) (block : Nat) : Option Nat :=
  let block := ctx.bbt.blocks.foldl (fun block bad => if bad.toNat ≤ block then block + 1 else block) block
  if block ≥ ctx.reserveAreaBegin then none else some block

/-- `get_mapping_block`: the last entry of the BMT for the block decides. -/
def getMappingBlock (ctx : Ctx) (block : Nat) : Option Nat :=
  match ctx.getMappingBlockBbt block with
  | none => none
  | some block =>
    match ctx.bmt.entries.reverse.find? (·.src.toNat = block) with
    | some e => some e.dst.toNat
    | none => some block

/-- `block_index_is_sane`. -/
def blockIndexIsSane (ctx : Ctx) (bi : Nat) (userBlock : Bool) : Bool :=
  if bi ≥ ctx.totalBlks then false
  else if userBlock && bi ≥ ctx.reserveAreaBegin then false
  else if !userBlock && bi < ctx.reserveAreaBegin then false
  else true

/-- `find_available_block`: the place in `rblocks`. -/
def findAvailableBlock (ctx : Ctx) (startFromEnd : Bool) : Option Nat :=
  if startFromEnd then ctx.rblocks.findIdx? (·.status = .available)
  else (ctx.rblocks.reverse.findIdx? (·.status = .available)).map (ctx.rblocks.length - 1 - ·)

/-- `ctx->rblocks[i].status = status`. -/
def setStatus (ctx : Ctx) (i : Nat) (status : BlockStatus) : Ctx :=
  { ctx with rblocks := ctx.rblocks.modify i fun b => { b with status := status } }

/-- `ctx->rblocks[i].index`. -/
def rblockIndex (ctx : Ctx) (i : Nat) : Nat := (ctx.rblocks[i]?.map BlockInfo.index).getD 0

/-- `mark_for_erasure`. -/
def markForErasure (ctx : Ctx) (withStatus : BlockStatus) : Ctx :=
  { ctx with rblocks := ctx.rblocks.map fun b => if b.status = withStatus then { b with status := .needErase } else b }

end Ctx

/-! ### The chip -/

inductive Op where
  | erase (blk : Nat)
  /-- Bytes from the start of a page, and from the start of its out-of-band area. -/
  | program (blk page : Nat) (data oob : Bytes)
  | read (blk page : Nat)
  /-- Not an operation on the chip: the driver writes behind the end of `bmt.table`. -/
  | overrun
  deriving DecidableEq

/-- Status codes are negative errors; a page is read with its out-of-band bytes. Behind the table
    stands the rest of the state, so the answer to an overrun is the state that it leaves. -/
abbrev Answer : Op → Type
  | .erase _ => Int
  | .program _ _ _ _ => Int
  | .read _ _ => Except Int (Bytes × Bytes)
  | .overrun => Ctx

abbrev Fl (α : Type) := Proc Op Answer α

abbrev Trace := Proc.Trace Op Answer

def erase (blk : Nat) : Fl Int := Proc.ask (A := Answer) (.erase blk)
def program (blk page : Nat) (data oob : Bytes) : Fl Int := Proc.ask (A := Answer) (.program blk page data oob)
def read (blk page : Nat) : Fl (Except Int (Bytes × Bytes)) := Proc.ask (A := Answer) (.read blk page)
def overrun : Fl Ctx := Proc.ask (A := Answer) .overrun

def eIo : Int := 5
def eInval : Int := 22
def eNospc : Int := 28

end RainWrt.En75
