import RainWrt.Bytes

/-! The bad-block table of `mtk_bmt`: the logical blocks of a remap range skip its bad blocks. -/

namespace RainWrt.Bmt

/-- What `bmtd` holds of the chip. -/
structure Geometry where
  blkShift : Nat
  totalBlks : Nat
  /-- `remap_range`, from an address up to another. -/
  remapRange : List (UInt32 × UInt32) := []

/-- An unsigned word that is stored in an `int`. -/
def toInt (x : UInt32) : Int := if x.toNat < 2 ^ 31 then x.toNat else (x.toNat : Int) - 2 ^ 32

/-- `mapping_block_in_range`, with `start` and `end`. -/
def mappingBlockInRange (g : Geometry) (block : Nat) : Option (Int × Int) :=
  let addr := block * 2 ^ g.blkShift % 2 ^ 32
  if g.remapRange.isEmpty then some (0, g.totalBlks)
  else (g.remapRange.find? fun r => r.1.toNat ≤ addr ∧ addr < r.2.toNat).map fun r => (toInt r.1, toInt r.2)

namespace Bbt

/-- `bbt_block_is_bad`; the block is cut to 16 bits. -/
def blockIsBad (buf : Nat → UInt8) (block : Int) : Bool :=
  let block := (block % 2 ^ 16).toNat
  buf (block / 4) &&& (3 <<< UInt8.ofNat (block % 4 * 2)) ≠ 0

/-- The loop that skips bad blocks: it leaves `i`, `ofs` and `bad_blocks`. The first argument counts the rounds that are left. -/
def skipBad (bad : Int → Bool) : Nat → Int → Int → Int → Int × Int × Int
  | 0, i, ofs, badBlocks => (i, ofs, badBlocks)
  | n + 1, i, ofs, badBlocks =>
    if bad i then skipBad bad n (i + 1) ofs (badBlocks + 1)
    else if ofs ≠ 0 then skipBad bad n (i + 1) (ofs - 1) badBlocks
    else (i, ofs, badBlocks)

/-- The loop that maps the remaining blocks to bad ones. It meets as many bad blocks as were counted, so it ends by `start`. -/
def remapBad (bad : Int → Bool) (ofs : Int) : Nat → Int → Int → Option Int
  | 0, _, _ => none
  | n + 1, i, badBlocks =>
    if badBlocks ≤ 0 then none
    else if !bad i then remapBad bad ofs n (i - 1) badBlocks
    else if badBlocks - 1 ≤ ofs then some i
    else remapBad bad ofs n (i - 1) (badBlocks - 1)

/-- `get_mapping_block_index_bbt`, behind `mapping_block_in_range`. -/
def mapIn (bad : Int → Bool) (start stop block : Int) : Int :=
  let (i, ofs, badBlocks) := skipBad bad (stop - start).toNat start (block - start) 0
  if i < stop then i
  else (remapBad bad ofs (stop - start).toNat (stop - 1) badBlocks).getD block

/-- `get_mapping_block_index_bbt`. -/
def getMappingBlockIndex (g : Geometry) (buf : Nat → UInt8) (block : Nat) : Int :=
  match mappingBlockInRange g block with
  | none => block
  | some (start, stop) => mapIn (blockIsBad buf) (start >>> g.blkShift) (stop >>> g.blkShift) block

/-- The chip and the table. -/
structure State where
  /-- What the physical blocks hold. -/
  flash : Int → Bytes
  buf : Nat → UInt8
  /-- The block that holds the table. -/
  bmtBlkIdx : Nat
  /-- The blocks that were erased. -/
  erased : List Int := []

/-- What the outside decides: what an erasure, the writing of the table and the copying of a block leave behind. -/
structure Env where
  afterErase : Bytes → Bytes
  writeBmt : (Nat → UInt8) → Bytes → Bytes
  copy : Bytes → Bytes → Int → Bytes

/-- `bbt_nand_erase`. -/
def nandErase (env : Env) (s : State) (block : Int) : State :=
  { s with flash := fun b => if b = block then env.afterErase (s.flash b) else s.flash b, erased := s.erased ++ [block] }

/-- `bbt_set_block_state`. -/
def setBlockState (env : Env) (s : State) (block : Nat) (bad : Bool) : State :=
  let mask : UInt8 := 3 <<< UInt8.ofNat (block % 4 * 2)
  let cur := s.buf (block / 4)
  let buf := fun k => if k = block / 4 then (if bad then cur ||| mask else cur &&& ~~~mask) else s.buf k
  let s := nandErase env { s with buf } s.bmtBlkIdx
  { s with flash := fun b => if b = s.bmtBlkIdx then env.writeBmt buf (s.flash b) else s.flash b }

/-- `remap_block_bbt`. -/
def remapBlock (g : Geometry) (env : Env) (s : State) (block mappedBlk : Nat) (copyLen : Int) : Bool × State :=
  match mappingBlockInRange g block with
  | none => (false, s)
  | some _ =>
    let s := setBlockState env s mappedBlk true
    let newBlk := getMappingBlockIndex g s.buf block % 2 ^ 16
    let s := nandErase env s newBlk
    if copyLen > 0 then
      (true, { s with flash := fun b => if b = newBlk then env.copy (s.flash b) (s.flash mappedBlk) copyLen else s.flash b })
    else (true, s)

end Bbt

end RainWrt.Bmt
