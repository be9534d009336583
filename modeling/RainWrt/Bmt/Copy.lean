import RainWrt.Bmt.V2
import RainWrt.Nmbm.Create

/-! Copying a block that went bad: blocks of pages with their out-of-band bytes, and the remappings that copy them. -/

namespace RainWrt.Bmt

/-- A page with its out-of-band area. An `unreadable` page has more bitflips than ECC corrects. -/
inductive OobPage where
  | erased
  | data (bytes oob : Bytes)
  | unreadable
  deriving DecidableEq

abbrev Block := Nat → OobPage

def Block.erased : Block := fun _ => .erased

/-- The pages of a block. -/
structure Pages where
  /-- `blk_size >> pg_shift`. -/
  count : Nat
  pgSize : Nat
  oobSize : Nat
  /-- Whether reading an erased page passes ECC. -/
  emptyOk : Bool

namespace Pages

/-- `_read_oob` of a page and its out-of-band area; `none` is an error that is not a bitflip. -/
def read (c : Pages) : OobPage → Option (Bytes × Bytes)
  | .erased => if c.emptyOk then some (List.replicate c.pgSize 0xff, List.replicate c.oobSize 0xff) else none
  | .data bytes oob => some (bytes, oob)
  | .unreadable => none

/-- The out-of-band bytes that are asked for. -/
def ooblen (c : Pages) : Nat := min (c.oobSize / c.count) 64

/-- `_write_oob` of an erased page, with so many out-of-band bytes. -/
def program (c : Pages) (bytes oob : Bytes) (ooblen : Nat) : OobPage :=
  .data bytes (oob.take ooblen ++ List.replicate (c.oobSize - (oob.take ooblen).length) 0xff)

/-- The loop of `bbt_nand_copy`, with the number of pages that are left. -/
def copyLoop (c : Pages) (src : Block) (maxOffset : Int) : Nat → Nat → Block → Block
  | 0, _, dest => dest
  | n + 1, i, dest =>
    if (i * c.pgSize : Nat) ≥ maxOffset then dest
    else
      match c.read (src i) with
      | none => dest
      | some (bytes, oob) =>
        -- `wr_ops.ooblen` is set behind the write
        copyLoop c src maxOffset n (i + 1) fun p => if p = i then c.program bytes (oob.take c.ooblen) 0 else dest p

/-- `bbt_nand_copy` to a block that can be written; no caller looks at its result. -/
def nandCopy (c : Pages) (dest src : Block) (maxOffset : Int) : Block := copyLoop c src maxOffset c.count 0 dest

end Pages

/-- The surroundings of `remap_block_v2`, with `bbt_nand_copy`. -/
def withCopy (c : Pages) (env : V2.Env Block) : V2.Env Block := { env with copy := c.nandCopy }

/-- The blocks that the tables were written to, from one state to a later one. -/
def tableBlocks (s s' : Nmbm.State) : List Nat :=
  (s'.trace.take (s'.trace.length - s.trace.length)).filterMap fun
    | .mgmt ba _ => some ba
    | _ => none

/-- `remap_block_nmbm` as seen by blocks with out-of-band bytes. The tables leave something else in the blocks that they are
    written to. -/
def remapBlockNmbm (c : Pages) (tables : Nat → Block → Block) (s : Nmbm.State) (flash : Nat → Block) (block mappedBlock : Nat)
    (copyLen : Int) : Bool × Nmbm.State × (Nat → Block) :=
  let (ok, s') := Nmbm.remapBlock s block mappedBlock copyLen.toNat
  let newBlock := (s'.ni.blockMapping.getD block 0).toNat
  let flash := if ok then fun b => if b = newBlock then Block.erased else flash b else flash
  let flash := if ok ∧ copyLen > 0 then fun b => if b = newBlock then c.nandCopy (flash b) (flash mappedBlock) copyLen else flash b
    else flash
  (ok, s', fun b => if b ∈ tableBlocks s s' then tables b (flash b) else flash b)

end RainWrt.Bmt
