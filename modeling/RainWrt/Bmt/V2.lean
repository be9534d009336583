import RainWrt.Bmt.Bbt

/-! The second version of `mtk_bmt`: a table of the blocks in use, and behind it a table of the blocks that are kept in reserve. -/

namespace RainWrt.Bmt.V2

/-- What `bmtd` holds of the chip. -/
structure Chip extends Geometry where
  tableSize : Nat
  poolLba : Nat
  bbMax : Nat

/-- The 16-bit words of `struct bbbt` from `bb_tbl` on. -/
abbrev Words := Nat → Nat

namespace Words

def set (w : Words) (i v : Nat) : Words := fun k => if k = i then v else w k

/-- `bmt_tbl[k].block`; `bmt_tbl` begins where `bb_tbl` has `table_size` words. -/
def block (g : Chip) (w : Words) (k : Nat) : Nat := w (g.tableSize + 2 * k)

/-- `bmt_tbl[k].mapped`. -/
def mapped (g : Chip) (w : Words) (k : Nat) : Nat := w (g.tableSize + 2 * k + 1)

def setBlock (g : Chip) (w : Words) (k v : Nat) : Words := w.set (g.tableSize + 2 * k) v

def setMapped (g : Chip) (w : Words) (k v : Nat) : Words := w.set (g.tableSize + 2 * k + 1) v

end Words

def NO_MAPPED : Nat := 0
def NORMAL_MAPPED : Nat := 1
def BMT_MAPPED : Nat := 2

/-- `find_valid_block`, with the number of bad blocks that may still be skipped. -/
def findValid (g : Chip) (good : Nat → Bool) : Nat → Nat → Nat
  | budget, block =>
    if g.totalBlks ≤ block then 0
    else if good block then block
    else match budget with
      | 0 => 0
      | budget + 1 => findValid g good budget (block + 1)

/-- `find_valid_block`; a block is good when its first page can be read and its out-of-band data begins with `0xff`. -/
def findValidBlock (g : Chip) (good : Nat → Bool) (block : Nat) : Nat := findValid g good g.bbMax (block % 2 ^ 16)

/-- The loop over the normal data area, with the number of rounds that are left. -/
def scanData (g : Chip) (good : Nat → Bool) : Nat → Nat → Words → Bool × Words
  | 0, _, w => (true, w)
  | n + 1, i, w =>
    let block := findValidBlock g good (w (i - 1) + 1)
    let w := w.set i block
    if block = 0 then (false, w) else scanData g good n (i + 1) w

/-- The loop over the pool. Its block rises in each round, so it ends within `total_blks` rounds. -/
def scanPool (g : Chip) (good : Nat → Bool) : Nat → Nat → Nat → Words → Nat × Words
  | 0, i, _, w => (i, w)
  | n + 1, i, block, w =>
    let block := findValidBlock g good block
    if block = 0 then (i, w) else scanPool g good n (i + 1) (block + 1) ((w.setBlock g i block).setMapped g i NO_MAPPED)

/-- What a scan leaves. -/
structure Scan where
  ok : Bool
  words : Words
  poolPba : Nat := 0
  bmtBlkIdx : Nat := 0

/-- `scan_bad_blocks`. -/
def scanBadBlocks (g : Chip) (good : Nat → Bool) (w : Words) : Scan :=
  let w := w.set 0 0
  let (ok, w) := scanData g good (g.poolLba - 1) 1 w
  if !ok then { ok := false, words := w }
  else
    let poolPba := (w (g.poolLba - 1) + 1) % 2 ^ 16
    if g.totalBlks ≤ poolPba + 2 then { ok := false, words := w, poolPba }
    else
      let (i, w) := scanPool g good g.totalBlks 0 poolPba w
      let bmtBlkIdx := (i + 2 ^ 16 - 1) % 2 ^ 16
      { ok := 1 ≤ i, words := w.setMapped g bmtBlkIdx BMT_MAPPED, poolPba, bmtBlkIdx }

/-- What the outside decides in one call: the results of erasures and writes, and what they and a copy leave in a block. -/
structure Env (β : Type) where
  erase : Nat → β → Bool × β
  writeBmt : Words → Nat → β → Bool × β
  copy : β → β → Int → β

/-- The tables and the chip. -/
structure State (β : Type) where
  words : Words
  bmtBlkIdx : Nat
  flash : Nat → β

variable {β : Type}

/-- `bbt_nand_erase`. -/
def nandErase (env : Env β) (s : State β) (block : Nat) : Bool × State β :=
  ((env.erase block (s.flash block)).1, { s with flash := fun b => if b = block then (env.erase block (s.flash b)).2 else s.flash b })

/-- `write_bmt` of the tables. -/
def writeBmt (env : Env β) (s : State β) (block : Nat) : Bool × State β :=
  ((env.writeBmt s.words block (s.flash block)).1,
    { s with flash := fun b => if b = block then (env.writeBmt s.words block (s.flash b)).2 else s.flash b })

/-- `(u16)-1`. -/
def NONE : Nat := 2 ^ 16 - 1

/-- One round of `upload_bmt`: the entry loses its block when that cannot be erased or written. -/
def uploadTo (g : Chip) (env : Env β) (s : State β) (n : Nat) : Bool × State β :=
  let block := s.words.block g n
  let (erased, s) := nandErase env s block
  let (written, s) := if erased then writeBmt env s block else (false, s)
  if written then (true, s) else (false, { s with words := s.words.setBlock g n 0 })

/-- `upload_bmt`. -/
def uploadBmt (g : Chip) (env : Env β) : Nat → State β → Nat × State β
  | 0, s =>
    if s.words.mapped g 0 = NORMAL_MAPPED then (NONE, s)
    else
      let (ok, s) := uploadTo g env s 0
      if ok then (0, s) else (NONE, s)
  | n + 1, s =>
    if s.words.mapped g (n + 1) = NORMAL_MAPPED then (NONE, s)
    else
      let (ok, s) := uploadTo g env s (n + 1)
      if ok then (n + 1, s) else uploadBmt g env n s

/-- The tables are written again, and `bmt_blk_idx` follows them. -/
def upload (g : Chip) (env : Env β) (s : State β) : State β :=
  let (n, s) := uploadBmt g env s.bmtBlkIdx s
  { s with bmtBlkIdx := n }

/-- `find_valid_block_in_pool`: the entry that was marked. -/
def findValidBlockInPool (g : Chip) (w : Words) (bmtBlkIdx : Nat) : Option Nat :=
  (List.range bmtBlkIdx).find? fun i => w.block g i ≠ 0 ∧ w.mapped g i = NO_MAPPED

/-- `remap_block_v2`. -/
def remapBlock (g : Chip) (env : Env β) (s : State β) (block mappedBlock : Nat) (copyLen : Int) : Bool × State β :=
  match findValidBlockInPool g s.words s.bmtBlkIdx with
  | none => (false, s)
  | some i =>
    let newBlock := s.words.block g i
    let s := { s with words := (s.words.setMapped g i NORMAL_MAPPED).set block newBlock }
    let (_, s) := nandErase env s newBlock
    let s := if copyLen > 0 then
        { s with flash := fun b => if b = newBlock then env.copy (s.flash b) (s.flash mappedBlock) copyLen else s.flash b }
      else s
    (true, upload g env s)

/-- `get_mapping_block_index_v2`. -/
def getMappingBlockIndex (g : Chip) (w : Words) (block : Nat) : Nat :=
  if g.poolLba ≤ block then block
  else if (mappingBlockInRange g.toGeometry block).isNone then block
  else w block

/-- `unmap_block_v2`. -/
def unmapBlock (g : Chip) (env : Env β) (s : State β) (block : Nat) : State β :=
  upload g env { s with words := s.words.set block block }

end RainWrt.Bmt.V2
