import RainWrt.Bmt.Front

/-! The tables of the second version on the flash: how they are stored, how a boot finds them, and what it does when there are none. -/

namespace RainWrt.Bmt

namespace V2

/-! ### Tables as bytes -/

/-- `bmtd.ops->sig`. -/
def sig : Bytes := [0x62, 0x6d, 0x74]

def bbbtSignature : Bytes := [0x42, 0x4d, 0x54]
def BBMT_VERSION : UInt8 := 2

/-- A word in the order of the host. -/
def le16 (x : Nat) : Bytes := [.ofNat (x % 256), .ofNat (x / 256 % 256)]

/-- The words behind the signature in a buffer. -/
def wordsOf (buf : Bytes) : Words := fun i => (buf.getD (4 + 2 * i) 0xff).toNat + 256 * (buf.getD (4 + 2 * i + 1) 0xff).toNat

section
variable (g : Chip) (c : Pages) (oobOffset : Nat)

/-- `bmt_pgs`: the pages for `sizeof(struct bbbt) + table_size * sizeof(struct bbmt)` bytes. -/
def bmtPgs : Nat := (4 + 4 * g.tableSize + (c.pgSize - 1)) / c.pgSize

/-- The words behind the signature in `bbt_buf`. -/
def wordCount : Nat := (bmtPgs g c * c.pgSize - 4) / 2

/-- `bbt_buf`. -/
def tableBytes (w : Words) : Bytes := bbbtSignature ++ [BBMT_VERSION] ++ (List.range (wordCount g c)).flatMap fun i => le16 (w i)

/-- What `write_bmt` leaves of an erased block if it succeeds. -/
def tableBlock (w : Words) : Block := fun p =>
  if p < bmtPgs g c then
    let oob := if p = 0 then List.replicate (1 + oobOffset) 0xff ++ sig else []
    c.program (((tableBytes g c w).drop (p * c.pgSize)).take c.pgSize) oob oob.length
  else .erased

/-! ### Searching -/

/-- `bbt_nand_read` from the first page of a block on: so many pages, and the bytes of the FDM. -/
def nandRead (pages : Nat) (blk : Block) : Option (Bytes × Bytes) :=
  ((List.range pages).mapM fun p => c.read (blk p)).map fun l => (l.flatMap (·.1), ((l.flatMap (·.2)).drop oobOffset).take 4)

/-- `is_valid_bmt`. -/
def isValidBmt (buf fdm : Bytes) : Bool := buf.take 3 = bbbtSignature && (fdm.drop 1).take 3 = sig && buf[3]? = some BBMT_VERSION

/-- `get_bmt_index`, with the number of entries that are left in the buffer; `none` when it gets behind them. -/
def getBmtIndex (w : Words) : Nat → Nat → Option Nat
  | 0, _ => none
  | n + 1, i =>
    if w.block g i = 0 then some 0
    else if w.mapped g i = BMT_MAPPED then some i
    else getBmtIndex w n (i + 1)

/-- What the search for the tables comes to. -/
inductive Search where
  | found (bmtBlkIdx : Nat) (words : Words)
  | nothing
  | overrun

/-- An index of 0 is taken for an error, which ends the search. -/
def Search.ofIndex (w : Words) : Option Nat → Search
  | none => .overrun
  | some 0 => .nothing
  | some (idx + 1) => .found (idx + 1) w

/-- The entries of `bmt_tbl` that are inside `bbt_buf`. -/
def entryCount : Nat := (wordCount g c - g.tableSize) / 2

/-- The loop of `mtk_bmt_init_v2` from the last block down; so many blocks are left from `pool_lba` on. -/
def search (flash : Nat → Block) : Nat → Search
  | 0 => .nothing
  | n + 1 =>
    match nandRead c oobOffset (bmtPgs g c) (flash (g.poolLba + n)) with
    | none => search flash n
    | some (buf, fdm) =>
      if !isValidBmt buf fdm then search flash n
      else .ofIndex (wordsOf buf) (getBmtIndex g (wordsOf buf) (entryCount g c) 0)

/-- What `find_valid_block` asks of a block. -/
def firstPageGood (blk : Block) : Bool :=
  match nandRead c oobOffset 1 blk with
  | some (_, fdm) => fdm[0]? = some 0xff
  | none => false

/-- `memset(bmt_tbl(bmtd.bbt), BMT_TBL_DEF_VAL, ...)`: twice as many words as there are from there on. -/
def clearBmtTbl (w : Words) : Words := fun i => if g.tableSize ≤ i ∧ i < 3 * g.tableSize then 0 else w i

/-- The scan of a chip on which no tables are found; a block behind the end is not looked at. -/
def scanFlash (left : Words) (flash : Nat → Block) : Scan :=
  scanBadBlocks g (fun b => decide (b < g.totalBlks) && firstPageGood c oobOffset (flash b)) (clearBmtTbl g left)

/-- `mtk_bmt_init_v2` when there are no tables; `left` is what the search has left in `bbt_buf`. -/
def initAnew (env : Env Block) (left : Words) (flash : Nat → Block) : Option (State Block) :=
  if g.tableSize + g.tableSize * 2 / 100 < g.totalBlks then none
  else
    let scan := scanFlash g c oobOffset left flash
    if !scan.ok then none
    else
      let s := upload g env { words := scan.words, bmtBlkIdx := scan.bmtBlkIdx, flash }
      if s.bmtBlkIdx = NONE then none else some s

/-- `mtk_bmt_init_v2`. -/
def initTables (env : Env Block) (left : Words) (flash : Nat → Block) : Option (State Block) :=
  match search g c oobOffset flash (g.totalBlks - g.poolLba) with
  | .overrun => none
  | .found bmtBlkIdx words => some { words, bmtBlkIdx, flash }
  | .nothing => initAnew g c oobOffset env left flash

end

/-! ### Entries that are not in use -/

/-- `mtk_bmt_get_mapping_mask`: the entries that logical blocks are mapped to, of those that the device shows. -/
def mappingMask (g : Chip) (mainBlocks : Nat) (w : Words) (bmtBlkIdx k : Nat) : Bool :=
  (List.range mainBlocks).any fun i => i ≠ 0 && w i ≠ i && (List.range bmtBlkIdx).find? (fun k => w i = w.block g k) = some k

/-- An entry is marked as used, but nothing is mapped to it. -/
def unused (g : Chip) (used : Nat → Bool) (w : Words) (i : Nat) : Bool := w.mapped g i = NORMAL_MAPPED && !used i

/-- The loop of `mtk_bmt_debug_v2` with the value 100. -/
def freeUnused (g : Chip) (used : Nat → Bool) (entries : List Nat) (w : Words) : Words :=
  entries.foldl (fun w i => if unused g used w i then w.setMapped g i NO_MAPPED else w) w

/-- `mtk_bmt_debug_v2` with the value 100. -/
def debugFree {β : Type} (g : Chip) (env : Env β) (mainBlocks : Nat) (s : State β) : State β :=
  let used := mappingMask g mainBlocks s.words s.bmtBlkIdx
  let entries := List.range (s.bmtBlkIdx + 1)
  if entries.any (unused g used s.words) then upload g env { s with words := freeUnused g used entries s.words } else s

end V2

/-! ### Sessions -/

section
variable (g : V2.Chip) (c : Pages) (oobOffset bitflipThreshold : Nat) (out : Outside) (left : V2.Words)

end

end RainWrt.Bmt
