import RainWrt.Bmt.Copy

/-! `mtk_bmt.c`: the operations of the NAND device. Each maps the blocks of a request, and remaps a block that fails. -/

namespace RainWrt.Bmt

def eIo : Int := 5
def eBadmsg : Int := 74

/-- `mtd_is_bitflip`: the error is `-EUCLEAN`. -/
def mtdIsBitflip (err : Int) : Bool := err = -117

/-- What the front end passes on of `struct mtd_oob_ops`; the buffers hold what a write is given. -/
structure OobOps where
  len : Nat
  datbuf : Bytes := []
  ooblen : Nat := 0
  ooboffs : Nat := 0
  oobbuf : Bytes := []

/-- What a read of the chip returns: the bytes are as many as `retlen` and `oobretlen` say. -/
structure RawRead where
  ret : Int
  dat : Bytes
  oob : Bytes

structure RawWrite where
  ret : Int
  retlen : Nat
  oobretlen : Nat

/-- The operations of the chip that `mtk_bmt_replace_ops` keeps, and `bmtd.ops`. An address is one of the chip. -/
structure Driver (σ : Type) extends Geometry where
  bitflipThreshold : Nat
  readOob : σ → Nat → OobOps → RawRead × σ
  writeOob : σ → Nat → OobOps → RawWrite × σ
  erase : σ → Nat → Int × σ
  blockIsbad : σ → Nat → Int × σ
  blockMarkbad : σ → Nat → Int × σ
  getMappingBlock : σ → Nat → Int
  remapBlock : σ → Nat → Nat → Int → Bool × σ

/-- What a round of a loop comes to: the function returns, or there is another round. -/
inductive Round (α σ : Type)
  | done (ret : Int) (a : α) (s : σ)
  | again (a : α) (s : σ)

/-- A loop, with the number of rounds that are left; `none` when they do not suffice. -/
def loop {α σ : Type} (round : α → σ → Round α σ) : Nat → α → σ → Option (Int × α × σ)
  | 0, _, _ => none
  | fuel + 1, a, s =>
    match round a s with
    | .done ret a s => some (ret, a, s)
    | .again a s => loop round fuel a s

namespace Driver

variable {σ : Type} (d : Driver σ)

/-- `blk_size`, which is `erasesize`, a power of two. -/
def blkSize : Nat := 2 ^ d.blkShift

/-- `mtk_bmt_remap_block`; the blocks are cut to 16 bits. -/
def mtkBmtRemapBlock (s : σ) (block : Nat) (mappedBlock : Int) (copyLen : Nat) : Bool × σ :=
  match mappingBlockInRange d.toGeometry block with
  | none => (false, s)
  | some _ => d.remapBlock s (block % 2 ^ 16) (mappedBlock % 2 ^ 16).toNat copyLen

/-! ### Reading -/

/-- The variables of `mtk_bmt_read`, and what it has read. -/
structure Reading where
  pos : Nat
  ooblen : Nat
  ooboffs : Nat
  retry : Nat := 0
  ret : Int := 0
  maxBitflips : Int := 0
  dat : Bytes := []
  oob : Bytes := []

namespace Reading

/-- Behind the label `out`. -/
def out (r : Reading) : Int := if r.ret < 0 then r.ret else r.maxBitflips

/-- The result of the chip is noted. -/
def note (r : Reading) (curRet : Int) : Reading :=
  if curRet < 0 then { r with ret := curRet } else { r with maxBitflips := max r.maxBitflips curRet }

/-- The chip has read `curLen` bytes; a read of out-of-band bytes alone goes on in the next block. -/
def next (r : Reading) (raw : RawRead) (curLen rest : Nat) : Reading :=
  { r with
    pos := r.pos + if curLen = 0 then rest else curLen
    ooblen := r.ooblen - raw.oob.length
    ooboffs := 0
    retry := 0
    dat := r.dat ++ raw.dat
    oob := r.oob ++ raw.oob }

end Reading

/-- A read that failed is tried again if the block has been remapped. -/
def readRetry (r : Reading) : Bool × σ → Round Reading σ
  | (remapped, s) => if remapped ∧ r.retry < 10 then .again { r with retry := r.retry + 1 } s else .done r.out r s

/-- The rest of a round behind the call of `_read_oob`. The threshold is compared as an unsigned number, so that `-EUCLEAN` reaches it. -/
def readEnd (r : Reading) (block : Nat) (curBlock : Int) (curLen rest : Nat) : RawRead × σ → Round Reading σ
  | (raw, s) =>
    if raw.ret < 0 ∧ mtdIsBitflip raw.ret = false then readRetry (r.note raw.ret) (d.mtkBmtRemapBlock s block curBlock d.blkSize)
    else .again ((r.note raw.ret).next raw curLen rest)
      (if d.bitflipThreshold ≠ 0 ∧ d.bitflipThreshold ≤ raw.ret % 2 ^ 32 then (d.mtkBmtRemapBlock s block curBlock d.blkSize).2 else s)

/-- A read from `offset` in a block. -/
def readBlock (ops : OobOps) (r : Reading) (s : σ) (block offset : Nat) : Round Reading σ :=
  let curBlock := d.getMappingBlock s block
  let curLen := min (d.blkSize - offset) (ops.len - r.dat.length)
  if curBlock < 0 then .done (-eIo) r s
  else d.readEnd r block curBlock curLen (d.blkSize - offset)
    (d.readOob s (curBlock.toNat * d.blkSize + offset) { len := curLen, ooblen := r.ooblen, ooboffs := r.ooboffs })

/-- A round of `mtk_bmt_read`. -/
def readRound (ops : OobOps) (r : Reading) (s : σ) : Round Reading σ :=
  if r.dat.length < ops.len ∨ r.oob.length < ops.ooblen then d.readBlock ops r s (r.pos / d.blkSize % 2 ^ 32) (r.pos % d.blkSize)
  else .done r.out r s

/-- `mtk_bmt_read`. -/
def mtkBmtRead (fuel : Nat) (s : σ) (pos : Nat) (ops : OobOps) : Option (Int × Reading × σ) :=
  loop (d.readRound ops) fuel { pos, ooblen := ops.ooblen, ooboffs := ops.ooboffs } s

/-! ### Writing -/

/-- The variables of `mtk_bmt_write`. -/
structure Writing where
  pos : Nat
  ooblen : Nat
  ooboffs : Nat
  retry : Nat := 0
  retlen : Nat := 0
  oobretlen : Nat := 0

/-- The chip has written `curLen` bytes. -/
def Writing.next (w : Writing) (raw : RawWrite) (curLen rest : Nat) : Writing where
  pos := w.pos + if curLen = 0 then rest else curLen
  ooblen := w.ooblen - raw.oobretlen
  ooboffs := 0
  retlen := w.retlen + raw.retlen
  oobretlen := w.oobretlen + raw.oobretlen

/-- A write that failed is tried again if the block has been remapped. -/
def writeRetry (w : Writing) (ret : Int) : Bool × σ → Round Writing σ
  | (remapped, s) => if remapped ∧ w.retry < 10 then .again { w with retry := w.retry + 1 } s else .done ret w s

/-- The rest of a round behind the call of `_write_oob`. Only what lies below a failed write is copied. -/
def writeEnd (w : Writing) (block : Nat) (curBlock : Int) (curLen offset : Nat) : RawWrite × σ → Round Writing σ
  | (raw, s) =>
    if raw.ret < 0 then writeRetry w raw.ret (d.mtkBmtRemapBlock s block curBlock offset)
    else .again (w.next raw curLen (d.blkSize - offset)) s

/-- A write from `offset` in a block. -/
def writeBlock (ops : OobOps) (w : Writing) (s : σ) (block offset : Nat) : Round Writing σ :=
  let curBlock := d.getMappingBlock s block
  let curLen := min (d.blkSize - offset) (ops.len - w.retlen)
  if curBlock < 0 then .done (-eIo) w s
  else d.writeEnd w block curBlock curLen offset (d.writeOob s (curBlock.toNat * d.blkSize + offset)
    { len := curLen, datbuf := ops.datbuf.drop w.retlen, ooblen := w.ooblen, ooboffs := w.ooboffs, oobbuf := ops.oobbuf.drop w.oobretlen })

/-- A round of `mtk_bmt_write`. -/
def writeRound (ops : OobOps) (w : Writing) (s : σ) : Round Writing σ :=
  if w.retlen < ops.len ∨ w.oobretlen < ops.ooblen then d.writeBlock ops w s (w.pos / d.blkSize % 2 ^ 32) (w.pos % d.blkSize)
  else .done 0 w s

/-- `mtk_bmt_write`. -/
def mtkBmtWrite (fuel : Nat) (s : σ) (pos : Nat) (ops : OobOps) : Option (Int × Writing × σ) :=
  loop (d.writeRound ops) fuel { pos, ooblen := ops.ooblen, ooboffs := ops.ooboffs } s

/-! ### Erasing -/

/-- The variables of `mtk_bmt_mtd_erase`, with the `fail_addr` of the request. -/
structure Erasing where
  startAddr : Nat
  retry : Nat := 0
  ret : Int := 0
  failAddr : Option Nat := none

/-- An erasure that failed is tried again if the block has been remapped. -/
def eraseRetry (e : Erasing) (ret : Int) : Bool × σ → Round Erasing σ
  | (remapped, s) =>
    if remapped ∧ e.retry < 10 then .again { e with retry := e.retry + 1, ret } s
    else .done ret { e with ret, failAddr := some e.startAddr } s

/-- The rest of a round behind the call of `_erase`. -/
def eraseEnd (e : Erasing) (origBlock : Nat) (block : Int) : Int × σ → Round Erasing σ
  | (ret, s) =>
    if ret ≠ 0 then eraseRetry e ret (d.mtkBmtRemapBlock s origBlock block 0)
    else .again { e with startAddr := e.startAddr + d.blkSize, retry := 0, ret } s

def eraseBlock (e : Erasing) (s : σ) (origBlock : Nat) : Round Erasing σ :=
  let block := d.getMappingBlock s origBlock
  if block < 0 then .done (-eIo) e s else d.eraseEnd e origBlock block (d.erase s (block.toNat * d.blkSize))

/-- A round of `mtk_bmt_mtd_erase`. -/
def eraseRound (endAddr : Nat) (e : Erasing) (s : σ) : Round Erasing σ :=
  if e.startAddr < endAddr then d.eraseBlock e s (e.startAddr / d.blkSize % 2 ^ 16) else .done e.ret e s

/-- `mtk_bmt_mtd_erase`. An erasure of no bytes would return what `ret` held before; `mtd_erase` does not ask for one. -/
def mtkBmtMtdErase (fuel : Nat) (s : σ) (addr len : Nat) : Option (Int × Erasing × σ) :=
  loop (d.eraseRound (addr + len)) fuel { startAddr := addr - addr % d.blkSize } s

/-! ### Bad blocks -/

/-- The loop of `mtk_bmt_block_isbad`, with the number of retries that are left. -/
def isbadLoop (origBlock : Nat) : Nat → σ → Int × σ
  | n, s =>
    let block := (d.getMappingBlock s origBlock % 2 ^ 16).toNat
    let r := d.blockIsbad s (block * d.blkSize)
    if r.1 ≠ 0 then
      let remapped := d.mtkBmtRemapBlock r.2 origBlock block d.blkSize
      match n with
      | 0 => (r.1, remapped.2)
      | n + 1 => if remapped.1 then isbadLoop origBlock n remapped.2 else (r.1, remapped.2)
    else r

/-- `mtk_bmt_block_isbad`. -/
def mtkBmtBlockIsbad (s : σ) (ofs : Nat) : Int × σ := d.isbadLoop (ofs / d.blkSize % 2 ^ 16) 10 s

/-- `mtk_bmt_block_markbad`: the block that is marked is the one that was mapped before. -/
def mtkBmtBlockMarkbad (s : σ) (ofs : Nat) : Int × σ :=
  let origBlock := ofs / d.blkSize % 2 ^ 16
  let block := d.getMappingBlock s origBlock
  if block < 0 then (-eIo, s)
  else d.blockMarkbad (d.mtkBmtRemapBlock s origBlock block d.blkSize).2 (block.toNat * d.blkSize)

end Driver

/-! ### Runs -/

/-- A request of the MTD layer; it reads and writes without out-of-band bytes. -/
inductive Request
  | read (pos len : Nat)
  | write (pos : Nat) (dat : Bytes)
  | erase (addr len : Nat)
  | isbad (ofs : Nat)
  | markbad (ofs : Nat)

/-- What a request returns, and the bytes that a read has filled in. -/
structure Answer where
  ret : Int
  dat : Bytes := []

namespace Driver

variable {σ : Type} (d : Driver σ)

/-- Rounds enough for a request, with ten retries for each of them. -/
def rounds : Request → Nat
  | .read _ len => 11 * len + 1
  | .write _ dat => 11 * dat.length + 1
  | .erase _ len => 11 * (len + d.blkSize) + 1
  | _ => 0

def exec (s : σ) (req : Request) : Option (Answer × σ) :=
  match req with
  | .read pos len => (d.mtkBmtRead (d.rounds req) s pos { len }).map fun (ret, r, s) => ({ ret, dat := r.dat }, s)
  | .write pos dat => (d.mtkBmtWrite (d.rounds req) s pos { len := dat.length, datbuf := dat }).map fun (ret, _, s) => ({ ret }, s)
  | .erase addr len => (d.mtkBmtMtdErase (d.rounds req) s addr len).map fun (ret, _, s) => ({ ret }, s)
  | .isbad ofs => some ({ ret := (d.mtkBmtBlockIsbad s ofs).1 }, (d.mtkBmtBlockIsbad s ofs).2)
  | .markbad ofs => some ({ ret := (d.mtkBmtBlockMarkbad s ofs).1 }, (d.mtkBmtBlockMarkbad s ofs).2)

/-- The answers to requests that are made one after the other. -/
def run : σ → List Request → Option (List Answer × σ)
  | s, [] => some ([], s)
  | s, req :: reqs => do
    let (answer, s) ← d.exec s req
    let (answers, s) ← run s reqs
    return (answer :: answers, s)

end Driver

/-! ### A chip with the tables of the second version -/

namespace Pages

/-- The byte of a block that a read gives. -/
def byte (c : Pages) (blk : Block) (o : Nat) : Option UInt8 := (c.read (blk (o / c.pgSize))).map fun r => r.1.getD (o % c.pgSize) 0xff

/-- A page reads as blank; ECC of blank bytes is blank. -/
def blank (c : Pages) (page : OobPage) : Bool :=
  match c.read page with
  | some (bytes, _) => (List.range c.pgSize).all fun j => bytes.getD j 0xff = 0xff
  | none => false

/-- Programming `n` pages from page `p` on. It fails at the page of the request that `fault` names, and leaves something there; a page
    that is not blank is spoiled. -/
def programPages (c : Pages) (fault : Option (Nat × OobPage)) : Nat → Nat → Nat → Bytes → Block → Bool × Block
  | 0, _, _, _, blk => (true, blk)
  | n + 1, i, p, dat, blk =>
    match fault.filter (·.1 = i) with
    | some (_, left) => (false, fun q => if q = p then left else blk q)
    | none => c.programPages fault n (i + 1) (p + 1) (dat.drop c.pgSize) fun q =>
        if q = p then (if c.blank (blk p) then c.program (dat.take c.pgSize) [] 0 else .unreadable) else blk q

end Pages

/-- What goes wrong in an operation of the chip. -/
structure Fault where
  /-- The operation fails, although what it reads is there. -/
  io : Bool := false
  bitflips : Nat := 0
  program : Option (Nat × OobPage) := none
  erase : Option Block := none
  bad : Bool := false
  /-- Writing the mark of a bad block leaves this behind. -/
  mark : Option Block := none

/-- What the outside decides: the faults of the operations in their order, and what `remap_block_v2` meets. -/
structure Outside where
  fault : Nat → Fault
  env : Nat → V2.Env Block

/-- The chip and the tables, and the number of operations so far. -/
structure Device where
  bmt : V2.State Block
  time : Nat := 0

namespace Device

def tick (s : Device) : Device := { s with time := s.time + 1 }

/-- A block holds something else. -/
def store (s : Device) (pb : Nat) (blk : Block) : Device :=
  { bmt := { s.bmt with flash := fun b => if b = pb then blk else s.bmt.flash b }, time := s.time + 1 }

end Device

/-- `mtk_bmt_v2_ops` over a chip whose operations stay in a block. It is not asked for out-of-band bytes. -/
def v2Driver (g : V2.Chip) (c : Pages) (bitflipThreshold : Nat) (out : Outside) : Driver Device where
  toGeometry := g.toGeometry
  bitflipThreshold
  readOob s addr ops :=
    let f := out.fault s.time
    if f.io then ({ ret := -eIo, dat := [], oob := [] }, s.tick)
    else
      match (List.range ops.len).mapM fun i => c.byte (s.bmt.flash (addr / 2 ^ g.blkShift)) (addr % 2 ^ g.blkShift + i) with
      | some dat => ({ ret := f.bitflips, dat, oob := [] }, s.tick)
      | none => ({ ret := -eBadmsg, dat := [], oob := [] }, s.tick)
  writeOob s addr ops :=
    let pb := addr / 2 ^ g.blkShift
    let (ok, blk) := c.programPages (out.fault s.time).program (ops.len / c.pgSize) 0 (addr % 2 ^ g.blkShift / c.pgSize) ops.datbuf (s.bmt.flash pb)
    ({ ret := if ok then 0 else -eIo, retlen := if ok then ops.len else 0, oobretlen := 0 }, s.store pb blk)
  erase s addr :=
    match (out.fault s.time).erase with
    | none => (0, s.store (addr / 2 ^ g.blkShift) .erased)
    | some left => (-eIo, s.store (addr / 2 ^ g.blkShift) left)
  blockIsbad s _ := (if (out.fault s.time).bad then 1 else 0, s.tick)
  blockMarkbad s addr := (0, s.store (addr / 2 ^ g.blkShift) ((out.fault s.time).mark.getD (s.bmt.flash (addr / 2 ^ g.blkShift))))
  getMappingBlock s block := V2.getMappingBlockIndex g s.bmt.words block
  remapBlock s block mappedBlock copyLen :=
    let (ok, bmt) := V2.remapBlock g (withCopy c (out.env s.time)) s.bmt block mappedBlock copyLen
    (ok, { bmt, time := s.time + 1 })

end RainWrt.Bmt
