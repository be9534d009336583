import RainWrt.Nmbm.State

/-! The driver's access to the chip: every operation is tried up to `NMBM_TRY_COUNT` times, an erased
    block may be checked for bitflips, and data is read back after it is written. -/

namespace RainWrt.Nmbm

/-! ### Operations with retry -/

def readTry (pgSize b p : Nat) : Nat → ReadError → Nand → Except ReadError Bytes × Nand
  | 0, e, n => (.error e, n)
  | t + 1, _, n =>
    match n.read pgSize b p with
    | (.ok d, n) => (.ok d, n)
    | (.error e, n) => readTry pgSize b p t e n

/-- `nmbm_read_phys_page`. A corrected page reads as a good one: no caller tells them apart. -/
def readPhysPage (s : State) (b p : Nat) : Except ReadError Bytes × State :=
  let r := readTry s.ni.chip.pgSize b p nmbmTryCount .eio s.nand
  (r.1, { s with nand := r.2 })

def writeTry (b p : Nat) (bytes : Bytes) : Nat → Nand → Bool × Nand
  | 0, n => (false, n)
  | t + 1, n =>
    match n.program b p bytes with
    | (true, n) => (true, n)
    | (false, n) => writeTry b p bytes t n

/-- `nmbm_write_phys_page`. -/
def writePhysPage (s : State) (b p : Nat) (bytes : Bytes) : Bool × State :=
  let r := writeTry b p bytes nmbmTryCount s.nand
  (r.1, { s with nand := r.2 })

def eraseTry (b : Nat) : Nat → Nand → Bool × Nand
  | 0, n => (false, n)
  | t + 1, n =>
    match n.erase b with
    | (true, n) => (true, n)
    | (false, n) => eraseTry b t n

/-- `nmbm_erase_phys_block`. -/
def erasePhysBlock (s : State) (b : Nat) : Bool × State :=
  let r := eraseTry b nmbmTryCount s.nand
  (r.1, { s with nand := r.2 })

/-- `nmbm_check_bad_phys_block`. -/
def checkBadPhysBlock (s : State) (b : Nat) : Bool × State :=
  let r := s.nand.blockIsbad b
  (r.1, { s with nand := r.2 })

/-- `nmbm_mark_phys_bad_block`; no caller looks at its result. -/
def markPhysBadBlock (s : State) (b : Nat) : State := { s with nand := s.nand.blockMarkbad b }

/-! ### Blocks -/

/-- Reads `n` pages from page `p` of block `b` on; fails on an ECC error only. -/
def checkEmptyPages (b : Nat) : Nat → Nat → State → Bool × State
  | 0, _, s => (true, s)
  | n + 1, p, s =>
    match readPhysPage s b p with
    | (.error .ebadmsg, s) => (false, s)
    | (_, s) => checkEmptyPages b n (p + 1) s

/-- `nmbm_erase_block_and_check`. -/
def eraseBlockAndCheck (s : State) (b : Nat) : Bool × State :=
  match erasePhysBlock s b with
  | (false, s) => (false, s)
  | (true, s) => if s.ni.emptyPageEccOk then checkEmptyPages b s.ni.chip.pagesPerBlock 0 s else (true, s)

/-- Page data with 0xff in the unused part. -/
def padPage (c : Chip) (d : Bytes) : Bytes := d ++ List.replicate (c.pgSize - d.length) 0xff

/-- Writes the pieces to consecutive pages from `p` on and reads each of them back. -/
def writeVerifyPages (b : Nat) : Nat → List Bytes → State → Bool × State
  | _, [], s => (true, s)
  | p, d :: ds, s =>
    match writePhysPage s b p (padPage s.ni.chip d) with
    | (false, s) => (false, s)
    | (true, s) =>
      match readPhysPage s b p with
      | (.error _, s) => (false, s)
      | (.ok r, s) => if r.take d.length = d then writeVerifyPages b (p + 1) ds s else (false, s)

/-- `nmbn_write_verify_data` at the start of block `b`, where its only caller writes. -/
def writeVerifyData (s : State) (b : Nat) (data : Bytes) : Bool × State :=
  writeVerifyPages b 0 (pieces s.ni.chip.pgSize data) s

/-- `nmbm_write_repeated_data`: the same data in every page. -/
def writeRepeatedData (s : State) (b : Nat) (data : Bytes) : Bool × State :=
  if data.length > s.ni.chip.pgSize then (false, s)
  else writeVerifyPages b 0 (List.replicate s.ni.chip.pagesPerBlock data) s

def readPages (b : Nat) : Nat → Nat → State → Except ReadError Bytes × State
  | 0, _, s => (.ok [], s)
  | n + 1, p, s =>
    match readPhysPage s b p with
    | (.error e, s) => (.error e, s)
    | (.ok d, s) =>
      match readPages b n (p + 1) s with
      | (.error e, s) => (.error e, s)
      | (.ok ds, s) => (.ok (d ++ ds), s)

/-- `nmbn_read_data`: `size` bytes from the start of page `p` of block `b`. -/
def readData (s : State) (b p size : Nat) : Except ReadError Bytes × State :=
  match readPages b ((size + s.ni.chip.pgSize - 1) / s.ni.chip.pgSize) p s with
  | (.error e, s) => (.error e, s)
  | (.ok d, s) => (.ok (d.take size), s)

end RainWrt.Nmbm

/-! The info table as bytes: header, checksum, the image that is written and the checks that the loader
    makes on an image it has read. -/

namespace RainWrt.Nmbm

/-! ### Checksum -/

/-- `nmbm_check_header`: the first four words of `data` are a header whose size fits the buffer and whose
    checksum covers the header, with the checksum field taken as zero, and the rest of the structure. -/
def checkHeader (data : Bytes) (size : Nat) : Bool :=
  let hsize := (word data 8).toNat
  if hsize > size then false
  else
    let nhdr := writeAt (data.take 16) 12 (le32 0)
    let sum := crc32Le 0 nhdr
    let sum := if hsize > 16 then crc32Le sum (slice data 16 (hsize - 16)) else sum
    word data 12 == sum

/-- `nmbm_update_checksum`. -/
def updateChecksum (data : Bytes) : Bytes :=
  let data := writeAt data 12 (le32 0)
  writeAt data 12 (le32 (crc32Le 0 (data.take (word data 8).toNat)))

/-! ### Image -/

/-- The header that `nmbm_generate_info_table_cache` fills in. -/
def generateHeader (ni : Instance) : InfoTableHeader :=
  { ni.infoTable with
    magic := nmbmMagicInfoTable
    version := nmbmVer
    size := .ofNat ni.chip.infoTableSize
    writeCount := if ni.dirty then ni.infoTable.writeCount + 1 else ni.infoTable.writeCount }

/-- The bytes of the info table with header `h` and the tables of `ni`. -/
def tableImage (ni : Instance) (h : InfoTableHeader) : Bytes :=
  let cache := List.replicate ni.chip.infoTableSize 0xff
  let cache := writeAt cache ni.infoTable.stateTableOff.toNat (unwords ni.blockState)
  let cache := writeAt cache ni.infoTable.mappingTableOff.toNat (unwords ni.blockMapping)
  updateChecksum (writeAt cache 0 h.toBytes)

/-- `nmbm_generate_info_table_cache`; its result says whether the tables have changed. -/
def generateInfoTableCache (s : State) : Bool × State :=
  let h := generateHeader s.ni
  (s.ni.dirty,
    { s with ni := { s.ni with infoTable := h, infoTableCache := tableImage s.ni h }, trace := .cacheGenerated :: s.trace })

/-- `nmbm_mark_tables_clean`. -/
def markTablesClean (s : State) : State :=
  { s with ni.blockStateChanged := 0, ni.blockMappingChanged := 0, trace := .clean :: s.trace }

/-! ### Checks on an image -/

/-- `nmbm_check_info_table_header`. -/
def checkInfoTableHeader (ni : Instance) (data : Bytes) : Bool :=
  let h := InfoTableHeader.ofBytes data
  h.magic == nmbmMagicInfoTable && h.size.toNat == ni.chip.infoTableSize &&
    decide (ni.chip.stateTableSize ≤ sub32 h.mappingTableOff.toNat h.stateTableOff.toNat) &&
    decide (ni.chip.mappingTableSize ≤ sub32 ni.chip.infoTableSize h.mappingTableOff.toNat)

/-- The block states that an image holds, at the place its own header gives. -/
def imageState (ni : Instance) (data : Bytes) : List UInt32 :=
  words (slice data (InfoTableHeader.ofBytes data).stateTableOff.toNat ni.chip.stateTableSize)

/-- The mapping that an image holds. -/
def imageMapping (ni : Instance) (data : Bytes) : List UInt32 :=
  words (slice data (InfoTableHeader.ofBytes data).mappingTableOff.toNat ni.chip.mappingTableSize)

/-- A mapping entry that `nmbm_check_info_table` takes for impossible: inside the management area before
    the end of the table, or the signature block. The comparisons are unsigned, so -1 passes. -/
def misplaced (ni : Instance) (endBa : Nat) (e : UInt32) : Bool :=
  (ni.dataBlockCount ≤ e.toNat && e.toNat < endBa) || e.toNat == ni.signatureBa

/-- The lowest entry from `endBa` on, starting from `low`. -/
def minimumMappingPb (endBa : Nat) : Nat → List UInt32 → Nat
  | low, [] => low
  | low, e :: es => minimumMappingPb endBa (if endBa ≤ e.toNat ∧ e.toNat < low then e.toNat else low) es

/-- `nmbm_check_info_table`: gives the block address of the top remapped block. -/
def checkInfoTable (ni : Instance) (startBa endBa : Nat) (data : Bytes) : Option Nat :=
  let mapping := (imageMapping ni data).take ni.dataBlockCount
  let state := imageState ni data
  if mapping.any (misplaced ni endBa) then none
  else if (List.range' startBa (endBa - startBa)).any fun ba =>
      ni.good ba && getBlockStateRaw state ba != blockStGood then none
  else some (sub32 (minimumMappingPb endBa ni.signatureBa mapping) 1)

end RainWrt.Nmbm
