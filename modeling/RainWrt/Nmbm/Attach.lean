import RainWrt.Nmbm.Create

/-! Attaching to a chip that has been used: finding the signature, searching the management area for info
    tables and loading the newest one. -/

namespace RainWrt.Nmbm

/-! ### One table -/

/-- The loop of `nmbm_try_load_info_table`, `n` blocks before its limit. `off` bytes have been read, and
    `start` is the block of the first of them; the result is the start and the block after the end. -/
def loadLoop : Nat → State → Nat → Nat → Option Nat → Option (Nat × Nat) × State
  | 0, s, ba, off, start => (if off = s.ni.chip.infoTableSize then some (start.getD 0, ba) else none, s)
  | n + 1, s, ba, off, start =>
    if off = s.ni.chip.infoTableSize then (some (start.getD 0, ba), s)
    else if s.ni.good ba then
      match checkBadPhysBlock s ba with
      | (true, s) => loadLoop n (setBlockState s ba blockStBad) (ba + 1) off start
      | (false, s) =>
        let chunksize := min (s.ni.chip.infoTableSize - off) s.ni.chip.blkSize
        match readData s ba 0 chunksize with
        -- only marked bad in memory
        | (.error _, s) => loadLoop n (setBlockState s ba blockStBad) (ba + 1) off start
        | (.ok d, s) =>
          let s := { s with ni.infoTableCache := writeAt s.ni.infoTableCache off d }
          if start.isNone && !checkInfoTableHeader s.ni s.ni.infoTableCache then (none, s)
          else loadLoop n s (ba + 1) (off + chunksize) (some (start.getD ba))
    else loadLoop n s (ba + 1) off start

/-- What is known of a table that was found. -/
structure Found where
  startBa : Nat
  endBa : Nat
  writeCount : UInt32
  mappingBlocksTopBa : Nat
  deriving DecidableEq, Repr

/-- The instance with the tables of the cached image. -/
def loadTables (ni : Instance) : Instance :=
  { ni with
    infoTable := .ofBytes ni.infoTableCache
    blockState := imageState ni ni.infoTableCache
    blockMapping := imageMapping ni ni.infoTableCache }

/-- `nmbm_try_load_info_table`. -/
def tryLoadInfoTable (s : State) (ba : Nat) (tableLoaded : Bool) : Option Found × State :=
  match loadLoop s.ni.chip.tableBlocks s ba 0 none with
  | (none, s) => (none, s)
  | (some (startBa, endBa), s) =>
    if !checkHeader s.ni.infoTableCache s.ni.chip.infoTableSize then (none, s)
    else
      match checkInfoTable s.ni startBa endBa s.ni.infoTableCache with
      | none => (none, s)
      | some top =>
        let writeCount := (InfoTableHeader.ofBytes s.ni.infoTableCache).writeCount
        (some { startBa := ba, endBa, writeCount, mappingBlocksTopBa := top },
          if !tableLoaded || writeCount > s.ni.infoTable.writeCount then { s with ni := loadTables s.ni } else s)

/-! ### Search -/

/-- The loop of `nmbm_search_info_table`, `n` start blocks before the limit. -/
def searchLoop : Nat → State → Nat → Bool → Option Found × State
  | 0, s, _, _ => (none, s)
  | n + 1, s, ba, tableLoaded =>
    match tryLoadInfoTable s ba tableLoaded with
    | (some f, s) => (some f, s)
    | (none, s) => searchLoop n s (ba + 1) tableLoaded

/-- `nmbm_search_info_table`. -/
def searchInfoTable (s : State) (ba limit : Nat) (tableLoaded : Bool) : Option Found × State :=
  searchLoop (sub32 limit s.ni.chip.tableBlocks - ba) s ba tableLoaded

/-- The number of logical blocks up to the last one of the first `i` that is mapped. -/
def lastMapped (blockMapping : List UInt32) : Nat → Option Nat
  | 0 => none
  | i + 1 => if (blockMapping.getD i 0xffffffff).toNat < 2 ^ 31 then some (i + 1) else lastMapped blockMapping i

/-- The values that `nmbm_load_info_table` starts from. -/
def resetTables (s : State) : State :=
  { s with
    ni.mainTableBa := 0
    ni.backupTableBa := 0
    ni.infoTable.writeCount := 0
    ni.mappingBlocksTopBa := sub32 s.ni.signatureBa 1
    ni.dataBlockCount := s.ni.signature.mgmtStartPb.toNat }

/-- The places of the tables that were found, and the sizes that follow from the loaded mapping. -/
def placeTables (s : State) (main : Found) (backup : Option Found) : State :=
  { s with
    ni.mainTableBa := main.startBa
    ni.backupTableBa := (backup.map (·.startBa)).getD 0
    ni.mappingBlocksBa := (backup.map (·.endBa)).getD main.endBa
    ni.mappingBlocksTopBa :=
      match backup with
      | none => main.mappingBlocksTopBa
      | some b => if main.writeCount ≥ b.writeCount then main.mappingBlocksTopBa else b.mappingBlocksTopBa
    ni.dataBlockCount := (lastMapped s.ni.blockMapping s.ni.signature.mgmtStartPb.toNat).getD s.ni.dataBlockCount }

/-- The tables are written again if there is one only, or two that differ in their write count. -/
def refreshTables (s : State) (main : Found) : Option Found → Bool × State
  | none => rescueSingleInfoTable s
  | some backup =>
    if main.writeCount ≠ backup.writeCount then
      updateSingleInfoTable { s with ni.blockStateChanged := 1, ni.blockMappingChanged := 1 } (main.writeCount < backup.writeCount)
    else (true, s)

/-- Without spare blocks, or with one table only, the chip becomes read-only. -/
def protectTables (success : Bool) (s : State) : State :=
  if s.ni.mappingBlocksBa = s.ni.mappingBlocksTopBa ∨ !success then { s with ni.protected := true } else s

/-- `nmbm_load_info_table`. -/
def loadInfoTable (s : State) (ba limit : Nat) : Bool × State :=
  match searchInfoTable (resetTables s) ba limit false with
  | (none, s) => (false, s)
  | (some main, s) =>
    match searchInfoTable s main.endBa limit true with
    | (backup, s) =>
      match refreshTables (generateInfoTableCache (placeTables s main backup)).2 main backup with
      | (success, s) => (true, protectTables success s)

/-! ### Attach -/

/-- `nmbm_load_existing`. -/
def loadExisting (s : State) : Bool × State :=
  let s := { s with ni.mgmtStartBa := s.ni.signature.mgmtStartPb.toNat }
  match loadInfoTable s s.ni.mgmtStartBa s.ni.signatureBa with
  | (true, s) => (true, s)
  | (false, s) =>
    if !s.ni.forceCreate then (false, s) else createInfoTable (buildMappingTable (scanBadblocks s))

/-- The limit of the search for a signature. -/
def signatureLimit (ni : Instance) : Nat :=
  let limit := ni.blockCount / nmbmMgmtDiv * sub32 nmbmMgmtDiv ni.maxRatio % 2 ^ 32
  if ni.maxReservedBlocks ≠ 0 ∧ sub32 ni.blockCount limit > ni.maxReservedBlocks then
    sub32 ni.blockCount ni.maxReservedBlocks
  else limit

/-- Looks at `n` pages of block `ba` from page `p` on for a signature. -/
def signatureInBlock (ba : Nat) : Nat → Nat → State → Option Signature × State
  | 0, _, s => (none, s)
  | n + 1, p, s =>
    match readData s ba p signatureSize with
    | (.error _, s) => signatureInBlock ba n (p + 1) s
    | (.ok d, s) =>
      if checkHeader d signatureSize && (Signature.ofBytes d).magic == nmbmMagicSignature then (some (.ofBytes d), s)
      else signatureInBlock ba n (p + 1) s

/-- The loop of `nmbm_find_signature`, `n` blocks from `ba - 1` down. -/
def findSignatureLoop : Nat → State → Nat → Option (Signature × Nat) × State
  | 0, s, _ => (none, s)
  | n + 1, s, ba =>
    match checkBadPhysBlock s (ba - 1) with
    | (true, s) => findSignatureLoop n s (ba - 1)
    | (false, s) =>
      match signatureInBlock (ba - 1) s.ni.chip.pagesPerBlock 0 s with
      | (some g, s) => (some (g, ba - 1), s)
      | (none, s) => findSignatureLoop n s (ba - 1)

/-- `nmbm_find_signature`. The loop tests `ba >= limit` before it goes to `ba - 1`, so it looks at one
    block below the limit. The model ends at block 0; with a limit of 0 the driver goes on outside the
    chip. -/
def findSignature (s : State) : Option (Signature × Nat) × State :=
  findSignatureLoop (min s.ni.blockCount (s.ni.blockCount + 1 - signatureLimit s.ni)) s s.ni.blockCount

inductive AttachError where
  | enodev
  | einval
  deriving DecidableEq, Repr

/-- The signature fits the driver and the chip. -/
def signatureFits (g : Signature) (c : Chip) : Bool :=
  g.version == nmbmVer && g.nandSize == c.nandSize && g.blockSize == .ofNat c.blkSize && g.pageSize == .ofNat c.pgSize &&
    g.spareSize == c.oobsize

/-- `nmbm_attach` after `nmbm_init_structure`. -/
def attach (s : State) : Except AttachError Unit × State :=
  match findSignature s with
  | (none, s) =>
    if !s.ni.forceCreate then (.error .enodev, s)
    else
      match createNew s with
      | (true, s) => (.ok (), s)
      | (false, s) => (.error .enodev, s)
  | (some (g, ba), s) =>
    let s := { s with ni.signature := g, ni.signatureBa := ba }
    if signatureFits g s.ni.chip then
      match loadExisting s with
      | (true, s) => (.ok (), s)
      | (false, s) => (.error .enodev, s)
    else (.error .einval, s)

end RainWrt.Nmbm
