import RainWrt.Nmbm.Flash

/-! The management area: writing an info table into a range of blocks, erasing spare blocks, and the
    procedures that keep a main and a backup table: rebuild, rescue, update. -/

namespace RainWrt.Nmbm

/-! ### Ranges -/

/-- A block that failed is marked bad on the chip and in the state table. -/
def retireBlock (s : State) (ba : Nat) : State := setBlockState (markPhysBadBlock s ba) ba blockStBad

def noteMgmt (s : State) (ba : Nat) : State := { s with trace := .mgmt ba s.ni :: s.trace }

/-- One round of `nmbm_write_mgmt_range`: tries to store `chunk` in block `ba`. -/
def writeMgmtBlock (s : State) (ba : Nat) (chunk : Bytes) : Bool × State :=
  if s.ni.good ba then
    match checkBadPhysBlock s ba with
    | (true, s) => (false, setBlockState s ba blockStBad)
    | (false, s) =>
      match eraseBlockAndCheck (noteMgmt s ba) ba with
      | (false, s) => (false, retireBlock s ba)
      | (true, s) =>
        match writeVerifyData s ba chunk with
        | (false, s) => (false, retireBlock s ba)
        | (true, s) => (true, s)
  else (false, s)

/-- The loop of `nmbm_write_mgmt_range`, `n` blocks before the limit. `start` is the block of the first
    chunk once that is stored; the result is the start and the block after the end. -/
def writeMgmtLoop : Nat → State → Nat → List Bytes → Option Nat → Option (Nat × Nat) × State
  | _, s, ba, [], start => (start.map (·, ba), s)
  | 0, s, _, _ :: _, _ => (none, s)
  | n + 1, s, ba, c :: cs, start =>
    match writeMgmtBlock s ba c with
    | (true, s) => writeMgmtLoop n s (ba + 1) cs (some (start.getD ba))
    | (false, s) => writeMgmtLoop n s (ba + 1) (c :: cs) start

/-- `nmbm_write_mgmt_range`. -/
def writeMgmtRange (s : State) (ba limit : Nat) (data : Bytes) : Option (Nat × Nat) × State :=
  writeMgmtLoop (limit - ba) s ba (pieces s.ni.chip.blkSize data) none

/-- `nmbm_write_info_table`: the cached image. -/
def writeInfoTable (s : State) (ba limit : Nat) : Option (Nat × Nat) × State :=
  writeMgmtRange s ba limit s.ni.infoTableCache

/-- One round of `nmbm_erase_range`. -/
def eraseMgmtBlock (s : State) (ba : Nat) : State :=
  if s.ni.good ba then
    match checkBadPhysBlock s ba with
    | (true, s) => setBlockState s ba blockStBad
    | (false, s) =>
      match eraseBlockAndCheck (noteMgmt s ba) ba with
      | (true, s) => s
      | (false, s) => retireBlock s ba
  else s

def eraseLoop : Nat → State → Nat → State
  | 0, s, _ => s
  | n + 1, s, ba => eraseLoop n (eraseMgmtBlock s ba) (ba + 1)

/-- `nmbm_erase_range`. -/
def eraseRange (s : State) (ba limit : Nat) : State := eraseLoop (limit - ba) s ba

/-! ### Rebuild -/

/-- The limit that keeps room for one more table below the mapped blocks. -/
def reserveLimit (ni : Instance) : Nat := sub32 ni.mappingBlocksTopBa ni.chip.tableBlocks

/-- `nmbm_try_reserve_blocks` for the spare blocks of a table that ends at `ba`. -/
def reserveSpare (ni : Instance) (ba : Nat) : Option Nat :=
  tryReserveBlocks ni ba ni.chip.infoTableSpareBlocks (reserveLimit ni)

/-- The second half of `nmbm_rebuild_info_table`: the backup table after the main table. -/
def rebuildBackup (s : State) (mainEnd : Nat) : State :=
  match reserveSpare s.ni mainEnd with
  | none => s
  | some next =>
    match writeInfoTable s next s.ni.mappingBlocksTopBa with
    | (none, s) => s
    | (some (start, stop), s) =>
      eraseRange { s with ni.backupTableBa := start, ni.mappingBlocksBa := stop } mainEnd start

/-- `nmbm_rebuild_info_table`. -/
def rebuildInfoTable (s : State) : Bool × State :=
  let s := { s with ni.mainTableBa := 0, ni.backupTableBa := 0, ni.mappingBlocksBa := s.ni.mappingBlocksTopBa }
  match writeInfoTable s s.ni.mgmtStartBa s.ni.mappingBlocksTopBa with
  | (none, s) => (false, { s with ni.protected := true })
  | (some (start, stop), s) =>
    (true, rebuildBackup (markTablesClean { s with ni.mainTableBa := start, ni.mappingBlocksBa := stop }) stop)

/-! ### Rescue -/

/-- Tries to write the table at `lo + n`, then one block lower at a time down to `lo`. -/
def writeDescending (lo : Nat) : Nat → State → Option (Nat × Nat) × State
  | 0, s => writeInfoTable s lo s.ni.mappingBlocksTopBa
  | n + 1, s =>
    match writeInfoTable s (lo + (n + 1)) s.ni.mappingBlocksTopBa with
    | (some r, s) => (some r, s)
    | (none, s) => writeDescending lo n s

/-- Reserves spare blocks from `lo` on and writes the table behind them, or nearer to `lo`. The outer
    `none` says that nothing could be reserved. -/
def writeBehind (s : State) (lo : Nat) : Option (Option (Nat × Nat)) × State :=
  match reserveSpare s.ni lo with
  | none => (none, s)
  | some w =>
    match writeDescending lo (w - lo) s with
    | (r, s) => (some r, s)

/-- `nmbm_rescue_single_info_table`. -/
def rescueSingleInfoTable (s : State) : Bool × State :=
  match writeInfoTable s s.ni.mgmtStartBa s.ni.mainTableBa with
  | (some (start, stop), s) =>
    let s := { s with ni.backupTableBa := s.ni.mainTableBa, ni.mainTableBa := start }
    let s := markTablesClean s
    (true, eraseRange s stop s.ni.backupTableBa)
  | (none, s) =>
    match writeBehind s s.ni.mappingBlocksBa with
    | (some (some (start, stop)), s) =>
      let s := eraseRange s s.ni.mappingBlocksBa start
      (true, markTablesClean { s with ni.backupTableBa := start, ni.mappingBlocksBa := stop })
    | (_, s) => (false, s)

/-- `nmbm_update_single_info_table`. -/
def updateSingleInfoTable (s : State) (updateMainTable : Bool) : Bool × State :=
  if updateMainTable then
    match writeInfoTable s s.ni.mainTableBa s.ni.backupTableBa with
    | (some (start, _), s) => (true, markTablesClean { s with ni.mainTableBa := start })
    | (none, s) =>
      rescueSingleInfoTable { s with ni.mainTableBa := s.ni.backupTableBa, ni.backupTableBa := 0 }
  else
    match writeInfoTable s s.ni.backupTableBa s.ni.mappingBlocksTopBa with
    | (some (start, stop), s) =>
      (true, markTablesClean { s with ni.backupTableBa := start, ni.mappingBlocksBa := stop })
    | (none, s) => (false, { s with ni.mappingBlocksBa := s.ni.backupTableBa, ni.backupTableBa := 0 })

/-- The backup table becomes the main table. -/
def promoteBackup (s : State) : State := { s with ni.mainTableBa := s.ni.backupTableBa, ni.backupTableBa := 0 }

/-- The last part of `nmbm_rescue_main_info_table`: the new main table, which ends at `mainEnd`, has
    overwritten the temporary one, so a new backup table is written. -/
def rescueBackup (s : State) (mainEnd : Nat) : State :=
  match writeBehind { s with ni.mappingBlocksBa := mainEnd } mainEnd with
  | (some (some (start, stop)), s) =>
    eraseRange { s with ni.backupTableBa := start, ni.mappingBlocksBa := stop } mainEnd start
  | (_, s) => { s with ni.backupTableBa := 0 }

/-- `nmbm_rescue_main_info_table`, which always reports success. -/
def rescueMainInfoTable (s : State) : State :=
  match writeBehind s s.ni.mappingBlocksBa with
  | (some (some (tmpStart, tmpEnd)), s) =>
    let s := { s with ni.mappingBlocksBa := tmpEnd }
    match writeInfoTable s s.ni.mgmtStartBa tmpStart with
    | (none, s) => markTablesClean { s with ni.mainTableBa := tmpStart, ni.backupTableBa := 0 }
    | (some (mainStart, mainEnd), s) =>
      let s := markTablesClean { s with ni.mainTableBa := mainStart }
      if mainEnd ≤ tmpStart then { s with ni.backupTableBa := tmpStart } else rescueBackup s mainEnd
  | (_, s) => promoteBackup s

/-! ### Update -/

/-- The first half of `nmbm_update_info_table_once`: the backup table in its current range. Gives the
    limit of the main table. -/
def updateBackupTable (s : State) : Nat × State :=
  if s.ni.backupTableBa = 0 then (s.ni.mappingBlocksTopBa, s)
  else
    match writeInfoTable s s.ni.backupTableBa s.ni.mappingBlocksTopBa with
    | (none, s) =>
      (s.ni.mappingBlocksTopBa, { s with ni.mappingBlocksBa := s.ni.backupTableBa, ni.backupTableBa := 0 })
    | (some (start, stop), s) =>
      (start, markTablesClean { s with ni.backupTableBa := start, ni.mappingBlocksBa := stop })

/-- The second half, from `write_main_table` on. -/
def updateMainTable (s : State) (limit : Nat) : Bool × State :=
  if s.ni.mainTableBa = 0 then rebuildInfoTable s
  else
    match writeInfoTable s s.ni.mainTableBa limit with
    | (none, s) => if s.ni.backupTableBa = 0 then rebuildInfoTable s else (true, rescueMainInfoTable s)
    | (some (start, stop), s) =>
      let s := { s with ni.mainTableBa := start }
      let s := if s.ni.backupTableBa = 0 then { s with ni.mappingBlocksBa := stop } else s
      (true, markTablesClean s)

/-- `nmbm_update_info_table_once`. -/
def updateInfoTableOnce (s : State) (force : Bool) : Bool × State :=
  match generateInfoTableCache s with
  | (changed, s) =>
    if !changed && !force then (true, s)
    else
      match updateBackupTable s with
      | (limit, s) => updateMainTable s limit

/-- The number of blocks recorded as good. -/
def Instance.goodCount (ni : Instance) : Nat := (List.range (16 * ni.blockState.length)).countP ni.good

/-- The loop of `nmbm_update_info_table`, at most `n` tests of its condition. -/
def updateLoop : Nat → State → Bool × State
  | 0, s => (false, s)
  | n + 1, s =>
    if s.ni.dirty then
      match updateInfoTableOnce s false with
      | (false, s) => (false, s)
      | (true, s) => updateLoop n s
    else (true, s)

/-- `nmbm_update_info_table`. Every pass but the last finds a new bad block, so the loop ends within the
    given number of rounds. -/
def updateInfoTable (s : State) : Bool × State :=
  if s.ni.protected then (true, s) else updateLoop (s.ni.goodCount + 2) s

end RainWrt.Nmbm
