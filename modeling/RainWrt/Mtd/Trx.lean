import RainWrt.Mtd

/-! `trx.c`: the length and the checksum of a header in flash are made those of the data behind it. An access outside of a buffer has
    no result. -/

namespace RainWrt.Mtd.Trx

/-- A flash, and whether it is NAND flash, which can have bad blocks. -/
structure Device extends Nand where
  nand : Bool

/-- What there is to the call: the word size, the device, the bytes of `opt_trxmagic`, and which amounts of memory there are. -/
structure Call where
  bits : Nat
  d : Device
  magic : Bytes
  malloc : Nat → Bool

/-- How `mtd_fixtrx` ends: with `exit`, with nothing to do, or with another content of the flash, a block of which was erased. -/
inductive Outcome
  | rejected
  | alreadyFixed
  | fixed (flash : Bytes) (erased : Nat)
deriving DecidableEq

/-- The `n` bytes at `pos`, if they are all there. -/
def readAt (buf : Bytes) (pos n : Nat) : Option Bytes := if pos + n ≤ buf.length then some (slice buf pos n) else none

/-- Stores a field, if its bytes are all there. -/
def storeAt (buf : Bytes) (pos : Nat) (field : Bytes) : Option Bytes :=
  if pos + field.length ≤ buf.length then some (writeAt buf pos field) else none

/-- `mtd_block_is_bad`, also for other flash. -/
def Device.blockIsBad (d : Device) (offset : Nat) : Option Bool := if d.nand then mtdBlockIsBad d.toNand offset else some false

/-- Whether `mtd_erase_block` erases a block. The start has 32 bits. -/
def Device.erases (d : Device) (offset : Nat) : Bool :=
  let start := offset % 2 ^ 32
  start % d.erasesize = 0 && start < d.size && !(d.nand && d.bad (start / d.erasesize))

/-- `offset & (erasesize - 1)` -/
def Device.inBlock (d : Device) (offset : Nat) : Nat := offset &&& (d.erasesize - 1)

/-- `offset & ~(erasesize - 1)` -/
def Device.blockOffset (d : Device) (offset : Nat) : Nat := offset - d.inBlock offset

/-- The loop that reads from the good blocks. -/
def readData (d : Device) (flash : Bytes) (dataOffset dataSize : Nat) : Option Bytes :=
  if dataSize = 0 then some []
  else
    let readChunk := min (d.erasesize - d.inBlock dataOffset) dataSize
    if 0 < readChunk then
      match d.blockIsBad (d.blockOffset dataOffset) with
      | none => none
      | some isBad =>
        match if isBad then some [] else readAt flash dataOffset readChunk with
        | none => none
        | some chunk => (readData d flash (dataOffset + readChunk) (dataSize - readChunk)).map (chunk ++ ·)
    else none
termination_by dataSize

/-- `crc32buf` -/
def crc32buf (buf : Bytes) : UInt32 := crc32Le 0xffffffff buf

/-- The fields `len` and `crc32` for some data. -/
def lenField (data : Bytes) : Bytes := le32 (.ofNat (data.length + 12))

def crcField (data : Bytes) : Bytes := le32 (crc32buf data)

/-- The header in the block has the fields for the data. -/
def headerFixed (block : Bytes) (offset : Nat) (data : Bytes) : Option Bool := do
  let len ← readAt block (offset + 4) 4
  if len = lenField data then
    let crc ← readAt block (offset + 8) 4
    return crc = crcField data
  else return false

/-- The block with these fields, if they are others. -/
def fixHeader (block : Bytes) (offset : Nat) (data : Bytes) : Option (Option Bytes) := do
  if ← headerFixed block offset data then return none
  else
    let block ← storeAt block (offset + 4) (lenField data)
    let block ← storeAt block (offset + 8) (crcField data)
    return some block

/-- The size of the data: what is given and the 16 bytes of the header that are summed up too, or the rest of a block. -/
def Call.dataSize (c : Call) (dataSize : Nat) : Nat :=
  if dataSize ≠ 0 then (dataSize + 16) % 2 ^ c.bits else (2 ^ c.bits + c.d.erasesize - 12) % 2 ^ c.bits

/-- The block is written back. -/
def writeBack (d : Device) (flash : Bytes) (offset : Nat) : Option Bytes → Outcome
  | none => .alreadyFixed
  | some block =>
    if d.erases (d.blockOffset offset) then .fixed (writeAt flash (d.blockOffset offset) block) (d.blockOffset offset / d.erasesize)
    else .rejected

/-- `mtd_fixtrx`, on the flash. -/
def mtdFixtrx (c : Call) (flash : Bytes) (offset dataSize : Nat) : Option Outcome :=
  let dataOffset := (offset + 12) % 2 ^ c.bits
  let dataSize := c.dataSize dataSize
  if c.d.size < (dataOffset + dataSize) % 2 ^ c.bits then some .rejected
  else if !c.malloc c.d.erasesize then some .rejected
  else
    match readAt flash (c.d.blockOffset offset) c.d.erasesize with
    | none => some .rejected
    | some block =>
      match readAt block (c.d.inBlock offset) 4 with
      | none => none
      | some magic =>
        if magic ≠ c.magic then some .rejected
        else if !c.malloc dataSize then some .rejected
        else
          match readData c.d flash dataOffset dataSize with
          | none => some .rejected
          | some data => (fixHeader block (c.d.inBlock offset) data).map (writeBack c.d flash offset)

end RainWrt.Mtd.Trx
