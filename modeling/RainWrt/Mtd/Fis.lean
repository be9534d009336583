import RainWrt.Bytes

/-! `fis.c`: the partitions in a table of a boot loader are replaced by others. The table is the block of flash that is mapped, as
    its slots of 256 bytes. An access outside of the block has no result. -/

namespace RainWrt.Mtd

/-- `struct fis_image_desc`, with names of 16 bytes. -/
structure FisImageDesc where
  name : Bytes
  flashBase : UInt32
  memBase : UInt32
  size : UInt32
  entryPoint : UInt32
  dataLength : UInt32
  pad : Bytes
  desc : UInt32
  file : UInt32
deriving DecidableEq

/-- `struct fis_part` -/
structure FisPart where
  name : Bytes
  loadaddr : UInt32
  size : UInt32
  length : UInt32
  crc : UInt32
deriving DecidableEq

/-- `sizeof(struct fis_image_desc)` -/
def descSize : Nat := 256

/-- A slot with one byte all over. -/
def FisImageDesc.fill (c : UInt8) : FisImageDesc :=
  let word : UInt32 := c.toUInt32 * 0x01010101
  ⟨List.replicate 16 c, word, word, word, word, word, List.replicate 212 c, word, word⟩

/-- The loops go on while there is a name. -/
def FisImageDesc.used (d : FisImageDesc) : Bool := d.name.head?.getD 0 ≠ 0 && d.name.head?.getD 0 ≠ 0xff

/-- `!strncmp` of two names. -/
def sameName (a b : Bytes) : Bool := a.takeWhile (· ≠ 0) = b.takeWhile (· ≠ 0)

/-- An entry with the name of an old partition. -/
def FisImageDesc.isOld (old : List FisPart) (d : FisImageDesc) : Bool := old.any fun p => sameName d.name p.name

/-! ### fis_validate -/

/-- The loop that counts the entries of old partitions. -/
def countOld (old : List FisPart) : List FisImageDesc → Nat → Nat
  | [], found => found
  | d :: rest, found => if d.used then countOld old rest (if d.isOld old then found + 1 else found) else found

/-- `fis_validate` -/
def fisValidate (block : List FisImageDesc) (old new : List FisPart) : Int :=
  if new.dropLast.any fun p => p.size = 0 then -1
  else if countOld old block 0 = old.length then 1
  else -1

/-! ### fis_remap -/

/-- `offset`, and the slots `first` and `last`. -/
structure OldEntries where
  offset : UInt32
  first : Option Nat
  last : Option Nat
deriving DecidableEq

/-- The loop that looks for the old partitions, from the slot `desc` on. -/
def findOld (old : List FisPart) : (desc : Nat) → List FisImageDesc → OldEntries → OldEntries
  | _, [], s => s
  | desc, d :: rest, s =>
    if d.used then
      let s := if s.offset < d.flashBase then { s with offset := d.flashBase } else s
      findOld old (desc + 1) rest
        (if d.isOld old then { s with last := some desc, first := s.first.or (some desc) } else s)
    else s

/-- The loop that determines where the available space ends. -/
def findEnd (lastBase : UInt32) : List FisImageDesc → UInt32 → UInt32
  | [], offset => offset
  | d :: rest, offset =>
    if d.used then findEnd lastBase rest (if lastBase < d.flashBase && d.flashBase < offset then d.flashBase else offset)
    else offset

/-- A difference of pointers as `size_t`. -/
def sizeT (bits : Nat) (x : Int) : Nat := (x % 2 ^ bits).toNat

/-- `memmove` of `n` bytes between slots. -/
def memmove (block : List FisImageDesc) (dst src n : Nat) : Option (List FisImageDesc) :=
  let size := descSize * block.length
  if descSize * src + n ≤ size ∧ descSize * dst + n ≤ size then
    let k := n / descSize
    some (block.take dst ++ (block.drop src).take k ++ block.drop (dst + k))
  else none

/-- `memset` of `n` bytes from a slot on. -/
def memset (block : List FisImageDesc) (dst : Nat) (c : UInt8) (n : Nat) : Option (List FisImageDesc) :=
  if descSize * dst + n ≤ descSize * block.length then
    let k := n / descSize
    some (block.take dst ++ List.replicate k (.fill c) ++ block.drop (dst + k))
  else none

/-- The entries behind the old ones are moved from `last` to `desc`. -/
def moveRest (bits : Nat) (block : List FisImageDesc) (desc last : Nat) : Option (List FisImageDesc) :=
  if desc = last then some block
  else do
    let tmp := if last < desc then desc else last
    let block ← memmove block desc last (sizeT bits (descSize * (block.length - tmp : Int)))
    if desc < last then
      let tmp := block.length - (last - desc)
      memset block tmp 0xff (sizeT bits (descSize * (tmp - block.length : Int)))
    else return block

/-- The entry of a new partition. -/
def newDesc (part : FisPart) (offset size : UInt32) : FisImageDesc :=
  let size := if 0 < part.size then part.size else size
  { FisImageDesc.fill 0 with
    name := part.name
    file := part.crc
    flashBase := offset
    memBase := part.loadaddr
    entryPoint := part.loadaddr
    size := size
    dataLength := if 0 < part.length then part.length else size }

/-- The loop that writes the new partitions. -/
def writeNew : (desc : Nat) → (new : List FisPart) → (offset size : UInt32) → List FisImageDesc → Option (List FisImageDesc)
  | _, [], _, _, block => some block
  | desc, part :: new, offset, size, block =>
    if desc < block.length then
      let d := newDesc part offset size
      writeNew (desc + 1) new (offset + d.size) (size - d.size) (block.set desc d)
    else none

/-- `fis_remap`: the block that it leaves. -/
def fisRemap (bits : Nat) (block : List FisImageDesc) (old new : List FisPart) : Option (List FisImageDesc) := do
  let s := findOld old 0 block ⟨0, none, none⟩
  let first ← s.first
  let last ← s.last
  let a ← block[first]?
  let b ← block[last]?
  let (firstFb, lastFb) := if b.flashBase < a.flashBase then (b, a) else (a, b)
  let size := findEnd lastFb.flashBase block s.offset - firstFb.flashBase
  let block ← moveRest bits block (first + new.length) (last + 1)
  writeNew first new firstFb.flashBase size block

end RainWrt.Mtd
