import RainWrt.Bytes

/-! The two tables that the EN75 driver keeps on the chip: the BBT lists the factory bad blocks, the BMT
    the worn blocks with their replacements. They are stored as they stand in memory, so the words are
    in host order, which is big-endian here. -/

namespace RainWrt.En75

def maxBmtSize : Nat := 256
def maxBbtSize : Nat := 1000

/-! ### Words -/

def be16 (w : UInt16) : Bytes := [.ofNat (w.toNat / 256), .ofNat (w.toNat % 256)]

def be32 (w : UInt32) : Bytes :=
  [.ofNat (w.toNat / 16777216), .ofNat (w.toNat / 65536 % 256), .ofNat (w.toNat / 256 % 256), .ofNat (w.toNat % 256)]

/-- The byte at an offset; a buffer is never read behind its end. -/
def byteAt (buf : Bytes) (off : Nat) : UInt8 := buf.getD off 0

def be16At (buf : Bytes) (off : Nat) : UInt16 := .ofNat ((byteAt buf off).toNat * 256 + (byteAt buf (off + 1)).toNat)

def be32At (buf : Bytes) (off : Nat) : UInt32 :=
  .ofNat ((byteAt buf off).toNat * 16777216 + (byteAt buf (off + 1)).toNat * 65536 + (byteAt buf (off + 2)).toNat * 256 + (byteAt buf (off + 3)).toNat)

/-- `count` bytes from an offset on. -/
def bytesAt (buf : Bytes) (off count : Nat) : Bytes := (List.range count).map fun i => byteAt buf (off + i)

/-! ### BMT -/

structure BmtEntry where
  /-- `from`: the bad block which is being mapped. -/
  src : UInt16
  /-- `to`: the block in the reserve area that is being used. -/
  dst : UInt16
  deriving DecidableEq, Repr

def BmtEntry.zero : BmtEntry := ⟨0, 0⟩

def BmtEntry.bytes (e : BmtEntry) : Bytes := be16 e.src ++ be16 e.dst

/-- `struct bmt_table`. -/
@[ext]
structure BmtTable where
  signature : Bytes
  signature_length : signature.length = 3
  version : UInt8
  badCount : UInt8
  size : UInt8
  checksum : UInt8
  reserved : Bytes
  reserved_length : reserved.length = 13
  table : List BmtEntry
  table_length : table.length = maxBmtSize
  deriving DecidableEq

namespace BmtTable

theorem length_zeros : (List.replicate 13 (0 : UInt8)).length = 13 := List.length_replicate

def bmtSignature : Bytes := [0x42, 0x4d, 0x54]

/-- Memory that nothing has been read into. -/
def blank : BmtTable where
  signature := [0, 0, 0]
  signature_length := rfl
  version := 0
  badCount := 0
  size := 0
  checksum := 0
  reserved := List.replicate 13 0
  reserved_length := length_zeros
  table := List.replicate maxBmtSize .zero
  table_length := by simp

/-- The entries that are in use. -/
def entries (t : BmtTable) : List BmtEntry := t.table.take t.size.toNat

/-- `bmt_checksum`. -/
def bmtChecksum (t : BmtTable) (checkEntries : Nat) : UInt8 :=
  ((t.table.take checkEntries).flatMap BmtEntry.bytes).foldl (· + ·) (t.version + t.size)

def bytes (t : BmtTable) : Bytes :=
  t.signature ++ [t.version, t.badCount, t.size, t.checksum] ++ t.reserved ++ t.table.flatMap BmtEntry.bytes

/-- `sizeof(struct bmt_table)`. -/
def byteSize : Nat := 1044

def ofBytes (buf : Bytes) : BmtTable where
  signature := bytesAt buf 0 3
  signature_length := by simp [bytesAt]
  version := byteAt buf 3
  badCount := byteAt buf 4
  size := byteAt buf 5
  checksum := byteAt buf 6
  reserved := bytesAt buf 7 13
  reserved_length := by simp [bytesAt]
  table := (List.range maxBmtSize).map fun i => ⟨be16At buf (20 + 4 * i), be16At buf (20 + 4 * i + 2)⟩
  table_length := by simp

end BmtTable

/-- `try_parse_bmt`. -/
def tryParseBmt (buf : Bytes) : Option BmtTable :=
  if buf.length < BmtTable.byteSize then none
  else
    let workspace := BmtTable.ofBytes buf
    if workspace.signature ≠ BmtTable.bmtSignature then none
    else if workspace.checksum ≠ workspace.bmtChecksum workspace.size.toNat then none
    else some workspace

/-! ### BBT -/

/-- `struct bbt_table`. -/
structure BbtTable where
  signature : Bytes
  signature_length : signature.length = 4
  checksum : UInt32
  version : UInt8
  size : UInt8
  reserved : Bytes
  reserved_length : reserved.length = 2
  table : List UInt16
  table_length : table.length = maxBbtSize
  deriving DecidableEq

namespace BbtTable

theorem length_zeros : (List.replicate maxBbtSize (0 : UInt16)).length = maxBbtSize := List.length_replicate

def bbtSignature : Bytes := [0x52, 0x41, 0x57, 0x42]

/-- Memory that nothing has been read into. -/
def blank : BbtTable where
  signature := [0, 0, 0, 0]
  signature_length := rfl
  checksum := 0
  version := 0
  size := 0
  reserved := [0, 0]
  reserved_length := rfl
  table := List.replicate maxBbtSize 0
  table_length := length_zeros

/-- The bad blocks of the table. -/
def blocks (t : BbtTable) : List UInt16 := t.table.take t.size.toNat

/-- `bbt_checksum`. -/
def bbtChecksum (t : BbtTable) : UInt16 :=
  (t.table.flatMap be16).foldl (fun sum b => sum + b.toUInt16) (t.version.toUInt16 + t.size.toUInt16)

/-- `sort_bbt`: the entries in use, in ascending order. -/
def sortBbt (t : BbtTable) : BbtTable :=
  { t with
    table := (t.blocks.insertionSort fun a b => a ≤ b) ++ t.table.drop t.size.toNat
    table_length := by
      simp only [blocks, List.length_append, List.length_insertionSort, List.length_take, List.length_drop, t.table_length]
      omega }

def bytes (t : BbtTable) : Bytes :=
  t.signature ++ be32 t.checksum ++ [t.version, t.size] ++ t.reserved ++ t.table.flatMap be16

/-- `sizeof(struct bbt_table)`. -/
def byteSize : Nat := 2012

def ofBytes (buf : Bytes) : BbtTable where
  signature := bytesAt buf 0 4
  signature_length := by simp [bytesAt]
  checksum := be32At buf 4
  version := byteAt buf 8
  size := byteAt buf 9
  reserved := bytesAt buf 10 2
  reserved_length := by simp [bytesAt]
  table := (List.range maxBbtSize).map fun i => be16At buf (12 + 2 * i)
  table_length := by simp

end BbtTable

/-- `try_parse_bbt`. -/
def tryParseBbt (buf : Bytes) : Option BbtTable :=
  if buf.length < BbtTable.byteSize then none
  else
    let workspace := BbtTable.ofBytes buf
    if workspace.signature ≠ BbtTable.bbtSignature then none
    else if workspace.checksum ≠ workspace.bbtChecksum.toUInt32 then none
    else some workspace.sortBbt

end RainWrt.En75
