import RainWrt.Bytes

/-! `bcm4908img`: an image is a body with bootfs, padding and rootfs, and a tail with the checksum. -/

namespace RainWrt.Bcm4908img

/-! ### CRC32 -/

def crc32Tbl : List UInt32 := [
  0x00000000, 0x77073096, 0xee0e612c, 0x990951ba, 0x076dc419, 0x706af48f, 0xe963a535, 0x9e6495a3,
  0x0edb8832, 0x79dcb8a4, 0xe0d5e91e, 0x97d2d988, 0x09b64c2b, 0x7eb17cbd, 0xe7b82d07, 0x90bf1d91,
  0x1db71064, 0x6ab020f2, 0xf3b97148, 0x84be41de, 0x1adad47d, 0x6ddde4eb, 0xf4d4b551, 0x83d385c7,
  0x136c9856, 0x646ba8c0, 0xfd62f97a, 0x8a65c9ec, 0x14015c4f, 0x63066cd9, 0xfa0f3d63, 0x8d080df5,
  0x3b6e20c8, 0x4c69105e, 0xd56041e4, 0xa2677172, 0x3c03e4d1, 0x4b04d447, 0xd20d85fd, 0xa50ab56b,
  0x35b5a8fa, 0x42b2986c, 0xdbbbc9d6, 0xacbcf940, 0x32d86ce3, 0x45df5c75, 0xdcd60dcf, 0xabd13d59,
  0x26d930ac, 0x51de003a, 0xc8d75180, 0xbfd06116, 0x21b4f4b5, 0x56b3c423, 0xcfba9599, 0xb8bda50f,
  0x2802b89e, 0x5f058808, 0xc60cd9b2, 0xb10be924, 0x2f6f7c87, 0x58684c11, 0xc1611dab, 0xb6662d3d,
  0x76dc4190, 0x01db7106, 0x98d220bc, 0xefd5102a, 0x71b18589, 0x06b6b51f, 0x9fbfe4a5, 0xe8b8d433,
  0x7807c9a2, 0x0f00f934, 0x9609a88e, 0xe10e9818, 0x7f6a0dbb, 0x086d3d2d, 0x91646c97, 0xe6635c01,
  0x6b6b51f4, 0x1c6c6162, 0x856530d8, 0xf262004e, 0x6c0695ed, 0x1b01a57b, 0x8208f4c1, 0xf50fc457,
  0x65b0d9c6, 0x12b7e950, 0x8bbeb8ea, 0xfcb9887c, 0x62dd1ddf, 0x15da2d49, 0x8cd37cf3, 0xfbd44c65,
  0x4db26158, 0x3ab551ce, 0xa3bc0074, 0xd4bb30e2, 0x4adfa541, 0x3dd895d7, 0xa4d1c46d, 0xd3d6f4fb,
  0x4369e96a, 0x346ed9fc, 0xad678846, 0xda60b8d0, 0x44042d73, 0x33031de5, 0xaa0a4c5f, 0xdd0d7cc9,
  0x5005713c, 0x270241aa, 0xbe0b1010, 0xc90c2086, 0x5768b525, 0x206f85b3, 0xb966d409, 0xce61e49f,
  0x5edef90e, 0x29d9c998, 0xb0d09822, 0xc7d7a8b4, 0x59b33d17, 0x2eb40d81, 0xb7bd5c3b, 0xc0ba6cad,
  0xedb88320, 0x9abfb3b6, 0x03b6e20c, 0x74b1d29a, 0xead54739, 0x9dd277af, 0x04db2615, 0x73dc1683,
  0xe3630b12, 0x94643b84, 0x0d6d6a3e, 0x7a6a5aa8, 0xe40ecf0b, 0x9309ff9d, 0x0a00ae27, 0x7d079eb1,
  0xf00f9344, 0x8708a3d2, 0x1e01f268, 0x6906c2fe, 0xf762575d, 0x806567cb, 0x196c3671, 0x6e6b06e7,
  0xfed41b76, 0x89d32be0, 0x10da7a5a, 0x67dd4acc, 0xf9b9df6f, 0x8ebeeff9, 0x17b7be43, 0x60b08ed5,
  0xd6d6a3e8, 0xa1d1937e, 0x38d8c2c4, 0x4fdff252, 0xd1bb67f1, 0xa6bc5767, 0x3fb506dd, 0x48b2364b,
  0xd80d2bda, 0xaf0a1b4c, 0x36034af6, 0x41047a60, 0xdf60efc3, 0xa867df55, 0x316e8eef, 0x4669be79,
  0xcb61b38c, 0xbc66831a, 0x256fd2a0, 0x5268e236, 0xcc0c7795, 0xbb0b4703, 0x220216b9, 0x5505262f,
  0xc5ba3bbe, 0xb2bd0b28, 0x2bb45a92, 0x5cb36a04, 0xc2d7ffa7, 0xb5d0cf31, 0x2cd99e8b, 0x5bdeae1d,
  0x9b64c2b0, 0xec63f226, 0x756aa39c, 0x026d930a, 0x9c0906a9, 0xeb0e363f, 0x72076785, 0x05005713,
  0x95bf4a82, 0xe2b87a14, 0x7bb12bae, 0x0cb61b38, 0x92d28e9b, 0xe5d5be0d, 0x7cdcefb7, 0x0bdbdf21,
  0x86d3d2d4, 0xf1d4e242, 0x68ddb3f8, 0x1fda836e, 0x81be16cd, 0xf6b9265b, 0x6fb077e1, 0x18b74777,
  0x88085ae6, 0xff0f6a70, 0x66063bca, 0x11010b5c, 0x8f659eff, 0xf862ae69, 0x616bffd3, 0x166ccf45,
  0xa00ae278, 0xd70dd2ee, 0x4e048354, 0x3903b3c2, 0xa7672661, 0xd06016f7, 0x4969474d, 0x3e6e77db,
  0xaed16a4a, 0xd9d65adc, 0x40df0b66, 0x37d83bf0, 0xa9bcae53, 0xdebb9ec5, 0x47b2cf7f, 0x30b5ffe9,
  0xbdbdf21c, 0xcabac28a, 0x53b39330, 0x24b4a3a6, 0xbad03605, 0xcdd70693, 0x54de5729, 0x23d967bf,
  0xb3667a2e, 0xc4614ab8, 0x5d681b02, 0x2a6f2b94, 0xb40bbe37, 0xc30c8ea1, 0x5a05df1b, 0x2d02ef8d
]

def bcm4908imgCrc32 (crc : UInt32) (buf : Bytes) : UInt32 :=
  buf.foldl (fun crc b => crc32Tbl.getD ((crc ^^^ b.toUInt32) &&& 0xff).toNat 0 ^^^ (crc >>> 8)) crc

/-! ### Files -/

inductive Err | EIO | EPROTO | EINVAL | ENOENT
deriving DecidableEq, Repr

open Err

/-- `fread` of exactly `size` bytes at a position. -/
def fread (img : Bytes) (off size : Nat) : Except Err Bytes :=
  if off + size ≤ img.length then .ok (slice img off size) else .error EIO

/-- A big-endian number. -/
def be (b : Bytes) : Nat := b.foldl (fun n x => n * 256 + x.toNat) 0

/-- `struct bcm4908img_tail`. -/
structure Tail where
  crc32 : UInt32
  version : UInt32 := 0x00005732
  chipId : UInt32 := 0x4908
  flashType : UInt32 := 3
  flags : UInt32 := 0x2

/-- `sizeof(struct bcm4908img_tail)`. -/
def tailSize : Nat := 20

def Tail.bytes (tail : Tail) : Bytes := unwords [tail.crc32, tail.version, tail.chipId, tail.flashType, tail.flags]

def Tail.ofBytes (b : Bytes) : Tail := ⟨word b 0, word b 4, word b 8, word b 12, word b 16⟩

/-! ### Create -/

/-- An option of `create`. The numbers are what `strtol` gives. -/
inductive Opt
  | f (path : String)
  | a (alignment : Int)
  | A (offset : Int)

/-- What `create` prints for an option that it cannot follow. -/
inductive Report
  | file (path : String)
  | zeros
  | length (curOffset : Nat) (offset : Int)
deriving DecidableEq

/-- The file that is written and the variables of `create`. -/
structure Creator where
  trx : Bytes := []
  crc32 : UInt32 := 0xffffffff
  curOffset : Nat := 0
  reports : List Report := []

/-- A number that is passed as `size_t`. -/
def sizeT (n : Int) : Nat := (n % 2 ^ 64).toNat

/-- The loop of `bcm4908img_create_append_file` over the pieces that `fread` returns. -/
def appendPieces (trx : Bytes) (crc : UInt32) (length : Nat) : List Bytes → Bytes × UInt32 × Nat
  | [] => (trx, crc, length)
  | buf :: rest => appendPieces (trx ++ buf) (bcm4908imgCrc32 crc buf) (length + buf.length) rest

/-- `bcm4908img_create_append_file`, with the content of the file if it can be opened. -/
def appendFile (file : Option Bytes) (trx : Bytes) (crc : UInt32) : Option (Bytes × UInt32 × Nat) :=
  file.map fun data => appendPieces trx crc 0 (pieces 1024 data)

/-- `bcm4908img_create_append_zeros`. No object is larger than `PTRDIFF_MAX`. -/
def appendZeros (trx : Bytes) (length : Nat) : Option (Bytes × Nat) :=
  if length < 2 ^ 63 then some (trx ++ List.replicate length 0, length) else none

/-- `bcm4908img_create_align`. The division by an alignment of 0 ends the program. -/
def align (trx : Bytes) (curOffset alignment : Nat) : Option (Bytes × Nat) :=
  if curOffset &&& sizeT ((alignment : Int) - 1) ≠ 0 then
    if alignment = 0 then none else appendZeros trx (alignment - curOffset % alignment)
  else some (trx, 0)

/-- One round of the loop over the options. -/
def Creator.option (files : String → Option Bytes) (s : Creator) : Opt → Creator
  | .f path =>
    match appendFile (files path) s.trx s.crc32 with
    | none => { s with reports := s.reports ++ [.file path] }
    | some (trx, crc32, bytes) => { s with trx, crc32, curOffset := s.curOffset + bytes }
  | .a alignment =>
    match align s.trx s.curOffset (sizeT alignment) with
    | none => { s with reports := s.reports ++ [.zeros] }
    | some (trx, bytes) => { s with trx, curOffset := s.curOffset + bytes }
  | .A offset =>
    let bytes : Int := offset - s.curOffset
    if bytes < 0 then { s with reports := s.reports ++ [.length s.curOffset offset] }
    else
      match appendZeros s.trx bytes.toNat with
      | none => { s with reports := s.reports ++ [.zeros] }
      | some (trx, bytes) => { s with trx, curOffset := s.curOffset + bytes }

def options (files : String → Option Bytes) (opts : List Opt) : Creator := opts.foldl (Creator.option files) {}

/-- The file when `create` returns. -/
def Creator.image (s : Creator) : Bytes := s.trx ++ Tail.bytes { crc32 := s.crc32 }

/-- `bcm4908img_create` of a new image, which reports nothing. -/
def create (files : String → Option Bytes) (opts : List Opt) : Option Bytes :=
  if (options files opts).reports = [] then some (options files opts).image else none

/-! ### Parse -/

/-- The distance of the offsets at which file systems are looked for. -/
def stride : Nat := 0x20000

/-- `struct bcm4908img_info`. -/
structure Info where
  cferomOffset : Nat
  bootfsOffset : Nat
  paddingOffset : Nat
  rootfsOffset : Nat
  tailOffset : Nat
  crc32 : UInt32
  tail : Tail

/-- Where a header of the vendor ends. -/
def cferomOffset (img : Bytes) : Nat := if be (slice img 0 4) = 0x2a23245e then be (slice img 4 4) else 0

/-- `sizeof(struct linksys_tail)`. -/
def linksysSize : Nat := 256

/-- `".LINKSYS."`. -/
def linksysMagic : Bytes := [0x2e, 0x4c, 0x49, 0x4e, 0x4b, 0x53, 0x59, 0x53, 0x2e]

/-- Where the tail begins, which a tail of the vendor may follow. -/
def tailOffset (img : Bytes) : Nat :=
  if slice img (img.length - linksysSize) 9 = linksysMagic then img.length - tailSize - linksysSize else img.length - tailSize

/-- The loop that looks for JFFS2. -/
def findBootfs (img : Bytes) (tail off : Nat) : Except Err Nat :=
  if off < tail then do
    if be (← fread img off 2) = 0x8519 then return off
    else findBootfs img tail (off + stride)
  else .error .EPROTO
termination_by tail - off
decreasing_by
  rw [stride]
  omega

/-- `bcm4908img_is_all_ff`. -/
def isAllFf (buf : Bytes) : Bool := buf.all (· = 0xff)

/-- The loop that looks for UBI and for the padding before it. Once the padding is found only the magic is read. -/
def findRootfs (img : Bytes) (tail off padding : Nat) : Except Err (Nat × Nat) :=
  if off < tail then do
    let buf ← fread img off (if padding = 0 then 256 else 4)
    let padding := if padding = 0 ∧ isAllFf buf then off else padding
    if be (buf.take 4) = 0x55424923 then return (off, padding)
    else findRootfs img tail (off + stride) padding
  else .error .EPROTO
termination_by tail - off
decreasing_by
  rw [stride]
  omega

/-- The checksum of `length` bytes, read in pieces. -/
def sum (img : Bytes) (off length : Nat) : Except Err UInt32 := do
  return (pieces 1024 (← fread img off length)).foldl bcm4908imgCrc32 0xffffffff

/-- `bcm4908img_parse`. The first and the last 1024 bytes are read for the formats of vendors. -/
def parse (img : Bytes) : Except Err Info := do
  let _ ← fread img 0 1024
  let _ ← fread img (img.length - 1024) 1024
  let cferom := cferomOffset img
  let tail := tailOffset img
  let bootfs ← findBootfs img tail cferom
  let (rootfs, padding) ← findRootfs img tail bootfs 0
  let crc32 ← sum img cferom (tail - cferom)
  let t := Tail.ofBytes (← fread img tail tailSize)
  if crc32 ≠ t.crc32 then .error .EPROTO
  else return ⟨cferom, bootfs, padding, rootfs, tail, crc32, t⟩

/-! ### Extract -/

/-- The offset and the length of what is extracted. -/
def extractRange (info : Info) (type : String) : Except Err (Nat × Nat) := do
  let (offset, length) ←
    if type = "cferom" then
      if info.bootfsOffset - info.cferomOffset = 0 then .error .ENOENT
      else pure (info.cferomOffset, info.bootfsOffset - info.cferomOffset)
    else if type = "bootfs" then
      pure (info.bootfsOffset, (if info.paddingOffset = 0 then info.rootfsOffset else info.paddingOffset) - info.bootfsOffset)
    else if type = "rootfs" then pure (info.rootfsOffset, info.tailOffset - info.rootfsOffset)
    else if type = "firmware" then pure (info.bootfsOffset, info.tailOffset - info.bootfsOffset)
    else .error .EINVAL
  if length = 0 then .error .EINVAL else return (offset, length)

/-- `bcm4908img_extract`: what is written to the standard output. -/
def extract (img : Bytes) (type : String) : Except Err Bytes := do
  let info ← parse img
  let (offset, length) ← extractRange info type
  fread img offset length

end RainWrt.Bcm4908img
