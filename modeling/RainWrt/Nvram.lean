import RainWrt.Bytes

/-! The `nvram` library: variables in a hash table, and the partition that they are written to. -/

namespace RainWrt.Nvram

/-- The bytes of a text. -/
def ascii (s : String) : Bytes := s.toList.map fun c => c.toNat.toUInt8

/-- `nvram_tuple_t`. -/
structure Tuple where
  name : Bytes
  value : Bytes
  deriving DecidableEq

def hash (s : Bytes) : UInt32 := s.foldl (fun h c => 31 * h + c.toUInt32) 0

/-- The chain of the hash table where a name is looked for. -/
def bucket (name : Bytes) : Nat := (hash name).toNat % 257

/-- `nvram_handle_t`, with the bytes that are mapped. -/
structure Handle where
  mem : Bytes
  offset : Nat
  chain : Nat → List Tuple := fun _ => []

namespace Handle

/-- `h->length - h->offset`. -/
def space (h : Handle) : Nat := h.mem.length - h.offset

/-- `nvram_get`. -/
def get (h : Handle) (name : Bytes) : Option Bytes := ((h.chain (bucket name)).find? (·.name = name)).map (·.value)

/-- The value of the first tuple with the name. -/
def replace (name value : Bytes) : List Tuple → List Tuple
  | [] => []
  | t :: c => if t.name = name then { t with value } :: c else t :: replace name value c

/-- The chain behind `nvram_set`. -/
def setChain (name value : Bytes) (c : List Tuple) : List Tuple :=
  if c.any (·.name = name) then replace name value c else { name, value } :: c

/-- `nvram_set`. -/
def set (h : Handle) (name value : Bytes) : Int × Handle :=
  if value.length + 1 > h.space then (-12, h)
  else (0, { h with chain := Function.update h.chain (bucket name) (setChain name value (h.chain (bucket name))) })

/-- `nvram_unset`. -/
def unset (h : Handle) (name : Bytes) : Handle :=
  { h with chain := Function.update h.chain (bucket name) ((h.chain (bucket name)).eraseP (·.name = name)) }

/-- The chains, in the order of the hash table. -/
def chains (h : Handle) : List (List Tuple) := (List.range 257).map h.chain

end Handle

/-! ### Numbers in texts -/

def isspace (c : UInt8) : Bool := c = 32 ∨ 9 ≤ c ∧ c ≤ 13

/-- The value of a digit, in a base up to 16. -/
def digit (base : Nat) (c : UInt8) : Option Nat :=
  let v := c.toNat
  let d := if 48 ≤ v ∧ v ≤ 57 then v - 48 else if 65 ≤ v ∧ v ≤ 70 then v - 55 else if 97 ≤ v ∧ v ≤ 102 then v - 87 else base
  if d < base then some d else none

def number (base : Nat) : (value : Nat) → Bytes → Nat
  | value, [] => value
  | value, c :: s => match digit base c with
    | some d => number base (value * base + d) s
    | none => value

/-- `strtoul` in base 0, for an `unsigned long` of 32 bits. -/
def strtoul (s : Bytes) : UInt32 :=
  let s := s.dropWhile isspace
  let (negative, s) := match s with
    | 43 :: s => (false, s)
    | 45 :: s => (true, s)
    | s => (false, s)
  let value := match s with
    | 48 :: x :: c :: s => if (x = 120 ∨ x = 88) ∧ (digit 16 c).isSome then number 16 0 (c :: s) else number 8 0 (48 :: x :: c :: s)
    | 48 :: s => number 8 0 s
    | s => number 10 0 s
  if 2 ^ 32 ≤ value then 0xffffffff else if negative then -UInt32.ofNat value else UInt32.ofNat value

/-- The last digits of a number, in hexadecimal. -/
def hexDigits : (width n : Nat) → Bytes
  | 0, _ => []
  | width + 1, n => hexDigits width (n / 16) ++ [if n % 16 < 10 then 48 + (n % 16).toUInt8 else 55 + (n % 16).toUInt8]

/-- `sprintf` with `0x%04X`. -/
def hex16 (n : UInt32) : Bytes := ascii "0x" ++ hexDigits 4 (n.toNat % 2 ^ 16)

/-- `sprintf` with `0x%08X`. -/
def hex32 (n : UInt32) : Bytes := ascii "0x" ++ hexDigits 8 n.toNat

/-! ### The header -/

def NVRAM_MAGIC : UInt32 := 0x48534c46

def NVRAM_MIN_SPACE : Nat := 0x8000

/-- `nvram_header_t`. -/
structure Header where
  magic : UInt32
  len : UInt32
  crcVerInit : UInt32
  configRefresh : UInt32
  configNcdl : UInt32

def Header.bytes (hdr : Header) : Bytes := unwords [hdr.magic, hdr.len, hdr.crcVerInit, hdr.configRefresh, hdr.configNcdl]

def headerSize : Nat := 20

/-- The header at an offset of the partition. -/
def headerAt (mem : Bytes) (offset : Nat) : Header where
  magic := word mem offset
  len := word mem (offset + 4)
  crcVerInit := word mem (offset + 8)
  configRefresh := word mem (offset + 12)
  configNcdl := word mem (offset + 16)

def sdramInit : Bytes := ascii "sdram_init"
def sdramConfig : Bytes := ascii "sdram_config"
def sdramRefresh : Bytes := ascii "sdram_refresh"
def sdramNcdl : Bytes := ascii "sdram_ncdl"

def low16 (n : UInt32) : UInt32 := n &&& (0xffff : UInt32)

def high16 (n : UInt32) : UInt32 := low16 n <<< (16 : UInt32)

/-- The first lines of `nvram_commit`: the header, without its length and its checksum. -/
def regenerate (h : Handle) : Header :=
  match h.get sdramInit, h.get sdramConfig, h.get sdramRefresh, h.get sdramNcdl with
  | some init, some config, some refresh, some ncdl =>
    { magic := NVRAM_MAGIC
      len := 0
      crcVerInit := 0x100 ||| high16 (strtoul init)
      configRefresh := low16 (strtoul config) ||| high16 (strtoul refresh)
      configNcdl := strtoul ncdl }
  | _, _, _, _ =>
    { magic := NVRAM_MAGIC, len := 0, crcVerInit := 0x100 ||| high16 0x419, configRefresh := 0 ||| high16 0x8040, configNcdl := 0 }

/-- `crc8_table`. -/
def crc8Table : List UInt8 := [
  0x00, 0xf7, 0xb9, 0x4e, 0x25, 0xd2, 0x9c, 0x6b, 0x4a, 0xbd, 0xf3, 0x04, 0x6f, 0x98, 0xd6, 0x21,
  0x94, 0x63, 0x2d, 0xda, 0xb1, 0x46, 0x08, 0xff, 0xde, 0x29, 0x67, 0x90, 0xfb, 0x0c, 0x42, 0xb5,
  0x7f, 0x88, 0xc6, 0x31, 0x5a, 0xad, 0xe3, 0x14, 0x35, 0xc2, 0x8c, 0x7b, 0x10, 0xe7, 0xa9, 0x5e,
  0xeb, 0x1c, 0x52, 0xa5, 0xce, 0x39, 0x77, 0x80, 0xa1, 0x56, 0x18, 0xef, 0x84, 0x73, 0x3d, 0xca,
  0xfe, 0x09, 0x47, 0xb0, 0xdb, 0x2c, 0x62, 0x95, 0xb4, 0x43, 0x0d, 0xfa, 0x91, 0x66, 0x28, 0xdf,
  0x6a, 0x9d, 0xd3, 0x24, 0x4f, 0xb8, 0xf6, 0x01, 0x20, 0xd7, 0x99, 0x6e, 0x05, 0xf2, 0xbc, 0x4b,
  0x81, 0x76, 0x38, 0xcf, 0xa4, 0x53, 0x1d, 0xea, 0xcb, 0x3c, 0x72, 0x85, 0xee, 0x19, 0x57, 0xa0,
  0x15, 0xe2, 0xac, 0x5b, 0x30, 0xc7, 0x89, 0x7e, 0x5f, 0xa8, 0xe6, 0x11, 0x7a, 0x8d, 0xc3, 0x34,
  0xab, 0x5c, 0x12, 0xe5, 0x8e, 0x79, 0x37, 0xc0, 0xe1, 0x16, 0x58, 0xaf, 0xc4, 0x33, 0x7d, 0x8a,
  0x3f, 0xc8, 0x86, 0x71, 0x1a, 0xed, 0xa3, 0x54, 0x75, 0x82, 0xcc, 0x3b, 0x50, 0xa7, 0xe9, 0x1e,
  0xd4, 0x23, 0x6d, 0x9a, 0xf1, 0x06, 0x48, 0xbf, 0x9e, 0x69, 0x27, 0xd0, 0xbb, 0x4c, 0x02, 0xf5,
  0x40, 0xb7, 0xf9, 0x0e, 0x65, 0x92, 0xdc, 0x2b, 0x0a, 0xfd, 0xb3, 0x44, 0x2f, 0xd8, 0x96, 0x61,
  0x55, 0xa2, 0xec, 0x1b, 0x70, 0x87, 0xc9, 0x3e, 0x1f, 0xe8, 0xa6, 0x51, 0x3a, 0xcd, 0x83, 0x74,
  0xc1, 0x36, 0x78, 0x8f, 0xe4, 0x13, 0x5d, 0xaa, 0x8b, 0x7c, 0x32, 0xc5, 0xae, 0x59, 0x17, 0xe0,
  0x2a, 0xdd, 0x93, 0x64, 0x0f, 0xf8, 0xb6, 0x41, 0x60, 0x97, 0xd9, 0x2e, 0x45, 0xb2, 0xfc, 0x0b,
  0xbe, 0x49, 0x07, 0xf0, 0x9b, 0x6c, 0x22, 0xd5, 0xf4, 0x03, 0x4d, 0xba, 0xd1, 0x26, 0x68, 0x9f]

/-- `hndcrc8`. -/
def hndcrc8 (data : Bytes) (crc : UInt8) : UInt8 := data.foldl (fun crc b => crc8Table.getD (crc ^^^ b).toNat 0) crc

/-! ### Reading the partition -/

/-- The tuples of the text `name=value\0 ... \0\0`. -/
def pairs (data : Bytes) : List Tuple :=
  if _h : data = [] ∨ data.head? = some 0 then []
  else
    let s := data.takeWhile (· ≠ 0)
    if 61 ∈ s then { name := s.takeWhile (· ≠ 61), value := (s.dropWhile (· ≠ 61)).tail } :: pairs (data.dropWhile (· ≠ 0)).tail
    else []
termination_by data.length
decreasing_by
  have hle := (List.dropWhile_sublist (l := data) fun c => c ≠ 0).length_le
  have hpos : 0 < data.length := List.length_pos_of_ne_nil fun h => _h (Or.inl h)
  rw [List.length_tail]
  omega

/-- One of the special SDRAM parameters, which is only set if it is missing. -/
def setDefault (h : Handle) (name value : Bytes) : Handle := if (h.get name).isSome then h else (h.set name value).2

/-- `_nvram_rehash`. -/
def rehash (h : Handle) : Handle :=
  let hdr := headerAt h.mem h.offset
  let h := { h with chain := fun _ => [] }
  let h := (pairs (h.mem.drop (h.offset + headerSize))).foldl (fun h t => (h.set t.name t.value).2) h
  let h := setDefault h sdramInit (hex16 (hdr.crcVerInit >>> 16))
  let h := setDefault h sdramConfig (hex16 (low16 hdr.configRefresh))
  let h := setDefault h sdramRefresh (hex16 (low16 (hdr.configRefresh >>> 16)))
  setDefault h sdramNcdl (hex32 hdr.configNcdl)

/-- `nvram_open`, of a partition with these bytes. -/
def «open» (mem : Bytes) (rdonly : Bool) : Option Handle := do
  let i ← (List.range ((mem.length - NVRAM_MIN_SPACE) / 4 + 1)).find? fun i => word mem (4 * i) = NVRAM_MAGIC
  let h : Handle := { mem, offset := 4 * i }
  let hdr := headerAt mem h.offset
  if hdr.magic = NVRAM_MAGIC ∧ (rdonly ∨ hdr.len.toNat < h.space) then return rehash h else none

/-! ### Writing it -/

def Tuple.size (t : Tuple) : Nat := t.name.length + 1 + t.value.length + 1

/-- What `sprintf` writes for a tuple. -/
def Tuple.bytes (t : Tuple) : Bytes := t.name ++ 61 :: t.value ++ [0]

/-- The tuples of a chain up to the first for which there is no room. -/
def fitting : (room : Nat) → List Tuple → List Tuple
  | _, [] => []
  | room, t :: c => if t.size > room then [] else t :: fitting (room - t.size) c

def sizes (ts : List Tuple) : Nat := (ts.map Tuple.size).sum

/-- The tuples that are written, chain by chain. -/
def written : (room : Nat) → List (List Tuple) → List Tuple
  | _, [] => []
  | room, c :: cs => fitting room c ++ written (room - sizes (fitting room c)) cs

/-- The tuples that `nvram_commit` writes, with two bytes left free at the end. -/
def Handle.written (h : Handle) : List Tuple := Nvram.written (h.space - 2 - headerSize) h.chains

/-- The place of the NUL behind the tuples, from the header on. -/
def Handle.used (h : Handle) : Nat := headerSize + sizes h.written

/-- `NVRAM_ROUNDUP`. -/
def roundup (x y : Nat) : Nat := (x + (y - 1)) / y * y

/-- The data behind the header. The NUL that ends it is padded with zeros; behind it the area is erased. -/
def dataArea (h : Handle) : Bytes :=
  let ptr := h.offset + h.used + 1
  let data := h.written.flatMap Tuple.bytes ++ [0] ++ List.replicate (if ptr % 4 = 0 then 0 else 4 - ptr % 4) 0
  (data ++ List.replicate (h.space - headerSize - data.length) 0xff).take (h.space - headerSize)

/-- The header with its length and its checksum. -/
def finishHeader (h : Handle) : Header :=
  let hdr := { regenerate h with len := UInt32.ofNat (roundup (h.used + 2) 4) }
  let crc := hndcrc8 ((Header.bytes hdr).drop 9) 0xff
  let crc := hndcrc8 ((dataArea h).take (hdr.len.toNat - headerSize)) crc
  { hdr with crcVerInit := hdr.crcVerInit ||| crc.toUInt32 }

/-- `nvram_commit`. -/
def commit (h : Handle) : Int × Handle :=
  (0, rehash { h with mem := h.mem.take h.offset ++ (finishHeader h).bytes ++ dataArea h })

/-- The partition behind `nvram_commit`: a handle that was opened with `NVRAM_RO` has a private mapping of it. -/
def committed (part : Bytes) (rdonly : Bool) (h : Handle) : Bytes := if rdonly then part else (commit h).2.mem

end RainWrt.Nvram
