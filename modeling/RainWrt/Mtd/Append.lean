import RainWrt.Mtd.Scan
import RainWrt.Mtd.Trx

/-! `mtd_write_jffs2`: a file is added behind the nodes of a JFFS2 partition. The nodes are gathered in a buffer of one eraseblock.
    There is no result where the program accesses memory outside of the buffer, calls `exit`, or does not end. -/

namespace RainWrt.Mtd.Jffs2

open Trx

/-! ### Nodes -/

/-- A number as the machine stores it in some bytes. -/
def stored (big : Bool) (size n : Nat) : Bytes :=
  let bytes := (List.range size).map fun i => UInt8.ofNat (n / 256 ^ i)
  if big then bytes.reverse else bytes

def jffs2NodetypeInode : Nat := 0xe002

/-- `CLEANMARKER` -/
def cleanMarker (big : Bool) : Bytes :=
  if big then [0x19, 0x85, 0x20, 0x03, 0x00, 0x00, 0x00, 0x0c, 0xf0, 0x60, 0xdc, 0x98]
  else [0x85, 0x19, 0x03, 0x20, 0x0c, 0x00, 0x00, 0x00, 0xb1, 0xb0, 0x1e, 0xe4]

/-- `JFFS2_EOF` -/
def jffs2Eof : Bytes := [0xde, 0xad, 0xc0, 0xde]

/-- `sizeof(struct jffs2_raw_inode)` -/
def inodeSize : Nat := 68

/-- `crc32(0, ...)`, as it is stored. -/
def storedCrc (big : Bool) (bytes : Bytes) : Bytes := stored big 4 (crc32Le 0 bytes).toNat

/-- The fields of `struct jffs2_unknown_node` before `hdr_crc`. -/
def nodeStart (big : Bool) (nodetype totlen : Nat) : Bytes :=
  [stored big 2 jffs2MagicBitmask, stored big 2 nodetype, stored big 4 totlen].flatten

/-- The fields of a `struct jffs2_raw_dirent` before `node_crc`. -/
def direntStart (big : Bool) (type : Nat) (pino version ino : Nat) (name : Bytes) : Bytes :=
  let start := nodeStart big jffs2NodetypeDirent (40 + name.length)
  [start, storedCrc big start, stored big 4 pino, stored big 4 version, stored big 4 ino, stored big 4 0,
    stored big 1 name.length, stored big 1 type, stored big 2 0].flatten

/-- A `struct jffs2_raw_dirent` with its name. -/
def rawDirent (big : Bool) (type : Nat) (pino version ino : Nat) (name : Bytes) : Bytes :=
  let start := direntStart big type pino version ino name
  [start, storedCrc big start, storedCrc big name, name].flatten

/-- What `stat` says of a file, and its content if it can be opened. Of the times, the lower 32 bits are used. -/
structure File where
  mode : UInt32
  atime : UInt32
  mtime : UInt32
  ctime : UInt32
  size : Nat
  content : Option Bytes

/-- The fields of a `struct jffs2_raw_inode` before `data_crc`. -/
def inodeStart (big : Bool) (ino version : Nat) (f : File) (offset dsize : Nat) : Bytes :=
  let start := nodeStart big jffs2NodetypeInode (inodeSize + dsize)
  [start, storedCrc big start, stored big 4 ino, stored big 4 version, stored big 4 f.mode.toNat, stored big 2 0, stored big 2 0,
    stored big 4 f.size, stored big 4 f.atime.toNat, stored big 4 f.mtime.toNat, stored big 4 f.ctime.toNat, stored big 4 offset,
    stored big 4 dsize, stored big 4 dsize, stored big 1 0, stored big 1 0, stored big 2 0].flatten

/-- A `struct jffs2_raw_inode` for some data. -/
def rawInode (big : Bool) (ino version : Nat) (f : File) (offset : Nat) (data : Bytes) : Bytes :=
  let start := inodeStart big ino version f offset data.length
  [start, storedCrc big data, storedCrc big start].flatten

/-! ### The buffer -/

/-- What the program runs on: the flash, the byte order and the bits of `size_t`. -/
structure Host where
  d : Device
  big : Bool
  bits : Nat

/-- The variables of the writer. The device is positioned at `mtdofs`. -/
structure Writer where
  blocks : Nat → Bytes
  mtdofs : Nat
  buf : Bytes
  ofs : Nat := 0
  lastIno : Nat
  lastVersion : Nat

/-- The loop that goes past bad blocks; each round looks at one block. -/
def skipBad (d : Device) : (rounds : Nat) → (mtdofs : Nat) → Option Nat
  | 0, _ => none
  | rounds + 1, mtdofs => do
    if (← d.blockIsBad mtdofs) && decide (mtdofs < d.size) then skipBad d rounds (mtdofs + d.erasesize) else return mtdofs

/-- The block at `b` is written, which can only clear bits. -/
def overwrite (blocks : Nat → Bytes) (b : Nat) (old data : Bytes) : Nat → Bytes :=
  fun k => if k = b then List.zipWith (· &&& ·) old data else blocks k

/-- The buffer is written to the next good block. The results of erasing and of writing are not looked at; behind the end of the
    partition both fail. -/
def flush (d : Device) (s : Writer) : Option Writer := do
  let mtdofs ← skipBad d (d.count + 1) s.mtdofs
  let b := mtdofs / d.erasesize
  let old := if d.erases mtdofs then d.erased else s.blocks b
  let blocks := if mtdofs + d.erasesize ≤ d.size then overwrite s.blocks b old s.buf else s.blocks
  return { s with blocks, mtdofs := mtdofs + d.erasesize }

/-- `memcpy` or `memset` at `ofs`, which is advanced. -/
def Writer.put (s : Writer) (data : Bytes) : Option Writer :=
  (storeAt s.buf s.ofs data).map fun buf => { s with buf, ofs := s.ofs + data.length }

/-- `pad` -/
def pad (d : Device) (size : Nat) (s : Writer) : Option Writer :=
  if s.ofs % size = 0 ∧ s.ofs < d.erasesize then some s
  else do
    let s ← if s.ofs < d.erasesize then s.put (.replicate (size - s.ofs % size) 0xff) else some s
    let s := { s with ofs := s.ofs % d.erasesize }
    if s.ofs = 0 then flush d s else return s

/-- `rbytes` -/
def rbytes (d : Device) (s : Writer) : Nat := d.erasesize - s.ofs % d.erasesize

/-- `prep_eraseblock` -/
def prepEraseblock (big : Bool) (s : Writer) : Option Writer := if 0 < s.ofs then some s else s.put (cleanMarker big)

/-- `add_data` -/
def addData (h : Host) (data : Bytes) (s : Writer) : Option Writer := do
  let s ← if h.d.erasesize < s.ofs + data.length then pad h.d h.d.erasesize s >>= prepEraseblock h.big else some s
  s.put data

/-! ### Files -/

/-- `IFTODT(S_IFDIR)` -/
def dtDir : Nat := 4

/-- `IFTODT(S_IFREG)` -/
def dtReg : Nat := 8

/-- `add_dirent`, with the inode number. The difference of two `int` is compared as a `size_t`. -/
def addDirent (h : Host) (name : Bytes) (type : Nat) (parent : Nat) (s : Writer) : Option (Nat × Writer) := do
  let s ← if (2 ^ h.bits + s.ofs - h.d.erasesize) % 2 ^ h.bits < 40 + name.length then pad h.d h.d.erasesize s else some s
  let s ← prepEraseblock h.big s
  let ino := s.lastIno + 1
  let buf ← storeAt s.buf s.ofs (rawDirent h.big type parent s.lastVersion ino name)
  -- `nsize` has eight bits
  let s ← pad h.d 4
    { s with buf, ofs := s.ofs + 40 + name.length % 256, lastIno := s.lastIno + 2, lastVersion := s.lastVersion + 1 }
  return (ino, s)

/-- What `add_dir` makes of a directory. -/
def directory : File where
  mode := 0o40755
  atime := 0
  mtime := 0
  ctime := 0
  size := 0
  content := some []

/-- `add_dir` -/
def addDir (h : Host) (name : Bytes) (parent : Nat) (s : Writer) : Option (Nat × Writer) := do
  let (inode, s) ← addDirent h name dtDir parent s
  let s ← if rbytes h.d s < inodeSize then pad h.d h.d.erasesize s else some s
  let s ← prepEraseblock h.big s
  let s ← addData h (rawInode h.big inode 1 directory 0 []) s
  let s ← pad h.d 4 s
  return (inode, s)

/-- The inner loop of `add_file`, for some rounds: there is room for a node with more than 128 bytes. -/
def makeRoom (h : Host) : (rounds : Nat) → Writer → Option Writer
  | 0, _ => none
  | rounds + 1, s =>
    if 128 + inodeSize < rbytes h.d s then some s
    else pad h.d h.d.erasesize s >>= prepEraseblock h.big >>= makeRoom h rounds

/-- A node with the next piece of a file. -/
def addPiece (h : Host) (f : File) (ino offset : Nat) (data : Bytes) (s : Writer) : Option Writer := do
  let s := { s with lastVersion := s.lastVersion + 1 }
  let s ← addData h (rawInode h.big ino s.lastVersion f offset data) s
  let s ← addData h data s
  let s ← pad h.d 4 s
  prepEraseblock h.big s

/-- The size of the next piece, `sizeof(wbuf)` at most. -/
def pieceSize (d : Device) (s : Writer) : Nat := min (rbytes d s - inodeSize) 4096

/-- The loop of `add_file`, with what is left of the file. A block without enough room behind its clean marker is never left. -/
def addPieces (h : Host) (f : File) (ino offset : Nat) (rest : Bytes) (s : Writer) : Option Writer :=
  match makeRoom h 2 s with
  | none => none
  | some s =>
    if rest.take (pieceSize h.d s) = [] then some s
    else addPiece h f ino offset (rest.take (pieceSize h.d s)) s >>=
      addPieces h f ino (offset + (rest.take (pieceSize h.d s)).length) (rest.drop (pieceSize h.d s))
termination_by rest.length
decreasing_by
  rename_i hne
  rw [List.take_eq_nil_iff, not_or] at hne
  have hpos := List.length_pos_iff.mpr hne.2
  rw [List.length_drop]
  omega

/-- The name behind the last slash. -/
def baseName (path : Bytes) : Bytes := (path.reverse.takeWhile (· ≠ 0x2f)).reverse

/-- `add_file`, of a file that is there or not. -/
def addFile (h : Host) (path : Bytes) (file : Option File) (parent : Nat) (s : Writer) : Option Writer :=
  match file with
  | none => some s
  | some f => do
    let (inode, s) ← addDirent h (baseName path) dtReg parent s
    match f.content with
    | none => some s
    | some data => addPieces h f inode 0 data s

/-! ### The command -/

/-- What the search for the end of the nodes comes to. -/
inductive Searched
  | wrongEndian
  | noRoom
  | free (block : Nat) (s : Scan)

/-- The loop of `mtd_write_jffs2` over the blocks from `k` on, of which some are left. As many rounds as there are bytes are enough
    for a block whose nodes end. -/
def search (big : Bool) (blocks : Nat → Bytes) (dir : Bytes) : (left k : Nat) → Scan → Option Searched
  | 0, _, _ => some .noRoom
  | left + 1, k, s => do
    let magic ← field big (blocks k) 0 2
    if magic = 0x8519 then return .wrongEndian
    else if magic ≠ jffs2MagicBitmask then return .free k s
    else
      match parseJffs2data big (blocks k) dir ((blocks k).length + 1) 0 s with
      | some (some s) => search big blocks dir left (k + 1) s
      | _ => none

/-- The end of the nodes is written. -/
def finish (h : Host) (s : Writer) : Option Writer :=
  pad h.d h.d.erasesize s >>= addData h jffs2Eof >>= pad h.d h.d.erasesize

/-- The part of `mtd_write_jffs2` that writes, from the first block behind the nodes on. -/
def append (h : Host) (path : Bytes) (file : Option File) (dir : Bytes) (target : Nat) (s : Writer) : Option Writer := do
  let (parent, s) ← if target = 0 then addDir h dir 1 s else some (target, s)
  let s ← addFile h path file parent s
  finish h s

/-- `mtd_write_jffs2`: whether it succeeds, and the content of the blocks. -/
def mtdWriteJffs2 (h : Host) (path : Bytes) (file : Option File) (dir : Bytes) (blocks : Nat → Bytes) : Option (Bool × (Nat → Bytes)) := do
  match ← search h.big blocks dir h.d.count 0 { targetIno := if dir = [] then 1 else 0, lastIno := 0, lastVersion := 0 } with
  | .wrongEndian => return (false, blocks)
  | .noRoom => return (false, blocks)
  | .free k found =>
    let lastIno := if found.lastIno = 0 then 1 else found.lastIno
    let s ← append h path file dir found.targetIno
      { blocks, mtdofs := k * h.d.erasesize, buf := blocks k, lastIno, lastVersion := found.lastVersion }
    return (true, s.blocks)

end RainWrt.Mtd.Jffs2
