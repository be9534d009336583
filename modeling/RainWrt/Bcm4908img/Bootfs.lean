import RainWrt.Bcm4908img

/-! `bcm4908img bootfs`: the files of the bootfs are listed, and one is given another name. -/

namespace RainWrt.Bcm4908img

open Err

/-- The number in some bytes, with the byte order of the machine: `je16_to_cpu` and `je32_to_cpu`. -/
def je (big : Bool) (b : Bytes) : Nat := be (if big then b else b.reverse)

/-- A word as it is written to the file. -/
def native32 (big : Bool) (w : UInt32) : Bytes := if big then (le32 w).reverse else le32 w

/-- `sizeof(struct jffs2_unknown_node)` -/
def nodeSize : Nat := 12

/-- `sizeof(struct jffs2_raw_dirent)` -/
def direntSize : Nat := 40

/-- `offsetof(struct jffs2_raw_dirent, name_crc)` -/
def nameCrcOffset : Nat := 36

def jffs2MagicBitmask : Nat := 0x1985

def jffs2NodetypeDirent : Nat := 0xe001

/-- One round of the loops: the offset of the next node, and the name of an entry. Or the end of the nodes. -/
def nodeAt (big : Bool) (img : Bytes) (offset : Nat) : Except Err (Option (Nat × Option Bytes)) := do
  let node ← fread img offset nodeSize
  let next := offset + (je big (slice node 4 4) + 3) % 2 ^ 32 / 4 * 4
  if je big (slice node 0 2) ≠ jffs2MagicBitmask then return none
  else if je big (slice node 2 2) ≠ jffs2NodetypeDirent then return some (next, none)
  else
    let dirent ← fread img (offset + nodeSize) (direntSize - nodeSize)
    let nsize := je big (slice dirent 16 1)
    let name ← fread img (offset + direntSize) nsize
    return some (next, some name)

/-- What is printed of a name, and compared. -/
def cString (name : Bytes) : Bytes := name.takeWhile (· ≠ 0)

/-- `bcm4908img_bootfs_ls`, for some rounds: the names. There is no result where they were not enough. -/
def bootfsLs (big : Bool) (img : Bytes) : (rounds : Nat) → (offset : Nat) → Option (Except Err (List Bytes))
  | 0, _ => none
  | rounds + 1, offset =>
    match nodeAt big img offset with
    | .error err => some (.error err)
    | .ok none => some (.ok [])
    | .ok (some (next, name)) =>
      (bootfsLs big img rounds next).map fun names => names.map fun names => (name.map cString).toList ++ names

/-- How `mv` ends. -/
inductive Moved
  | failed (err : Err)
  /-- It read behind the end of an argument. -/
  | overread
  | renamed (img : Bytes)

/-- The name that is written for one of `nsize` bytes: the new one, with the byte that ends it. -/
def newBytes (newname : Bytes) (nsize : Nat) : Bytes := (newname ++ [0]).take nsize

/-- The image with another name in the entry at `offset`. -/
def writeName (big : Bool) (img : Bytes) (offset : Nat) (name : Bytes) : Bytes :=
  writeAt (writeAt img (offset + nameCrcOffset) (native32 big (bcm4908imgCrc32 0 name))) (offset + direntSize) name

/-- The entry at `offset` is renamed, and the tail is written to the end of the file. -/
def rename (big : Bool) (img : Bytes) (info : Info) (newname : Bytes) (offset nsize : Nat) : Moved :=
  if newname.length + 1 < nsize then .overread
  else
    let img := writeName big img offset (newBytes newname nsize)
    match sum img info.cferomOffset (info.tailOffset - info.cferomOffset) with
    | .error err => .failed err
    | .ok crc32 => .renamed (writeAt img (img.length - tailSize) (Tail.bytes { info.tail with crc32 := crc32 }))

/-- The loop of `bcm4908img_bootfs_mv`, for some rounds. -/
def mvLoop (big : Bool) (img : Bytes) (info : Info) (oldname newname : Bytes) : (rounds : Nat) → (offset : Nat) → Option Moved
  | 0, _ => none
  | rounds + 1, offset =>
    match nodeAt big img offset with
    | .error err => some (.failed err)
    | .ok none => some (.failed ENOENT)
    | .ok (some (next, name)) =>
      match name.filter fun name => cString name = oldname with
      | none => mvLoop big img info oldname newname rounds next
      | some name => some (rename big img info newname offset name.length)

/-- `bcm4908img_bootfs_mv` -/
def bootfsMv (big : Bool) (img : Bytes) (info : Info) (oldname newname : Bytes) (rounds : Nat) : Option Moved :=
  if newname.length ≠ oldname.length then some (.failed EINVAL)
  else mvLoop big img info oldname newname rounds info.bootfsOffset

end RainWrt.Bcm4908img
