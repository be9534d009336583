import RainWrt.Bytes

/-! `mtd_parse_jffs2data`: the nodes of an eraseblock are followed to find the directory for new files, and the last inode and
    version. A read outside of the block has no result. -/

namespace RainWrt.Mtd

/-- The number in some bytes, with the byte order of the machine. -/
def number (big : Bool) (bs : Bytes) : Nat := (if big then bs else bs.reverse).foldl (fun n b => n * 256 + b.toNat) 0

/-- `PAD`, of 32 bits. -/
def PAD (x : Nat) : Nat := (x + 3) % 2 ^ 32 / 4 * 4

def jffs2MagicBitmask : Nat := 0x1985

def jffs2NodetypeDirent : Nat := 0xe001

/-- A field of a structure in the block. -/
def field (big : Bool) (buf : Bytes) (ofs size : Nat) : Option Nat :=
  if ofs + size ≤ buf.length then some (number big (slice buf ofs size)) else none

/-- `!strncmp(buf + pos, dir, n)`: no byte is read behind the one that decides. -/
def strncmp (buf : Bytes) : (pos : Nat) → (dir : Bytes) → (n : Nat) → Option Bool
  | _, _, 0 => some true
  | pos, dir, n + 1 =>
    match buf[pos]? with
    | none => none
    | some c =>
      if c ≠ dir.head?.getD 0 then some false
      else if c = 0 then some true
      else strncmp buf (pos + 1) dir.tail n

/-- The variables that the scan sets, and the entries from which `target_ino` was set. -/
structure Scan where
  targetIno : Nat
  lastIno : Nat
  lastVersion : Nat
  sets : List Nat := []
deriving DecidableEq

/-- The entry of a directory at `ofs`: whether it is the right one. -/
def lookAt (big : Bool) (buf dir : Bytes) (ofs : Nat) (s : Scan) : Option Scan :=
  if dir = [] then some s
  else do
    let pino ← field big buf (ofs + 12) 4
    if pino = 1 then do
      let nsize ← field big buf (ofs + 28) 1
      if ← strncmp buf (ofs + 40) dir nsize then do
        let ino ← field big buf (ofs + 20) 4
        return { s with targetIno := ino, sets := s.sets ++ [ofs] }
      else return s
    else return s

/-- The last inode and version numbers. -/
def store (big : Bool) (buf : Bytes) (ofs : Nat) (s : Scan) : Option Scan := do
  let ino ← field big buf (ofs + 20) 4
  let version ← field big buf (ofs + 16) 4
  return { s with lastIno := max s.lastIno ino, lastVersion := max s.lastVersion version }

/-- One round of the loop: the offset of the next node, or the end. -/
def parseNode (big : Bool) (buf dir : Bytes) (ofs : Nat) (s : Scan) : Option (Option (Nat × Scan)) :=
  if buf.length ≤ ofs then some none
  else do
    let magic ← field big buf ofs 2
    if magic ≠ jffs2MagicBitmask then return none
    else do
      let totlen ← field big buf (ofs + 4) 4
      let nodetype ← field big buf (ofs + 2) 2
      let s ← if nodetype = jffs2NodetypeDirent then lookAt big buf dir ofs s >>= store big buf ofs else some s
      return some ((ofs + PAD totlen) % 2 ^ 32, s)

/-- `mtd_parse_jffs2data`, for some rounds. There is no scan where they were not enough. -/
def parseJffs2data (big : Bool) (buf dir : Bytes) : (rounds : Nat) → (ofs : Nat) → Scan → Option (Option Scan)
  | 0, _, _ => some none
  | rounds + 1, ofs, s =>
    match parseNode big buf dir ofs s with
    | none => none
    | some none => some (some s)
    | some (some (ofs, s)) => parseJffs2data big buf dir rounds ofs s

end RainWrt.Mtd
