import RainWrt.Bytes

/-! The inspection of a factory image by `package-hwtest.py`: its erase blocks, its volume table, and whether its
    volumes hold what was built. -/

namespace RainWrt.Ubi

/-- The exceptions. -/
inductive Fault where
  /-- A `RuntimeError`. -/
  | runtime (text : String)
  | keyError (key : Nat)
  | unicodeDecodeError
  deriving DecidableEq

def require (c : Prop) [Decidable c] (text : String) : Except Fault Unit := if c then .ok () else .error (.runtime text)

/-! ### Words -/

/-- The bytes of an ASCII literal. -/
def ascii (s : String) : Bytes := s.toList.map fun c => UInt8.ofNat c.toNat

/-- The `n` bytes at `off` as a number, highest first. -/
def beAt (n : Nat) (data : Bytes) (off : Nat) : Nat := (slice data off n).foldl (fun a b => 256 * a + b.toNat) 0

/-- The `n` bytes at `off` as a number, lowest first. -/
def leAt (n : Nat) (data : Bytes) (off : Nat) : Nat := (slice data off n).foldr (fun b a => 256 * a + b.toNat) 0

/-- `decode('ascii')`. -/
def decodeAscii (data : Bytes) : Except Fault String :=
  if data.all (·.toNat < 128) then .ok (String.ofList (data.map fun b => Char.ofNat b.toNat)) else .error .unicodeDecodeError

/-! ### Erase blocks -/

def pebSize : Nat := 0x20000

/-- The dictionary of the volumes: for each the blocks by their logical number. -/
abbrev Volumes := List (Nat × List (Nat × Bytes))

/-- `volumes.setdefault(volume, {})[lnum] = payload`, if the number is new. -/
def addPiece (volume lnum : Nat) (payload : Bytes) : Volumes → Except Fault Volumes
  | [] => .ok [(volume, [(lnum, payload)])]
  | (v, pieces) :: rest =>
    if v = volume then do
      require (lnum ∉ pieces.map Prod.fst) "duplicate LEB"
      return (v, pieces ++ [(lnum, payload)]) :: rest
    else do return (v, pieces) :: (← addPiece volume lnum payload rest)

/-- What the loop over the erase blocks has gathered. -/
structure Seen where
  volumes : Volumes
  tables : List Bytes
  sequence : List Nat

section
variable (crc32 : Bytes → UInt32)

/-- The body of the loop. -/
def addBlock (s : Seen) (block : Bytes) : Except Fault Seen := do
  require (block.take 4 = ascii "UBI#") "invalid EC magic"
  require (beAt 4 block 60 = (~~~crc32 (block.take 60)).toNat) "EC CRC"
  let vid := beAt 4 block 16
  let payload := beAt 4 block 20
  let seq := beAt 4 block 24
  require (vid = 2048 ∧ payload = 4096) "unexpected NAND page geometry"
  let sequence := if seq ∈ s.sequence then s.sequence else s.sequence ++ [seq]
  let h := slice block vid 64
  require (h.take 4 = ascii "UBI!") "VID magic"
  require (beAt 4 h 60 = (~~~crc32 (h.take 60)).toNat) "VID CRC"
  let volume := beAt 4 h 8
  let lnum := beAt 4 h 12
  if 0x7fffefff ≤ volume then
    return { s with tables := s.tables ++ [slice block payload (128 * 172)], sequence }
  else
    return { s with volumes := ← addPiece volume lnum (block.drop payload) s.volumes, sequence }

/-! ### The volume table -/

/-- One record; a volume without reserved blocks is not there. -/
def addRecord (table : Bytes) (names : List (Nat × String)) (index : Nat) : Except Fault (List (Nat × String)) := do
  let entry := slice table (index * 172) 172
  require (entry.length = 172) "short volume table"
  require (beAt 4 entry 168 = (~~~crc32 (entry.take 168)).toNat) "volume table CRC"
  if beAt 4 entry 0 ≠ 0 then
    let length := beAt 2 entry 14
    return names ++ [(index, ← decodeAscii (slice entry 16 length))]
  else return names

/-! ### Volumes -/

/-- The part of a file that its volume must hold. -/
def wantedOf (name : String) (wanted : Bytes) : Except Fault Bytes :=
  if name = "rootfs" then do
    require (wanted.take 4 = ascii "hsqs" ∧ 96 ≤ wanted.length) "not squashfs"
    let used := leAt 8 wanted 40
    require (96 ≤ used ∧ used ≤ wanted.length) "squashfs size invalid"
    require (∀ b ∈ wanted.drop used, b = 0 ∨ b = 0xff) "unexpected squashfs tar padding"
    return wanted.take used
  else return wanted

/-- The body of the loop over the names. -/
def checkVolume (expected : List (String × Bytes)) (volumes : Volumes) (number : Nat) (name : String) : Except Fault Unit :=
  match expected.lookup name with
  | none => .ok ()
  | some wanted =>
    match volumes.lookup number with
    | none => .error (.keyError number)
    | some pieces => do
      let numbers := (pieces.map Prod.fst).insertionSort (· ≤ ·)
      require (numbers = List.range pieces.length) "noncontiguous logical UBI image"
      let actual := numbers.flatMap fun x => (pieces.lookup x).getD []
      let wanted ← wantedOf name wanted
      require (actual.take wanted.length = wanted) ("factory/sysupgrade " ++ name ++ " mismatch")
      require (∀ b ∈ actual.drop wanted.length, b = 0xff) "unexpected payload after volume"

/-- `inspect_ubi`: the number of erase blocks and the names of the volumes. -/
def inspectUbi (data : Bytes) (expected : List (String × Bytes)) : Except Fault (Nat × List (Nat × String)) := do
  require (data.length % pebSize = 0) "unaligned UBI"
  let seen ← (pieces pebSize data).foldlM (addBlock crc32) ⟨[], [], []⟩
  require (seen.sequence.length = 1 ∧ seen.tables.length = 2 ∧ seen.tables[0]? = seen.tables[1]?) "UBI layout copies differ"
  let names ← (List.range 128).foldlM (addRecord crc32 (seen.tables.headD [])) []
  require (∀ name ∈ ["kernel", "rootfs"], name ∈ names.map Prod.snd) "missing UBI volume"
  require (∀ name ∈ names.map Prod.snd, name ∈ ["kernel", "rootfs", "rootfs_data"]) "unexpected factory volume"
  names.forM fun e => checkVolume expected seen.volumes e.1 e.2
  return (data.length / pebSize, names)

end

end RainWrt.Ubi
