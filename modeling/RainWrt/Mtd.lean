import RainWrt.Bytes

/-! `mtd write`: an image is written to the good blocks of a NAND partition. -/

namespace RainWrt.Mtd

/-- The partition: the size of a block, the number of blocks, and which of them are bad. -/
structure Nand where
  erasesize : Nat
  count : Nat
  bad : Nat → Bool

def Nand.size (d : Nand) : Nat := d.count * d.erasesize

/-- A block after erasing. -/
def Nand.erased (d : Nand) : Bytes := List.replicate d.erasesize 0xff

/-- The variables of `mtd_write`, the position of the device and the content of its blocks. -/
structure Writer where
  blocks : Nat → Bytes
  pos : Nat
  w : Nat := 0
  e : Nat := 0
  skipBadBlocks : Nat := 0
  /-- The blocks that were erased or written so far. -/
  touched : List Nat := []

/-- A number that is passed as `int`. -/
def toInt (n : Nat) : Int :=
  let m : Nat := n % 2 ^ 32
  if m < 2 ^ 31 then m else (m : Int) - 2 ^ 32

/-- `mtd_block_is_bad`. The program ends where the offset is not in the partition. -/
def mtdBlockIsBad (d : Nand) (offset : Nat) : Option Bool :=
  let o := toInt offset
  if o < 0 ∨ (d.size : Int) ≤ o then none else some (d.bad (o.toNat / d.erasesize))

/-- A block gets other content. -/
def Writer.put (s : Writer) (b : Nat) (data : Bytes) : Writer :=
  { s with blocks := fun k => if k = b then data else s.blocks k, touched := s.touched ++ [b] }

/-- `mtd_erase_block`: the start has 32 bits. It fails for bad blocks and outside of the partition. -/
def mtdEraseBlock (d : Nand) (s : Writer) (offset : Nat) : Option Writer :=
  let start := offset % 2 ^ 32
  if start % d.erasesize ≠ 0 ∨ d.size ≤ start ∨ d.bad (start / d.erasesize) then none
  else some (s.put (start / d.erasesize) d.erased)

/-- The loop that erases the next block before data is written to it. Each round looks at one block. -/
def eraseLoop (d : Nand) (partOffset : Nat) : (rounds : Nat) → Writer → Option Writer
  | 0, _ => none
  | rounds + 1, s =>
    if s.w + d.erasesize > s.e - s.skipBadBlocks then do
      if ← mtdBlockIsBad d s.e then
        eraseLoop d partOffset rounds
          { s with skipBadBlocks := s.skipBadBlocks + d.erasesize, e := s.e + d.erasesize, pos := s.pos + d.erasesize }
      else
        let s ← mtdEraseBlock d s (s.e + partOffset)
        eraseLoop d partOffset rounds { s with e := s.e + d.erasesize }
    else some s

/-- `write` of one block at the position of the device, which can only clear bits. -/
def write (d : Nand) (s : Writer) (data : Bytes) : Option Writer :=
  if s.pos + d.erasesize > d.size then none
  else
    let b := s.pos / d.erasesize
    some { s.put b (List.zipWith (· &&& ·) (s.blocks b) data) with pos := s.pos + d.erasesize }

/-- The last block is padded. -/
def pad (d : Nand) (buf : Bytes) : Bytes := buf ++ List.replicate (d.erasesize - buf.length) 0xff

/-- One round of the main loop, with a block of the image. -/
def writeBlock (d : Nand) (partOffset : Nat) (s : Writer) (buf : Bytes) : Option Writer := do
  let s ← eraseLoop d partOffset (d.count + 2) s
  let s ← write d s (pad d buf)
  return { s with w := s.w + d.erasesize }

/-- The main loop: the buffer is filled from the file until a block is complete or the file ends. -/
def writeLoop (d : Nand) (partOffset : Nat) (s : Writer) (buf file : Bytes) : Option Writer :=
  let n := d.erasesize - buf.length
  if (buf ++ file.take n).length = 0 then some s
  else do
    let s ← writeBlock d partOffset s (buf ++ file.take n)
    writeLoop d partOffset s [] (file.drop n)
termination_by buf.length + file.length
decreasing_by
  rename_i h
  simp only [List.length_append, List.length_take, List.length_drop, List.length_nil] at h ⊢
  omega

/-- `mtd_write`, with the part of the image that is in the buffer already. -/
def mtdWrite (d : Nand) (partOffset : Nat) (blocks : Nat → Bytes) (buf file : Bytes) : Option Writer :=
  writeLoop d partOffset { blocks, pos := partOffset } buf file

end RainWrt.Mtd
