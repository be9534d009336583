import RainWrt.Bytes

/-! `rb_lz77`: the decompressor for calibration data. -/

namespace RainWrt.Mikrotik.Lz77

/-- `MIKRO_LZ77_MAX_COUNT_BIT_LEN`. -/
def maxCountBitLen : Nat := 27

inductive Errno where
  | efbig
  | eoverflow
  | enodata
  | ebadmsg
  | enobufs
  | espipe
  deriving DecidableEq

inductive Instruction where
  | literalByte
  | previousOffset
  | long
  deriving DecidableEq

/-- `struct rb_lz77_instr_opcodes`. -/
structure Opcode where
  instruction : Instruction
  offset : Nat
  length : Nat
  bitsUsed : Nat
  bitsUsed_pos : 0 < bitsUsed

/-- `rb_lz77_get_bit`. -/
def getBit (input : Bytes) (inOffsetBit : Nat) : Bool := (input.getD (inOffsetBit / 8) 0).toNat.testBit (inOffsetBit % 8)

/-- `rb_lz77_get_byte`: the first bit is the highest one. -/
def getByte (input : Bytes) (inOffsetBit : Nat) : UInt8 :=
  (List.range 8).foldl (fun buf i => buf + (getBit input (inOffsetBit + i)).toUInt8 <<< .ofNat (7 - i)) 0

/-- The loop of `rb_lz77_decode_count` over the bits that it may use: the count and the bits used. -/
def decodeCountLoop (input : Bytes) (inOffsetBit : Nat) : (bits pos shift count : Nat) → (up : Bool) → Except Errno (Nat × Nat)
  | 0, _, _, _, _ => .error .efbig
  | bits + 1, pos, shift, count, up =>
    let bit := getBit input pos
    let count := if bit then count + 2 ^ shift else count
    let up := up && bit
    if up then decodeCountLoop input inOffsetBit bits (pos + 1) (shift + 1) count up
    else if shift = 0 then .ok (count, pos - inOffsetBit + 1)
    else decodeCountLoop input inOffsetBit bits (pos + 1) (shift - 1) count up

/-- `rb_lz77_decode_count`. -/
def decodeCount (input : Bytes) (inOffsetBit shift count maxBits : Nat) : Except Errno (Nat × Nat) :=
  decodeCountLoop input inOffsetBit (min (inOffsetBit + maxBits) (input.length * 8) - inOffsetBit) inOffsetBit shift count true

/-- `rb_lz77_decode_instruction`. -/
def decodeInstruction (input : Bytes) (inOffsetBit : Nat) : Instruction :=
  if getBit input inOffsetBit then
    if getBit input (inOffsetBit + 1) then .long else .previousOffset
  else .literalByte

/-- The length of a long group, which depends on its offset. -/
def decodeLongLength (input : Bytes) (inOffsetBit offset : Nat) : Except Errno (Nat × Nat) :=
  if offset = 0 then decodeCount input inOffsetBit 4 12 maxCountBitLen else decodeCount input inOffsetBit 0 2 maxCountBitLen

theorem prefixed_pos (n : Nat) : 0 < 2 + n := by
  omega

theorem prefixed_add_pos (m n : Nat) : 0 < 2 + m + n := by
  omega

/-- `rb_lz77_decode_instruction_operators`. -/
def decodeInstructionOperators (input : Bytes) (inOffsetBit previousOffset : Nat) : Except Errno Opcode :=
  match decodeInstruction input inOffsetBit with
  | .literalByte => .ok ⟨.literalByte, 0, 1, 1, Nat.one_pos⟩
  | .previousOffset => do
    let (length, lengthBits) ← decodeCount input (inOffsetBit + 2) 0 1 maxCountBitLen
    .ok ⟨.previousOffset, previousOffset, length, 2 + lengthBits, prefixed_pos lengthBits⟩
  | .long => do
    let (offset, offsetBits) ← decodeCount input (inOffsetBit + 2) 4 0 maxCountBitLen
    let (length, lengthBits) ← decodeLongLength input (inOffsetBit + (2 + offsetBits)) offset
    .ok ⟨.long, offset, length, 2 + offsetBits + lengthBits, prefixed_add_pos offsetBits lengthBits⟩

/-- The copies of a match. A match that is longer than its offset is copied piece by piece. -/
def copyMatch (out : Bytes) (offset : Nat) (ho : 0 < offset) (matchLength : Nat) : Bytes :=
  if offset < matchLength then
    copyMatch (out ++ slice out (out.length - offset) offset) offset ho (matchLength - offset)
  else out ++ slice out (out.length - offset) matchLength
termination_by matchLength

/-- The loop of `rb_lz77_decompress`, with the bytes written so far. -/
def decompressLoop (input : Bytes) (outLen : Nat) (out : Bytes) (matchOffset inputBit : Nat) : Except Errno Bytes :=
  if out.length > outLen then .error .eoverflow
  else if inputBit > input.length * 8 then .error .enodata
  else
    match decodeInstructionOperators input inputBit matchOffset with
    | .error e => .error e
    | .ok opcode =>
      have := opcode.bitsUsed_pos
      let start := inputBit + opcode.bitsUsed
      if opcode.instruction ≠ .previousOffset ∧ opcode.offset = 0 then
        -- the end marker
        if opcode.length = 0xc ∧ start + opcode.length * 8 > input.length then .ok out
        else
          decompressLoop input outLen (out ++ (List.range opcode.length).map fun i => getByte input (start + 8 * i)) matchOffset
            (start + 8 * opcode.length)
      else
        let matchOffset := if opcode.instruction = .long then opcode.offset else matchOffset
        if ho : opcode.offset = 0 then .error .ebadmsg
        else if out.length + opcode.length > outLen then .error .enobufs
        else if out.length < opcode.offset then .error .espipe
        else decompressLoop input outLen (copyMatch out opcode.offset (Nat.pos_of_ne_zero ho) opcode.length) matchOffset start
termination_by input.length * 8 + 1 - inputBit

/-- `rb_lz77_decompress`: the bytes written, or an error. -/
def decompress (input : Bytes) (outLen : Nat) : Except Errno Bytes := decompressLoop input outLen [] 0 0

end RainWrt.Mikrotik.Lz77
