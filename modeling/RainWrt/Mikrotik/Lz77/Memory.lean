import RainWrt.Mikrotik.Lz77

/-! `rb_lz77`: what the decompressor reads and writes. Each access is checked against the memory that the program was given, and the
    program stops at the first one outside. -/

namespace RainWrt.Mikrotik.Lz77.Memory

/-- Where the program stops early: at an access outside of the memory, or with an error that it returns. -/
inductive Stop where
  | readInput
  | writeOutput
  | readOutput
  | errno (e : Errno)

/-! ### The input -/

/-- `rb_lz77_get_bit`. -/
def getBit (input : Bytes) (inOffsetBit : Nat) : Except Stop Bool :=
  if inOffsetBit / 8 < input.length then .ok (Lz77.getBit input inOffsetBit) else .error .readInput

/-- `rb_lz77_get_byte`. -/
def getByte (input : Bytes) (inOffsetBit : Nat) : Except Stop UInt8 :=
  (List.range 8).foldlM (fun buf i => do return buf + (← getBit input (inOffsetBit + i)).toUInt8 <<< .ofNat (7 - i)) 0

/-- The loop of `rb_lz77_decode_count`. -/
def decodeCountLoop (input : Bytes) (inOffsetBit : Nat) :
    (bits pos shift count : Nat) → (up : Bool) → Except Stop (Nat × Nat)
  | 0, _, _, _, _ => .error (.errno .efbig)
  | bits + 1, pos, shift, count, up => do
    let bit ← getBit input pos
    let count := if bit then count + 2 ^ shift else count
    let up := up && bit
    if up then decodeCountLoop input inOffsetBit bits (pos + 1) (shift + 1) count up
    else if shift = 0 then .ok (count, pos - inOffsetBit + 1)
    else decodeCountLoop input inOffsetBit bits (pos + 1) (shift - 1) count up

/-- `rb_lz77_decode_count`. -/
def decodeCount (input : Bytes) (inOffsetBit shift count maxBits : Nat) : Except Stop (Nat × Nat) :=
  decodeCountLoop input inOffsetBit (min (inOffsetBit + maxBits) (input.length * 8) - inOffsetBit) inOffsetBit shift count true

/-- `rb_lz77_decode_instruction`. -/
def decodeInstruction (input : Bytes) (inOffsetBit : Nat) : Except Stop Instruction := do
  if ← getBit input inOffsetBit then
    if ← getBit input (inOffsetBit + 1) then return .long else return .previousOffset
  else return .literalByte

def decodeLongLength (input : Bytes) (inOffsetBit offset : Nat) : Except Stop (Nat × Nat) :=
  if offset = 0 then decodeCount input inOffsetBit 4 12 maxCountBitLen else decodeCount input inOffsetBit 0 2 maxCountBitLen

/-- `rb_lz77_decode_instruction_operators`. -/
def decodeInstructionOperators (input : Bytes) (inOffsetBit previousOffset : Nat) : Except Stop Opcode := do
  match ← decodeInstruction input inOffsetBit with
  | .literalByte => return ⟨.literalByte, 0, 1, 1, Nat.one_pos⟩
  | .previousOffset =>
    let (length, lengthBits) ← decodeCount input (inOffsetBit + 2) 0 1 maxCountBitLen
    return ⟨.previousOffset, previousOffset, length, 2 + lengthBits, prefixed_pos lengthBits⟩
  | .long =>
    let (offset, offsetBits) ← decodeCount input (inOffsetBit + 2) 4 0 maxCountBitLen
    let (length, lengthBits) ← decodeLongLength input (inOffsetBit + (2 + offsetBits)) offset
    return ⟨.long, offset, length, 2 + offsetBits + lengthBits, prefixed_add_pos offsetBits lengthBits⟩

/-! ### The output -/

/-- The output buffer, with the place that is written next and the places written so far. -/
structure Output where
  buf : Bytes
  ptr : Nat
  writes : List Nat

def Output.put (o : Output) (b : UInt8) : Except Stop Output :=
  if o.ptr < o.buf.length then .ok ⟨o.buf.set o.ptr b, o.ptr + 1, o.writes ++ [o.ptr]⟩ else .error .writeOutput

/-- `memcpy` from `offset` bytes before the place. -/
def Output.copy (o : Output) (offset n : Nat) : Except Stop Output :=
  if n = 0 then .ok o
  else if o.ptr < offset then .error .readOutput
  else if o.buf.length < o.ptr + n then .error .writeOutput
  else .ok ⟨writeAt o.buf o.ptr (slice o.buf (o.ptr - offset) n), o.ptr + n, o.writes ++ (List.range n).map (o.ptr + ·)⟩

/-- The loop over the bytes of a group that does not match. -/
def putBytes (input : Bytes) : (length inputBit : Nat) → Output → Except Stop Output
  | 0, _, o => .ok o
  | length + 1, inputBit, o => do putBytes input length (inputBit + 8) (← o.put (← getByte input inputBit))

/-- The copies of a match. -/
def copyMatch (o : Output) (offset : Nat) (ho : 0 < offset) (matchLength : Nat) : Except Stop Output :=
  if offset < matchLength then do copyMatch (← o.copy offset offset) offset ho (matchLength - offset)
  else o.copy offset matchLength
termination_by matchLength

/-- A call of `memcpy`. -/
structure Memcpy where
  dst : Nat
  src : Nat
  n : Nat
  deriving DecidableEq

/-- The buffer behind a call, for places with no byte in common. -/
def Memcpy.run (buf : Bytes) (c : Memcpy) : Bytes := writeAt buf c.dst (slice buf c.src c.n)

def Memcpy.Apart (c : Memcpy) : Prop := c.src + c.n ≤ c.dst ∨ c.dst + c.n ≤ c.src

/-- The calls that `copyMatch` makes. -/
def matchCalls (ptr offset : Nat) (ho : 0 < offset) (matchLength : Nat) : List Memcpy :=
  if offset < matchLength then ⟨ptr, ptr - offset, offset⟩ :: matchCalls (ptr + offset) offset ho (matchLength - offset)
  else [⟨ptr, ptr - offset, matchLength⟩]
termination_by matchLength

/-- The loop of `rb_lz77_decompress`, with the length that it reports. -/
def decompressLoop (input : Bytes) (o : Output) (matchOffset inputBit : Nat) : Except Stop (Nat × Output) :=
  if o.ptr > o.buf.length then .error (.errno .eoverflow)
  else if inputBit > input.length * 8 then .error (.errno .enodata)
  else
    match decodeInstructionOperators input inputBit matchOffset with
    | .error e => .error e
    | .ok opcode =>
      have := opcode.bitsUsed_pos
      let start := inputBit + opcode.bitsUsed
      if opcode.instruction ≠ .previousOffset ∧ opcode.offset = 0 then
        -- the end marker
        if opcode.length = 0xc ∧ start + opcode.length * 8 > input.length then .ok (o.ptr, o)
        else
          match putBytes input opcode.length start o with
          | .error e => .error e
          | .ok o => decompressLoop input o matchOffset (start + 8 * opcode.length)
      else
        let matchOffset := if opcode.instruction = .long then opcode.offset else matchOffset
        if ho : opcode.offset = 0 then .error (.errno .ebadmsg)
        else if o.ptr + opcode.length > o.buf.length then .error (.errno .enobufs)
        else if o.ptr < opcode.offset then .error (.errno .espipe)
        else
          match copyMatch o opcode.offset (Nat.pos_of_ne_zero ho) opcode.length with
          | .error e => .error e
          | .ok o => decompressLoop input o matchOffset start
termination_by input.length * 8 + 1 - inputBit

/-- `rb_lz77_decompress` into this buffer, whose length is the value of `*out_len` before the call: the value after it, and the
    buffer. -/
def decompress (input buf : Bytes) : Except Stop (Nat × Output) := decompressLoop input ⟨buf, 0, []⟩ 0 0

end RainWrt.Mikrotik.Lz77.Memory
