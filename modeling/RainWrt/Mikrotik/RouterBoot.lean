import RainWrt.Bytes

/-! `routerboot`: the tags of the flash data of the boot loader, and its run-length coding. -/

namespace RainWrt.Mikrotik.RouterBoot

inductive Errno where
  | einval
  | enoent
  | enospc
  deriving DecidableEq

/-! ### Tags -/

def nodeId (node : UInt32) : Nat := node.toNat % 2 ^ 16

def nodeLen (node : UInt32) : Nat := node.toNat / 2 ^ 16

/-- `ALIGN(len, 4)`, of which 16 bits are kept. -/
def align (len : Nat) : Nat := (len + 3) / 4 * 4 % 2 ^ 16

/-- The loop of `routerboot_tag_find`. The memory starts with the buffer and goes on behind it, since the last node that is
    read may reach out of the buffer. -/
def tagFindLoop (mem : Bytes) (buflen tagId datum : Nat) : Except Errno (Nat × Nat) :=
  if datum < buflen then
    let node := word mem datum
    if node = 0 then .error .enoent
    else if tagId = nodeId node then
      if datum + 4 ≥ buflen then .error .enoent else .ok ((datum + 4) % 2 ^ 16, nodeLen node)
    else tagFindLoop mem buflen tagId (datum + 4 + 4 * (align (nodeLen node) / 4))
  else .error .enoent
termination_by buflen - datum

/-- `routerboot_tag_find`: the place and the length of the payload. -/
def routerbootTagFind (mem : Bytes) (buflen tagId : Nat) : Except Errno (Nat × Nat) :=
  if tagId = 0 then .error .einval else tagFindLoop mem buflen tagId 0

/-! ### Runs -/

/-- An `int` that counted up to `n`, as a `size_t` of 64 bits. -/
def sizeOfInt (n : Nat) : Nat := if n % 2 ^ 32 < 2 ^ 31 then n % 2 ^ 32 else 2 ^ 64 - 2 ^ 32 + n % 2 ^ 32

/-- `*out = byte`, at an offset of the buffer; `none` is a write out of it. -/
def put (out : Bytes) (o : Nat) (byte : UInt8) : Option Bytes := if o < out.length then some (out.set o byte) else none

/-- `while (run-- > 0) *out++ = *in++;` -/
def copyRun (input : Bytes) : (run i o : Nat) → Bytes → Option Bytes
  | 0, _, _, out => some out
  | run + 1, i, o, out => do
    let byte ← input[i]?
    let out ← put out o byte
    copyRun input run (i + 1) (o + 1) out

/-- `while (run-- > 0) *out++ = byte;` -/
def fillRun (byte : UInt8) : (run o : Nat) → Bytes → Option Bytes
  | 0, _, out => some out
  | run + 1, o, out => do
    let out ← put out o byte
    fillRun byte run (o + 1) out

/-- The loop of `routerboot_rle_decode`: `i` and `o` are the places of `in` and `out`, and `inlen` is what is left of the
    input. It gives the error, the output and its length; `none` is an access out of the buffers. -/
def rleLoop (input : Bytes) (i inlen o nbytes : Nat) (out : Bytes) : Option (Option Errno × Bytes × Nat) :=
  if inlen ≥ 2 then do
    let byte ← input[i]?
    let run := byte.toNat
    if run ≥ 0x80 then
      let run := 256 - run
      if run > inlen - 1 then return (some .enospc, out, sizeOfInt nbytes)
      let nbytes := nbytes + run
      if sizeOfInt nbytes > out.length then return (some .enospc, out, sizeOfInt nbytes)
      let out ← copyRun input run (i + 1) o out
      rleLoop input (i + 1 + run) (inlen - 1 - run) (o + run) nbytes out
    else
      let byte ← input[i + 1]?
      let nbytes := nbytes + run
      if sizeOfInt nbytes > out.length then return (some .enospc, out, sizeOfInt nbytes)
      let out ← fillRun byte run o out
      rleLoop input (i + 2) (inlen - 2) (o + run) nbytes out
  else return (none, out, sizeOfInt nbytes)
termination_by inlen

/-- `routerboot_rle_decode`, into a buffer of `*outlen` bytes. An argument that is refused leaves `*outlen` as it is. -/
def routerbootRleDecode (input out : Bytes) : Option (Option Errno × Bytes × Nat) :=
  if input.length < 2 then some (some .einval, out, out.length) else rleLoop input 0 input.length 0 0 out

end RainWrt.Mikrotik.RouterBoot
