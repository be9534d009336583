import Mathlib

/-! The line buffer of the `uline` editor. A function is `none` where the code would read or write outside
    of the buffer, or through a null pointer. -/

namespace RainWrt.Uline

abbrev Byte := UInt8

def KEY_ESC : Byte := 27

/-- `isspace` of the C locale, for a byte of the buffer. -/
def isspaceByte (c : Byte) : Bool := c = 32 ∨ 9 ≤ c ∧ c ≤ 13

def isUtf8Cont (c : Byte) : Bool := c &&& 0xc0 = 0x80

/-- What `realloc` does: it fails, or the memory that it adds holds these bytes. -/
structure Memory where
  fails : Bool := false
  junk : Nat → Byte := fun _ => 0xff

/-- The block of `n` bytes at an index. -/
def load (b : List Byte) (i n : Nat) : Option (List Byte) :=
  if n = 0 then some [] else if i + n ≤ b.length then some ((b.drop i).take n) else none

def store (b : List Byte) (i : Nat) (bytes : List Byte) : Option (List Byte) :=
  if bytes = [] then some b
  else if i + bytes.length ≤ b.length then some (b.take i ++ bytes ++ b.drop (i + bytes.length)) else none

/-- The source may overlap the destination. -/
def memmove (b : List Byte) (dest src n : Nat) : Option (List Byte) := (load b src n).bind (store b dest)

/-- `struct linebuf`. The buffer has `bufsize` bytes, and is null at first. -/
structure Line where
  buf : Option (List Byte) := none
  len : Nat := 0
  prompt : Option (List Byte) := none
  pos : Nat := 0
  updatePos : Nat := 0

namespace Line

def bufsize (l : Line) : Nat := (l.buf.getD []).length

def LINEBUF_CHUNK : Nat := 64

/-- `linebuf_extend`, and whether there is a buffer now. -/
def extend (mem : Memory) (l : Line) (size : Nat) : Bool × Line :=
  let tailroom := l.bufsize - l.len
  if l.buf.isSome ∧ tailroom > size then (true, l)
  else
    let size := size - tailroom + (LINEBUF_CHUNK - 1)
    let size := size - size % LINEBUF_CHUNK
    if mem.fails then (false, l)
    else (true, { l with buf := some (l.buf.getD [] ++ (List.range size).map mem.junk) })

/-- The tail of the text moves up, if there is one. -/
def moveTail (l : Line) (b : List Byte) (len : Nat) : Option (List Byte) :=
  if l.pos < l.len then memmove b (l.pos + len) l.pos (l.len - l.pos) else store b (l.pos + len) [0]

/-- `linebuf_insert`. -/
def insert (mem : Memory) (l : Line) (c : List Byte) : Option (Bool × Line) :=
  let (ok, l) := l.extend mem (c.length + 1)
  if !ok then some (false, l)
  else do
    let b ← l.buf
    let b ← l.moveTail b c.length
    let b ← store b l.pos c
    let b ← store b (l.len + c.length) [0]
    return (true, { l with buf := some b, len := l.len + c.length, pos := l.pos + c.length, updatePos := min l.updatePos l.pos })

/-- `linebuf_delete`. The block that is moved is as long as the tail was before. -/
def delete (l : Line) (len : Nat) : Option Line := do
  let tail := l.len - l.pos
  let len := min len tail
  let b ← l.buf
  let b ← memmove b l.pos (l.pos + len) (tail + 1)
  return { l with buf := some b, len := l.len - len, updatePos := min l.updatePos l.pos }

/-- `linebuf_reset`. -/
def reset (l : Line) : Option Line := do
  let b ← l.buf
  let b ← store b 0 [0]
  return { l with buf := some b, pos := 0, len := 0, updatePos := 0 }

/-! ### Moving the cursor -/

/-- A byte that is read. -/
def read (l : Line) (i : Nat) : Option Byte := l.buf.bind (·[i]?)

/-- `utf8_move_left`. -/
def utf8MoveLeft (l : Line) : Nat → Option Nat
  | 0 => some 0
  | pos + 1 => if pos = 0 then some 0 else do if isUtf8Cont (← l.read pos) then l.utf8MoveLeft pos else return pos

/-- `utf8_move_right`, `left` bytes before the end of the text. -/
def utf8MoveRight (l : Line) : (left pos : Nat) → Option Nat
  | 0, pos => some pos
  | left + 1, pos => if left = 0 then some (pos + 1) else do if isUtf8Cont (← l.read (pos + 1)) then l.utf8MoveRight left (pos + 1) else return pos + 1

/-- How many bytes `delete_symbol` removes. -/
def symbolLength (utf8 : Bool) (l : Line) : Option Nat :=
  if utf8 then do return (← l.utf8MoveRight (l.len - l.pos) l.pos) - l.pos else some 1

/-- `move_left`, and whether the cursor moved. -/
def moveLeft (utf8 : Bool) (l : Line) : Option (Bool × Line) :=
  if l.pos = 0 then some (false, l)
  else if utf8 then do return (true, { l with pos := ← l.utf8MoveLeft l.pos })
  else some (true, { l with pos := l.pos - 1 })

/-- The cursor goes left while the byte under it is a space, or while it is none. -/
def skipLeft (spaces : Bool) (l : Line) : Nat → Option Nat
  | 0 => some 0
  | pos + 1 => do if isspaceByte (← l.read (pos + 1)) = spaces then l.skipLeft spaces pos else return pos + 1

/-- `move_word_left`. -/
def moveWordLeft (utf8 : Bool) (l : Line) : Option (Bool × Line) := do
  let (moved, l) ← l.moveLeft utf8
  if !moved then return (false, l)
  let pos ← l.skipLeft true l.pos
  let pos ← l.skipLeft false pos
  let pos := if isspaceByte (← l.read pos) then pos + 1 else pos
  return (true, { l with pos })

/-- `move_right`. -/
def moveRight (utf8 : Bool) (l : Line) : Option (Bool × Line) :=
  if l.pos ≥ l.len then some (false, l)
  else if utf8 then do return (true, { l with pos := ← l.utf8MoveRight (l.len - l.pos) l.pos })
  else some (true, { l with pos := l.pos + 1 })

/-- The cursor goes right over spaces or over a word. The byte is read before the end is tested. -/
def skipRight (spaces : Bool) (l : Line) : (left pos : Nat) → Option Nat
  | 0, pos => do
    let _ ← l.read pos
    return pos
  | left + 1, pos => do if isspaceByte (← l.read pos) = spaces then l.skipRight spaces left (pos + 1) else return pos

/-- `move_word_right`. -/
def moveWordRight (l : Line) : Option (Bool × Line) :=
  if l.pos = l.len then some (false, l)
  else do
    let pos ← l.skipRight false (l.len - l.pos) l.pos
    let pos ← l.skipRight true (l.len - pos) pos
    return (true, { l with pos })

/-! ### Setting the line -/

/-- How far the text is the same as before. -/
def commonPrefix (l : Line) (prevLen : Nat) : (i : Nat) → List Byte → Option Nat
  | i, [] => some i
  | i, c :: str => if prevLen ≤ i then some i else do if (← l.read i) ≠ c then return i else l.commonPrefix prevLen (i + 1) str

/-- The beginning of the symbol. The string of the caller ends with a NUL. -/
def symbolStart (str : List Byte) : Nat → Nat
  | 0 => 0
  | i + 1 => if isUtf8Cont (str.getD (i + 1) 0) then symbolStart str i else i + 1

/-- The buffer behind `memcpy` to its start. -/
def copyText (l : Line) (str : List Byte) : Option (Option (List Byte)) :=
  if str = [] then some l.buf else (l.buf.bind (store · 0 str)).map some

/-- `__uline_set_line`. -/
def setLine (utf8 : Bool) (mem : Memory) (l : Line) (str : List Byte) : Option Line := do
  let prevLen := l.len
  let (_, l) := ({ l with len := 0 } : Line).extend mem str.length
  let i ← l.commonPrefix prevLen 0 str
  let i := if i > prevLen then i - 1 else i
  let updatePos := if utf8 then symbolStart str i else i
  let buf ← l.copyText str
  return { l with buf, updatePos, len := str.length, pos := min l.pos str.length }

/-- `uline_set_cursor`. -/
def setCursor (l : Line) (pos : Nat) : Line := { l with pos := min pos l.len }

/-! ### Showing the line -/

/-- `while (*next <= 63) next++`. -/
def skipParams (b : List Byte) (next : Nat) : Option Nat := ((b.drop next).findIdx? (63 < ·)).map (next + ·)

/-- The reads of `__pos_add_string` for `len` bytes. What is left behind an escape sequence is counted modulo
    `2 ^ 64`; every round starts behind the one before. -/
def addStringLine (b : List Byte) : (fuel start len : Nat) → Option Unit
  | 0, _, _ => none
  | fuel + 1, start, len =>
    let text := (b.drop start).take len
    let i := text.findIdx (· = KEY_ESC)
    if i < text.length then do
      let next := start + i + 1
      let c ← b[next]?
      let next ← if c = 91 ∨ c = 79 then skipParams b (next + 1) else some next
      addStringLine b fuel (next + 1) ((len + 2 ^ 64 - (next + 1 - start)) % 2 ^ 64)
    else if start + len ≤ b.length then some () else none

/-- The reads of `pos_add_string`, one line of the text after another. -/
def addString (b : List Byte) (start len : Nat) : Option Unit :=
  let text := (b.drop start).take len
  let i := text.findIdx (· = 10)
  if _h : i < text.length then do
    if i ≠ 0 then addStringLine b (b.length + 1) start i
    addString b (start + i + 1) (len - (i + 1))
  else if b.length < start + len then none
  else if len = 0 then some ()
  else addStringLine b (b.length + 1) start len
termination_by len
decreasing_by
  have : text.length ≤ len := List.length_take_le len (b.drop start)
  omega

/-- `pos_add_string` of a part of the buffer. -/
def addBuf (l : Line) (start len : Nat) : Option Unit := if len = 0 then some () else l.buf.bind (addString · start len)

/-- `display_update_line`. The buffer is read from where it changed, or from the start. -/
def displayUpdateLine (fullUpdate : Bool) (l : Line) : Option Line := do
  let updatePos := if fullUpdate then 0 else l.updatePos
  l.addBuf 0 updatePos
  if updatePos < l.len then
    let _ ← l.buf.bind (load · updatePos (l.len - updatePos))
    l.addBuf updatePos (l.len - updatePos)
  return { l with updatePos := l.len }

end Line
end RainWrt.Uline

/-! How far a text moves the cursor on the screen: what `pos_add_string` reads, with the symbols that it counts. A function is
    `none` where the code would read behind the bytes `b`. -/

namespace RainWrt.Uline

/-! ### Symbols -/

/-- `R`, the interval of the bytes that may follow. -/
def symbolRange (a b : BitVec 32) : BitVec 32 := (if a = 0x80 then 0x40 - b else 0 - a) <<< 23

/-- `bittab`, for the first byte of a symbol from 0xc2 to 0xf4. -/
def bittab (lead : Byte) : BitVec 32 :=
  let any := symbolRange 0x80 0xc0
  let x := BitVec.ofNat 32 (lead.toNat % 16)
  if lead < 0xe0 then any ||| BitVec.ofNat 32 (lead.toNat % 32)
  else if lead < 0xf0 then
    (if x = 0 then symbolRange 0xa0 0xc0 else if x = 0xd then symbolRange 0x80 0xa0 else any) ||| any >>> 6 ||| x
  else (if x = 0 then symbolRange 0x90 0xc0 else if x = 4 then symbolRange 0x80 0x90 else any) ||| any >>> 6 ||| any >>> 12 ||| x

/-- `OOB`, whether the second byte is outside of its interval. -/
def outOfRange (c : BitVec 32) (b : Byte) : Bool :=
  let b := BitVec.ofNat 32 b.toNat >>> 3
  ((b - 0x10) ||| (b + c.sshiftRight 26)) &&& ~~~7 ≠ 0

/-- `c << 6 | *s++ - 0x80`. -/
def shiftIn (c : BitVec 32) (b : Byte) : BitVec 32 := c <<< 6 ||| (BitVec.ofNat 32 b.toNat - 0x80)

/-- `internal_mbtowc` of at most `n` bytes: how many bytes the symbol has, if it is one. -/
def mbtowc (b : List Byte) (s n : Nat) : Option (Option Nat) := do
  if n = 0 then return none
  let c0 ← b[s]?
  if c0 < 0x80 then return some (if c0 = 0 then 0 else 1)
  if c0 < 0xc2 ∨ 0xf4 < c0 then return none
  let c := bittab c0
  if n < 4 ∧ (c <<< (6 * n - 6)).msb then return none
  let c1 ← b[s + 1]?
  if outOfRange c c1 then return none
  let c := shiftIn c c1
  if !c.msb then return some 2
  let c2 ← b[s + 2]?
  if c2 < 0x80 ∨ 0xc0 ≤ c2 then return none
  if !(shiftIn c c2).msb then return some 3
  let c3 ← b[s + 3]?
  if c3 < 0x80 ∨ 0xc0 ≤ c3 then return none
  return some 4

/-- The reads of `utf8_nsyms`, from an offset on; every round reads a byte at least. -/
def utf8Nsyms (b : List Byte) (str len ofs : Nat) : Option Unit :=
  if _h : ofs < len then do
    let ret ← mbtowc b (str + ofs) (len - ofs)
    utf8Nsyms b str len (ofs + max 1 (min (ret.getD 0) len))
  else some ()
termination_by len - ofs

/-- `nsyms`. -/
def nsyms (utf8 : Bool) (b : List Byte) (str len : Nat) : Option Unit := if utf8 then utf8Nsyms b str len 0 else some ()

/-! ### Strings -/

/-- `memchr`, which reads up to the byte that it finds. -/
def memchr (b : List Byte) (str : Nat) (c : Byte) (len : Nat) : Option (Option Nat) :=
  let text := (b.drop str).take len
  let i := text.findIdx (· = c)
  if i < text.length then some (some i) else if str + len ≤ b.length then some none else none

/-- The reads of `__pos_add_string`. -/
def posAddLine (utf8 : Bool) (b : List Byte) : (fuel str len : Nat) → Option Unit
  | 0, _, _ => none
  | fuel + 1, str, len => do
    match ← memchr b str KEY_ESC len with
    | some i =>
      nsyms utf8 b str i
      let next := str + i + 1
      let c ← b[next]?
      let next ← if c = 91 ∨ c = 79 then Line.skipParams b (next + 1) else some next
      posAddLine utf8 b fuel (next + 1) ((len + 2 ^ 64 - (next + 1 - str)) % 2 ^ 64)
    | none => nsyms utf8 b str len

/-- The reads of `pos_add_string`. -/
def posAddString (utf8 : Bool) (b : List Byte) (str len : Nat) : Option Unit :=
  if len = 0 then some ()
  else
    match h : memchr b str 10 len with
    | none => none
    | some none => posAddLine utf8 b (b.length + 1) str len
    | some (some i) => do
      if i ≠ 0 then posAddLine utf8 b (b.length + 1) str i
      posAddString utf8 b (str + i + 1) (len - (i + 1))
termination_by len
decreasing_by omega

end RainWrt.Uline
