import RainWrt.Uline.Line

/-! The editor: what the bytes of the input and the calls of the program do to its lines. Output and the
    position on the screen are left out, as no access to a line depends on them. -/

namespace RainWrt.Uline

/-! ### Escape sequences -/

/-- `enum vt100_escape`, as far as it is decoded. -/
inductive Escape where
  | incomplete
  | unknown
  | ignore
  | cursorUp
  | cursorDown
  | cursorLeft
  | cursorWordLeft
  | cursorRight
  | cursorWordRight
  | cursorPos (data : Nat)
  | home
  | «end»
  | delete
  deriving DecidableEq

def isDigit (c : Byte) : Bool := 48 ≤ c ∧ c ≤ 57

/-- `strtoul` in base 10, with the text behind the number. -/
def strtoul (s : List Byte) : Nat × List Byte :=
  let t := s.dropWhile isspaceByte
  let (negative, t) := match t with
    | 43 :: t => (false, t)
    | 45 :: t => (true, t)
    | t => (false, t)
  let digits := t.takeWhile isDigit
  let number : Nat := digits.foldl (fun v d => v * 10 + (d.toNat - 48)) 0
  let value := if 2 ^ 64 ≤ number then 2 ^ 64 - 1 else if negative then (2 ^ 64 - number) % 2 ^ 64 else number
  if digits = [] then (0, s) else (value, t.dropWhile isDigit)

/-- The part of `vt100_esc_decode` behind the first digit. -/
def decodeNumber (s : List Byte) : Escape :=
  let (code, err) := strtoul s
  match err with
  | [] => .incomplete
  | 126 :: _ => if code = 1 then .home else if code = 3 then .delete else if code = 4 then .end
    else if code = 200 ∨ code = 201 then .ignore else .unknown
  | 59 :: err =>
    let (code2, err) := strtoul err
    match err with
    | [] => .incomplete
    | 82 :: _ => .cursorPos ((code2 <<< 16 ||| code % 2 ^ 16) % 2 ^ 32)
    | _ => .unknown
  | _ => .unknown

/-- `vt100_esc_decode`. -/
def vt100EscDecode (seq : List Byte) : Escape :=
  match seq.takeWhile (· ≠ 0) with
  | [] => .incomplete
  | first :: s =>
    if first ≠ 91 ∧ first ≠ 79 then .unknown
    else match s with
      | [] => .incomplete
      | 65 :: _ => .cursorUp
      | 66 :: _ => .cursorDown
      | 67 :: _ => .cursorRight
      | 68 :: _ => .cursorLeft
      | 70 :: _ => .end
      | 72 :: _ => .home
      | 53 :: 67 :: _ => .cursorWordRight
      | 53 :: 68 :: _ => .cursorWordLeft
      | c :: _ => if isDigit c then decodeNumber s else .unknown

/-! ### The editor -/

/-- `struct uline_state`. `esc` is `esc_seq` up to `esc_idx`, if this is not negative. -/
structure Editor where
  utf8 : Bool := true
  line : Line := {}
  line2 : Option Line := none
  repeatCount : Nat := 0
  repeatChar : Byte := 0
  rows : Nat := 0
  cols : Nat := 0
  fullUpdate : Bool := true
  stop : Bool := false
  esc : Option (List Byte) := none
  utf8Cont : Nat := 0

/-- An operation that writes to a line, or frees it, with the line as it is before. -/
inductive Note where
  | delete (l : Line) (len : Nat)
  | reset (l : Line)
  | setLine (l : Line) (str : List Byte)
  | calloc (fails : Bool)
  | line2Cursor (line2 : Option Line)

/-- The state of the program and what was done to its lines. -/
structure World where
  ed : Editor
  notes : List Note := []

/-- The code, which is `none` behind an access that is not in a buffer. -/
abbrev Ed := OptionT (StateM World)

/-- The two lines. -/
inductive Which where
  | main
  | second

namespace Ed

def note (n : Note) : Ed Unit := modify fun w => { w with notes := w.notes ++ [n] }

def editor : Ed Editor := return (← get).ed

def update (f : Editor → Editor) : Ed Unit := modify fun w => { w with ed := f w.ed }

/-- A pointer to a line is followed. -/
def line : Which → Ed Line
  | .main => return (← editor).line
  | .second => do
    match (← editor).line2 with
    | some l => return l
    | none => failure

def setLine : Which → Line → Ed Unit
  | .main, l => update fun ed => { ed with line := l }
  | .second, l => update fun ed => { ed with line2 := some l }

/-- A function of the line buffer. -/
def access {α : Type} (which : Which) (f : Line → Option (α × Line)) : Ed α := do
  match f (← line which) with
  | some (a, l) =>
    setLine which l
    return a
  | none => failure

def lift (f : Line → Option Line) (l : Line) : Option (Unit × Line) := (f l).map ((), ·)

def linebufDelete (which : Which) (len : Nat) : Ed Unit := do
  note (.delete (← line which) len)
  access which (lift (·.delete len))

def linebufReset (which : Which) : Ed Unit := do
  note (.reset (← line which))
  access which (lift Line.reset)

end Ed

/-! ### The calls of the program -/

/-- What a program calls: `uline_set_prompt` and the like, which `set_state` calls one after the other. -/
inductive Api where
  | setPrompt (str : List Byte)
  | setLine (mem : Memory) (str : List Byte)
  | setCursor (pos : Nat)
  | setLine2Prompt (fails : Bool) (str : Option (List Byte))
  | setLine2 (mem : Memory) (str : List Byte)
  | setLine2Cursor (pos : Nat)
  | hidePrompt
  | refreshPrompt
  | resetKeyInput
  | pollStop

namespace Ed

/-- `__uline_set_line`. -/
def ulineSetLine (which : Which) (mem : Memory) (str : List Byte) : Ed Unit := do
  let utf8 := (← editor).utf8
  note (.setLine (← line which) str)
  access which (lift (·.setLine utf8 mem str))

/-- The second line is shown below the first, and has the cursor. -/
def displayLine2 (fullUpdate : Bool) : Ed Which := do
  if (← editor).line2.isSome then
    access .second (lift (·.displayUpdateLine fullUpdate))
    return .second
  else return .main

/-- `display_update`. -/
def displayUpdate : Ed Unit := do
  let fullUpdate := (← editor).fullUpdate
  access .main (lift (·.displayUpdateLine fullUpdate))
  let which ← displayLine2 fullUpdate
  access which fun l => (l.addBuf 0 l.pos).map fun _ => ((), l)
  update fun ed => { ed with fullUpdate := false }

/-- There is a second line from now on. -/
def callocLine2 (fails : Bool) : Ed Unit := do
  if (← editor).line2.isNone then
    note (.calloc fails)
    update fun ed => { ed with line2 := if fails then none else some {} }

/-- `uline_set_line2_prompt`. -/
def setLine2Prompt (fails : Bool) (str : Option (List Byte)) : Ed Unit := do
  match str with
  | none => update fun ed => { ed with line2 := none }
  | some str =>
    callocLine2 fails
    let l ← line .second
    if l.prompt ≠ some str then
      setLine .second { l with prompt := some str }
      update fun ed => { ed with fullUpdate := true }

def api : Api → Ed Unit
  | .setPrompt str => do
    if (← editor).line.prompt ≠ some str then
      update fun ed => { ed with line := { ed.line with prompt := some str }, fullUpdate := true }
  | .setLine mem str => ulineSetLine .main mem str
  | .setCursor pos => access .main (lift fun l => some (l.setCursor pos))
  | .setLine2Prompt fails str => setLine2Prompt fails str
  | .setLine2 mem str => do if (← editor).line2.isSome then ulineSetLine .second mem str
  | .setLine2Cursor pos => do if (← editor).line2.isSome then access .second (lift fun l => some (l.setCursor pos))
  | .hidePrompt => update fun ed => { ed with fullUpdate := true }
  | .refreshPrompt => displayUpdate
  | .resetKeyInput => update fun ed => { ed with repeatChar := 0 }
  | .pollStop => update fun ed => { ed with stop := true }

end Ed

/-- What a callback calls and what it returns. -/
structure Reply where
  calls : List Api := []
  ret : Bool := false

/-- What the callbacks do while one byte is processed. None of them is called twice there. -/
structure Replies where
  keyInput : Reply := {}
  event : Reply := {}
  line : Reply := {}
  line2Update : Reply := {}
  line2Cursor : Reply := { ret := true }
  line2Newline : Reply := {}

namespace Ed

def callback (r : Reply) : Ed Bool := do
  r.calls.forM api
  return r.ret

/-! ### Keys -/

def deleteSymbol (which : Which) : Ed Bool := do
  let utf8 := (← editor).utf8
  let l ← line which
  if l.pos = l.len then return false
  let len ← access which fun l => (l.symbolLength utf8).map (·, l)
  linebufDelete which len
  return true

/-- `process_backword`. -/
def processBackword (which : Which) : Ed Bool := do
  let utf8 := (← editor).utf8
  let pos := (← line which).pos
  if !(← access which (·.moveWordLeft utf8)) then return false
  linebufDelete which (pos - (← line which).pos)
  return true

/-- The line that a cursor key is for. -/
def escLine (r : Replies) (esc : Escape) : Ed Which := do
  if (← editor).line2.isNone then return .main
  if esc = .delete then return .second
  if ← callback r.line2Cursor then
    note (.line2Cursor (← editor).line2)
    return .second
  return .main

/-- `process_esc`. -/
def processEsc (r : Replies) (esc : Escape) : Ed Bool := do
  let utf8 := (← editor).utf8
  let which ← escLine r esc
  match esc with
  | .cursorLeft => access which (·.moveLeft utf8)
  | .cursorWordLeft => access which (·.moveWordLeft utf8)
  | .cursorRight => access which (·.moveRight utf8)
  | .cursorWordRight => access which Line.moveWordRight
  | .cursorPos data =>
    let ed ← editor
    if ed.rows = data % 2 ^ 16 ∧ ed.cols = data >>> 16 then return false
    update fun ed => { ed with rows := data % 2 ^ 16, cols := data >>> 16, fullUpdate := true }
    let _ ← callback r.event
    return true
  | .home => access which fun l => some (true, { l with pos := 0 })
  | .end => access which fun l => some (true, { l with pos := l.len })
  | .cursorUp | .cursorDown =>
    let _ ← callback r.event
    return true
  | .delete => deleteSymbol which
  | .incomplete | .unknown | .ignore => return false

/-- The end of `process_newline`. -/
def newlineReset : Ed Bool := do
  update fun ed => { ed with fullUpdate := true }
  if (← editor).line.len ≠ 0 then linebufReset .main
  return true

/-- `process_newline` of a line that is not dropped. The program decides whether the line ends. -/
def processNewline (mem : Memory) (r : Replies) : Ed Bool := do
  if (← editor).line2.isSome then
    if ← callback r.line2Newline then return true
  update fun ed => { ed with line2 := none }
  let ret ← callback r.line
  update fun ed => { ed with stop := ret }
  if !ret then
    let _ ← access .main (·.insert mem [10])
    return true
  newlineReset

/-- The line that is edited. -/
def current : Ed Which := return if (← editor).line2.isSome then .second else .main

/-- `process_ctrl`. -/
def processCtrl (mem : Memory) (r : Replies) (c : Byte) : Ed Bool := do
  let which ← current
  match c with
  | 10 | 13 => processNewline mem r
  | 3 =>
    let _ ← callback r.event
    let _ ← newlineReset
    update fun ed => { ed with stop := true }
    return true
  | 4 =>
    if (← editor).line.len ≠ 0 then return false
    let _ ← callback r.event
    update fun ed => { ed with stop := true }
    return true
  | 8 | 127 =>
    let utf8 := (← editor).utf8
    if !(← access which (·.moveLeft utf8)) then return false
    let _ ← deleteSymbol which
    if (← editor).line2.isSome then
      let _ ← callback r.line2Update
    return true
  | 12 =>
    update fun ed => { ed with fullUpdate := true }
    return true
  | 21 =>
    linebufReset which
    return true
  | 1 => processEsc r .home
  | 5 => processEsc r .end
  | 23 => processBackword which
  | 27 =>
    update fun ed => { ed with esc := some [] }
    return false
  | _ => return false

/-- `check_utf8`. -/
def checkUtf8 (ed : Editor) (c : Byte) : Bool := ed.utf8 && (ed.utf8Cont ≠ 0 || c &&& 0xc0 = 0xc0)

/-- The number of bytes that follow the first byte of a symbol, as `handle_utf8` counts them. -/
def contBytes (c : Byte) : Nat := if c &&& 0xe0 = 0xc0 then 1 else if c &&& 0xf0 = 0xe0 then 2 else 3

/-- `handle_utf8`: whether more bytes of the symbol follow. -/
def handleUtf8 (c : Byte) : Ed Bool := do
  let ed ← editor
  if !ed.utf8 then return false
  if ed.utf8Cont = 0 then
    if c &&& 0xc0 ≠ 0xc0 then return false
    update fun ed => { ed with utf8Cont := contBytes c }
    return true
  if c &&& 0xc0 ≠ 0x80 then
    update fun ed => { ed with utf8Cont := 0 }
    return false
  update fun ed => { ed with utf8Cont := ed.utf8Cont - 1 }
  return ed.utf8Cont - 1 ≠ 0

/-- A byte that is no part of an escape sequence is a control character or a part of the text. -/
def handleKey (mem : Memory) (r : Replies) (c : Byte) : Ed Bool := do
  if c < 32 ∨ c = 127 then processCtrl mem r c
  else
    let which ← current
    if !(← access which (·.insert mem [c])) then return false
    if ← handleUtf8 c then return false
    if (← editor).line2.isSome then
      let _ ← callback r.line2Update
    return true

/-- What `process_char` does before the display is updated, and whether it is. -/
def handleChar (mem : Memory) (r : Replies) (c : Byte) : Ed Bool := do
  update fun ed => { ed with repeatCount := if ed.repeatChar ≠ c then 1 else ed.repeatCount + 1, repeatChar := c }
  let ed ← editor
  match ed.esc with
  | some seq =>
    let seq := seq ++ [c]
    let esc := vt100EscDecode seq
    if esc = .incomplete ∧ seq.length < 31 then
      update fun ed => { ed with esc := some seq }
      return false
    update fun ed => { ed with esc := none }
    processEsc r esc
  | none =>
    if !checkUtf8 ed c then
      if ← callback r.keyInput then return true
    handleKey mem r c

/-- `process_char`. -/
def processChar (mem : Memory) (r : Replies) (c : Byte) : Ed Unit := do
  if ← handleChar mem r c then
    if !(← editor).stop then displayUpdate

end Ed

/-- What happens to the editor. -/
inductive Event where
  | poll
  | byte (mem : Memory) (replies : Replies) (c : Byte)
  | window (replies : Replies) (cols rows : Nat)
  | eof (replies : Replies)
  | api (call : Api)

namespace Ed

/-- One event. A byte is read only while `uline_poll` runs. -/
def event : Event → Ed Unit
  | .poll => do
    displayUpdate
    update fun ed => { ed with stop := false }
  | .byte mem r c => do if !(← editor).stop then processChar mem r c
  | .window r cols rows => do
    let ed ← editor
    if ed.cols ≠ cols ∨ ed.rows ≠ rows then
      update fun ed => { ed with cols, rows, fullUpdate := true }
      let _ ← callback r.event
  | .eof r => do
    let _ ← callback r.event
  | .api call => api call

def runEvents (events : List Event) : Ed Unit := events.forM event

end Ed
end RainWrt.Uline
