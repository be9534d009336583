import Mathlib

/-! The argument parser of the `uline` module: how a command line is split into lines and arguments, and
    how an argument is quoted for it. A byte is written as the character with its code. -/

namespace RainWrt.Uline

/-- The length that `strcspn` finds splits the text there. No text goes on behind a NUL. -/
def strcspn (reject text : List Char) : List Char × List Char :=
  (text.takeWhile fun c => c ≠ '\x00' ∧ c ∉ reject, text.dropWhile fun c => c ≠ '\x00' ∧ c ∉ reject)

/-- `isspace` of the C locale. -/
def isspace (c : Char) : Bool := c ∈ [' ', '\t', '\n', '\x0b', '\x0c', '\r']

/-- Where the parser stands with respect to quotes. -/
inductive Quoting where
  | unquoted
  | backslash
  | singleQuote
  | doubleQuote
  | doubleQuoteBackslash
  deriving DecidableEq

/-- `state_str`. -/
def Quoting.missing : Quoting → Option (List Char)
  | unquoted => none
  | backslash => some ['\\']
  | singleQuote => some ['\'']
  | doubleQuote => some ['"']
  | doubleQuoteBackslash => some ['\\', '"']

/-- The arguments of a line and where they stand in the text. -/
structure ArgLine where
  args : List (List Char) := []
  pos : List (Int × Int) := []
  deriving DecidableEq

/-- The variables of `uc_uline_parse_args`. `str` is the text that is left and `idx` is `str - start`;
    `list` and `pos_list` are those of the last line. -/
structure Parser where
  str : List Char
  idx : Nat := 0
  state : Quoting := .unquoted
  buf : Option (List Char) := none
  startIdx : Int := -1
  endIdx : Int := 0
  finished : List ArgLine := []
  line : ArgLine := {}
  deriving DecidableEq

namespace Parser

/-- `UNQUOTE_TOKENS` and the line separator, which is NUL if there is none. -/
def unquoteTok ( sep : Char) : List Char := [' ', '\t', '\r', '\n', '\'', '"', '\\', sep]

def skipSpace (p : Parser) : Parser :=
  { p with str := p.str.dropWhile isspace, idx := p.idx + (p.str.takeWhile isspace).length }

def addStr (buf : Option (List Char)) (text : List Char) : Option (List Char) :=
  if text = [] then buf else some (buf.getD [] ++ text)

/-- The argument in the buffer ends. -/
def push (p : Parser) : Parser :=
  match p.buf with
  | none => p
  | some arg =>
    { p with
      buf := none
      line := { args := p.line.args ++ [arg], pos := p.line.pos ++ [(p.startIdx, p.endIdx)] }
      startIdx := -1 }

def start (p : Parser) : Parser := if p.startIdx < 0 then { p with startIdx := p.idx } else p

/-- The text up to one of the characters goes into the buffer. -/
def copy (reject : List Char) (p : Parser) : Parser :=
  let split := strcspn reject p.str
  { p with str := split.2, idx := p.idx + split.1.length, buf := addStr p.buf split.1 }

def ended (p : Parser) : Parser := { p with endIdx := p.idx }

/-- `str++`, and the state that is entered there. -/
def enter (state : Quoting) (p : Parser) : Parser := { p with str := p.str.tail, idx := p.idx + 1, state }

/-- Behind an unquoted text. -/
def unquotedEnd ( sep : Char) (p : Parser) : Parser :=
  match p.str with
  | [] => p
  | c :: _ =>
    if c = '\x00' then p
    else if c = '\'' then { p.enter .singleQuote with buf := some (p.buf.getD []) }
    else if c = '"' then { p.enter .doubleQuote with buf := some (p.buf.getD []) }
    else if c = '\\' then { p.enter .backslash with buf := some (p.buf.getD []) }
    else if sep ≠ '\x00' ∧ c = sep then
      let p := (p.enter .unquoted).push
      { p with finished := p.finished ++ [p.line], line := {} }
    else p

/-- One round of the loop. -/
def step ( sep : Char) (p : Parser) : Parser :=
  match p.state with
  | .unquoted =>
    if p.str.head?.any isspace then p.skipSpace.push
    else (p.start.copy (unquoteTok sep)).ended.unquotedEnd sep
  | .backslash | .doubleQuoteBackslash =>
    let p := p.start
    let p := if p.str.head? = some '\n' then p else { p with buf := addStr p.buf (p.str.take 1) }
    (p.enter (if p.state = .backslash then .unquoted else .doubleQuote)).ended
  | .singleQuote =>
    let p := p.start.copy ['\'']
    (if p.str.head? = some '\'' then p.enter .unquoted else p).ended
  | .doubleQuote =>
    let p := p.start.copy ['"', '\\']
    (if p.str.head? = some '"' then p.enter .unquoted
      else if p.str.head? = some '\\' then p.enter .doubleQuoteBackslash
      else p).ended

/-! Every round reads something, so that the loop ends. -/

@[simp] theorem start_str (p : Parser) : p.start.str = p.str := by
  unfold start
  split <;> rfl

@[simp] theorem start_state (p : Parser) : p.start.state = p.state := by
  unfold start
  split <;> rfl

@[simp] theorem push_str (p : Parser) : p.push.str = p.str := by
  unfold push
  split <;> rfl

theorem copy_str_cons (reject : List Char) {p : Parser} {c : Char} {rest : List Char} (h : p.str = c :: rest) (hc : c ≠ '\x00') :
    (c ∈ reject ∧ (p.copy reject).str = p.str) ∨ (c ∉ reject ∧ (p.copy reject).str.length < p.str.length) := by
  by_cases hr : c ∈ reject
  · exact Or.inl ⟨hr, by simp [copy, strcspn, h, hr]⟩
  · refine Or.inr ⟨hr, ?_⟩
    simp only [copy, strcspn, h, List.dropWhile_cons, hc, hr, ne_eq, not_false_eq_true, and_self,
      decide_true, ↓reduceIte, List.length_cons]
    exact Nat.lt_succ_of_le (List.dropWhile_sublist _).length_le

theorem unquotedEnd_length ( sep : Char) (p : Parser) : (p.unquotedEnd sep).str.length ≤ p.str.length := by
  unfold unquotedEnd
  split
  · exact Nat.le_refl _
  · split_ifs <;> simp [enter]

theorem step_length ( sep : Char) (p : Parser) {c : Char} {rest : List Char} (h : p.str = c :: rest) (hc : c ≠ '\x00') :
    (p.step sep).str.length < p.str.length := by
  have hs : p.start.str = c :: rest := by rw [start_str, h]
  unfold step
  cases p.state with
  | unquoted =>
    simp only [h, List.head?_cons, Option.any_some]
    split_ifs with hsp
    · simp only [push_str, skipSpace, h, List.dropWhile_cons, hsp, ↓reduceIte, List.length_cons]
      exact Nat.lt_succ_of_le (List.dropWhile_sublist _).length_le
    · rw [← h]
      obtain ⟨hr, hcopy⟩ | ⟨-, hlt⟩ := copy_str_cons (unquoteTok sep) hs hc
      · have hin : c = '\'' ∨ c = '"' ∨ c = '\\' ∨ c = sep := by
          simp only [unquoteTok, List.mem_cons, List.not_mem_nil, or_false] at hr
          simp only [isspace, List.mem_cons, List.not_mem_nil, or_false, decide_eq_true_eq] at hsp
          tauto
        rw [hs] at hcopy
        simp only [unquotedEnd, ended, hcopy, hc, ↓reduceIte, h]
        split_ifs <;> simp_all [enter]
      · refine Nat.lt_of_le_of_lt (unquotedEnd_length sep _) ?_
        rw [start_str] at hlt
        exact hlt
  | backslash | doubleQuoteBackslash =>
    dsimp only
    split <;> simp [ended, enter, h]
  | singleQuote =>
    obtain ⟨hr, hcopy⟩ | ⟨-, hlt⟩ := copy_str_cons ['\''] hs hc
    · rw [List.mem_singleton] at hr
      simp [ended, enter, hcopy, h, hr]
    · rw [start_str] at hlt
      dsimp only
      split_ifs <;> simp only [ended, enter, List.length_tail] <;> omega
  | doubleQuote =>
    obtain ⟨hr, hcopy⟩ | ⟨-, hlt⟩ := copy_str_cons ['"', '\\'] hs hc
    · obtain rfl | rfl : c = '"' ∨ c = '\\' := by simpa using hr
      all_goals simp [ended, enter, hcopy, h]
    · rw [start_str] at hlt
      dsimp only
      split_ifs <;> simp only [ended, enter, List.length_tail] <;> omega

/-- The loop goes on while there is text, up to a NUL. -/
def loop ( sep : Char) (p : Parser) : Parser :=
  match _h : p.str with
  | [] => p
  | c :: _ => if _hc : c = '\x00' then p else (p.step sep).loop sep
termination_by p.str.length
decreasing_by
  exact p.step_length sep ‹_› ‹_›

end Parser

/-- The lines of the result are lists if there is a separator, and the only one stands for itself if there
    is none. -/
inductive Lines (α : Type) where
  | only (list : List α)
  | each (lists : List (List α))
  deriving DecidableEq

/-- The object that is returned. -/
structure Parsed where
  args : Lines (List Char)
  pos : Lines (Int × Int)
  missing : Option (List Char)
  deriving DecidableEq

/-- `uc_uline_argp_parse`. -/
def argpParse ( sep : Char) (text : List Char) : Parsed :=
  let p := (({ str := text } : Parser).skipSpace.loop sep).push
  let lines := p.finished ++ [p.line]
  if sep ≠ '\x00' then
    { args := .each (lines.map ArgLine.args), pos := .each (lines.map ArgLine.pos), missing := p.state.missing }
  else { args := .only p.line.args, pos := .only p.line.pos, missing := p.state.missing }

/-- How the quote itself is written between quotes. -/
def quoted (ref : Char) : List Char := if ref = '\'' then ['\'', '\\', '\'', '\''] else ['\\', '"']

/-- The loop of `uc_uline_argp_escape`, from one quote in the text to the next. -/
def escapeLoop (ref : Char) (str : List Char) : List Char :=
  match _h : str.dropWhile (· ≠ ref) with
  | [] => str
  | _ :: rest => str.takeWhile (· ≠ ref) ++ quoted ref ++ escapeLoop ref rest
termination_by str.length
decreasing_by
  have hle := (List.dropWhile_sublist (l := str) (· ≠ ref)).length_le
  rw [‹List.dropWhile _ _ = _›] at hle
  exact hle

/-- The quote that is used: the one asked for, or a double quote if the text has to be quoted. -/
def quoteFor (ref : Char) (str : List Char) : Char :=
  if ref ≠ '"' ∧ ref ≠ '\'' ∧ str.any (· ∈ ['\n', '\t', ' ', '\'', '"']) then '"' else ref

/-- The first byte of the reference argument, which is NUL if it is empty or not there. -/
def refChar (refArg : Option (List Char)) : Char := (refArg.bind List.head?).getD '\x00'

/-- `uc_uline_argp_escape`. -/
def argpEscape (refArg : Option (List Char)) (arg : List Char) : List Char :=
  let str := arg.takeWhile (· ≠ '\x00')
  let ref := quoteFor (refChar refArg) str
  if ref ≠ '"' ∧ ref ≠ '\'' then str
  else ref :: escapeLoop ref str ++ [ref]

end RainWrt.Uline
