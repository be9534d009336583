import RainWrt.BaseFiles.Ipv4

/-! The words that the shell makes of an expansion without quotes, and `echo`. -/

namespace RainWrt.BaseFiles

/-- A character of `IFS`. -/
def isIfs (c : Char) : Bool := c = ' ' || c = '\t' || c = '\n'

/-- The fields of a text, from within a field that began with `word`. -/
def fieldsFrom : (word s : Text) → List Text
  | word, [] => if word = [] then [] else [word]
  | word, c :: s =>
    if isIfs c then if word = [] then fieldsFrom [] s else word :: fieldsFrom [] s
    else fieldsFrom (word ++ [c]) s

def fields (s : Text) : List Text := fieldsFrom [] s

/-- What the shell finds around itself. -/
structure Shell where
  /-- The paths that match a word, or the word. -/
  paths : Text → List Text
  /-- What `echo -e` prints of a text. -/
  escapes : Text → Text

/-- The words of an expansion without quotes. -/
def Shell.words (sh : Shell) (s : Text) : List Text := (fields s).flatMap sh.paths

/-- The options at the start of the arguments of `echo`: whether it interprets escapes, and the other arguments. -/
def echoOptions : (escape : Bool) → List Text → Bool × List Text
  | escape, ('-' :: o :: os) :: args =>
    if (o :: os).all fun c => c = 'n' || c = 'e' || c = 'E' then
      echoOptions ((o :: os).foldl (fun escape c => if c = 'e' then true else if c = 'E' then false else escape) escape) args
    else (escape, ('-' :: o :: os) :: args)
  | escape, args => (escape, args)

/-- `echo -n`. -/
def Shell.echoN (sh : Shell) (args : List Text) : Text :=
  match echoOptions false args with
  | (true, args) => sh.escapes ([' '].intercalate args)
  | (false, args) => [' '].intercalate args

/-- `$(...)`, of what a command prints. -/
def substitute (s : Text) : Text := (s.reverse.dropWhile (· = '\n')).reverse

/-- Each match of a pattern without special characters replaced, with `skip` characters of a match still to come: `${s//pattern/by}`, and
    `s/pattern/by/g` of `sed`. -/
def replaceFrom (pattern rep : Text) : (skip : Nat) → Text → Text
  | _, [] => []
  | skip + 1, _ :: s => replaceFrom pattern rep skip s
  | 0, c :: s =>
    if pattern.isPrefixOf (c :: s) then rep ++ replaceFrom pattern rep (pattern.length - 1) s else c :: replaceFrom pattern rep 0 s

/-- `cut -d: -f` and a number, of a line. -/
def cut (field : Nat) (line : Text) : Text := if ':' ∈ line then ((line.splitOn ':')[field - 1]?).getD [] else line

end RainWrt.BaseFiles
