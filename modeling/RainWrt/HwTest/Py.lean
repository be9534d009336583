import Mathlib

/-! What the hardware-test runner uses of Python: exceptions, byte strings and texts. -/

namespace RainWrt.HwTest

abbrev Text := List Char
abbrev Bytes := List UInt8

scoped instance : LawfulBEq Text := inferInstance

/-! ### Exceptions -/

/-- The exceptions that the runner raises or meets. -/
inductive Exn where
  | stop (message : Text)
  | osError
  | fileExistsError
  | valueError (message : Text)
  | keyError (key : Text)
  | subprocessError
  | tarError
  | typeError
  | attributeError
  | indexError
  | recursionError
  /-- Not an exception: the bound on the number of rounds of a loop is used up. -/
  | outOfRounds
  deriving DecidableEq, Repr

abbrev Result (α : Type) := Except Exn α

def stop {α : Type} (message : String) : Result α := .error (.stop message.toList)

/-- `if c: raise Stop(message)`. -/
def stopIf (c : Prop) [Decidable c] (message : String) : Result Unit := if c then stop message else .ok ()

section
variable {α β : Type}

@[simp] theorem pure_ok (a : α) : (pure a : Result α) = .ok a := rfl

@[simp] theorem ok_bind (a : α) (f : α → Result β) : (Except.ok a >>= f) = f a := rfl

@[simp] theorem error_bind (e : Exn) (f : α → Result β) : (Except.error e >>= f) = .error e := rfl

theorem bind_eq_ok {x : Result α} {f : α → Result β} {b : β} : (x >>= f) = .ok b ↔ ∃ a, x = .ok a ∧ f a = .ok b := by
  cases x with
  | error e => simp
  | ok a => simp

theorem stopIf_eq_ok {c : Prop} [Decidable c] {message : String} {u : Unit} : stopIf c message = .ok u ↔ ¬c := by
  unfold stopIf
  split
  · rename_i h
    exact ⟨fun he => (nomatch he), fun hn => absurd h hn⟩
  · rename_i h
    exact ⟨fun _ => h, fun _ => rfl⟩

end

/-! ### Byte strings -/

/-- An ASCII literal. -/
def bytes (s : String) : Bytes := s.toList.map fun c => UInt8.ofNat c.toNat

/-- `\s` and what `strip` removes. -/
def isWs (b : UInt8) : Bool := b == 32 || (9 ≤ b && b ≤ 13)

def isEol (b : UInt8) : Bool := b == 10 || b == 13

/-- `splitlines(keepends=True)`; `cur` is the line so far. -/
def splitLinesFrom (cur : Bytes) : Bytes → List Bytes
  | [] => if cur = [] then [] else [cur]
  | 13 :: 10 :: t => (cur ++ [13, 10]) :: splitLinesFrom [] t
  | c :: t => if isEol c then (cur ++ [c]) :: splitLinesFrom [] t else splitLinesFrom (cur ++ [c]) t

def splitLinesKeep (data : Bytes) : List Bytes := splitLinesFrom [] data

def hexDigits : List Char := "0123456789abcdef".toList

def hexByte (b : UInt8) : Text := [hexDigits.getD (b.toNat / 16) '0', hexDigits.getD (b.toNat % 16) '0']

/-- `hexdigest()`. -/
def hexdigest (digest : Bytes) : Text := digest.flatMap hexByte

/-- `decode()`. -/
def decode (data : Bytes) : Result Text :=
  match String.fromUTF8? ⟨data.toArray⟩ with
  | some s => .ok s.toList
  | none => .error (.valueError "utf-8".toList)

/-- `encode()`, of a text of ASCII characters. -/
def encode (t : Text) : Bytes := t.map fun c => UInt8.ofNat c.toNat

/-! ### Texts -/

/-- A character that `str.strip` removes. -/
def isPySpace (c : Char) : Bool :=
  (9 ≤ c.toNat && c.toNat ≤ 13) || (28 ≤ c.toNat && c.toNat ≤ 32) || c.toNat == 133 || c.toNat == 160 || c.toNat == 5760 ||
    (8192 ≤ c.toNat && c.toNat ≤ 8202) || c.toNat == 8232 || c.toNat == 8233 || c.toNat == 8239 || c.toNat == 8287 || c.toNat == 12288

def strip (t : Text) : Text := ((t.dropWhile isPySpace).reverse.dropWhile isPySpace).reverse

/-- A character at which `str.splitlines` splits. -/
def isLineBreak (c : Char) : Bool :=
  (10 ≤ c.toNat && c.toNat ≤ 13) || (28 ≤ c.toNat && c.toNat ≤ 30) || c.toNat == 133 || c.toNat == 8232 || c.toNat == 8233

/-- `splitlines()`; `cur` is the line so far. -/
def splitTextFrom (cur : Text) : Text → List Text
  | [] => if cur = [] then [] else [cur]
  | '\r' :: '\n' :: t => cur :: splitTextFrom [] t
  | c :: t => if isLineBreak c then cur :: splitTextFrom [] t else splitTextFrom (cur ++ [c]) t

def splitlines (t : Text) : List Text := splitTextFrom [] t

/-- `removeprefix`. -/
def dropLead (pre t : Text) : Text := if pre.isPrefixOf t then t.drop pre.length else t

/-- `startswith`. -/
def startsWith (pre t : Text) : Bool := pre.isPrefixOf t

/-- `sorted`, of texts. -/
def sortTexts (l : List Text) : List Text := l.insertionSort (· ≤ ·)

/-- `set.add`. -/
def setAdd (l : List Text) (a : Text) : List Text := if a ∈ l then l else l ++ [a]

end RainWrt.HwTest
