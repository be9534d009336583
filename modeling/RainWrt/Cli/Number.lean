import Mathlib

/-! Numbers of the scripts of the command line, and how texts become numbers. -/

namespace RainWrt.Cli

abbrev Text := List Char

/-- A number of the language. -/
inductive Number
  | int (i : Int)
  | frac (q : Rat)
  | inf (negative : Bool)
  | nan
deriving DecidableEq, Repr

namespace Number

/-- `a <= b`. -/
def le : Number → Number → Bool
  | .int a, .int b => a ≤ b
  | .int a, .frac q => a ≤ q
  | .frac p, .int b => p ≤ b
  | .frac p, .frac q => p ≤ q
  | .nan, _ | _, .nan => false
  | .inf true, _ | _, .inf false => true
  | .inf false, _ | _, .inf true => false

/-- `a > b`. -/
def gt (a b : Number) : Bool := b.le a && !a.le b

/-- `n - 1`. -/
def pred : Number → Number
  | .int i => .int (i - 1)
  | .frac q => .frac (q - 1)
  | n => n

end Number

/-- The text of digits, perhaps behind a sign. -/
def signed (negative : Bool) (ds : Text) : Text := if negative then '-' :: ds else ds

/-- Their value. -/
def signedValue (negative : Bool) (ds : Text) : Int :=
  if negative then -(Nat.ofDigitChars 10 ds 0 : Int) else Nat.ofDigitChars 10 ds 0

/-- An integer fits into the language's own. -/
def Fits (i : Int) : Prop := -2 ^ 63 ≤ i ∧ i < 2 ^ 63

instance (i : Int) : Decidable (Fits i) := inferInstanceAs (Decidable (_ ∧ _))

def decimal (i : Int) : Text := signed (i < 0) (Nat.toDigits 10 i.natAbs)

/-- The conversions of the language: of a text (or of no value) to a number by `+s`, of a number to its text by `"" + n`, and of a
    number to the position it stands for in `a[n]`. Digits that fit read as their value, whose text is the decimal one. -/
structure Coercion where
  number : Option Text → Number
  text : Number → Text
  index : Number → Option Int
  number_digits : ∀ negative ds, ds ≠ [] → ds.all Char.isDigit → Fits (signedValue negative ds) →
    number (some (signed negative ds)) = .int (signedValue negative ds)
  text_int : ∀ i, Fits i → text (.int i) = decimal i
  index_int : ∀ i, index (.int i) = some i

/-! ### Decimal texts -/

theorem toDigits_all_isDigit (n : Nat) : (Nat.toDigits 10 n).all Char.isDigit := by
  rw [List.all_eq_true]
  intro c hc
  exact Nat.isDigit_of_mem_toDigits (by decide) (by decide) hc

theorem signedValue_toDigits (i : Int) : signedValue (i < 0) (Nat.toDigits 10 i.natAbs) = i := by
  unfold signedValue
  rw [Nat.ofDigitChars_ten_toDigits]
  split
  · rename_i h
    have := of_decide_eq_true h
    omega
  · rename_i h
    have : 0 ≤ i := by simpa using h
    omega

theorem Coercion.number_decimal (c : Coercion) {i : Int} (h : Fits i) : c.number (some (decimal i)) = .int i := by
  have hv := signedValue_toDigits i
  have hread := c.number_digits (i < 0) (Nat.toDigits 10 i.natAbs) Nat.toDigits_ne_nil (toDigits_all_isDigit _) (by rwa [hv])
  rwa [hv] at hread

/-- A coercion that reads the digits, and nothing (or an empty text) as zero. -/
def Coercion.simple : Coercion where
  number
    | none => .int 0
    | some s =>
      let negative := s.head? = some '-'
      let ds := if negative then s.tail else s
      if ds.all Char.isDigit && (!ds.isEmpty || !negative) && decide (Fits (signedValue negative ds)) then
        .int (signedValue negative ds)
      else .nan
  text
    | .int i => decimal i
    | _ => ['N', 'a', 'N']
  index
    | .int i => some i
    | _ => none
  number_digits := by
    intro negative ds hne hall hfit
    cases negative with
    | true => simp [signed, hall, hfit, hne]
    | false =>
      have hhead : ds.head? ≠ some '-' := by
        intro h
        have := List.all_eq_true.mp hall '-' (List.mem_of_head? h)
        simp at this
      simp [signed, hall, hfit, hhead]
  text_int := fun _ _ => rfl
  index_int := fun _ => rfl

end RainWrt.Cli
