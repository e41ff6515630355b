/-
Module: Containment.Text.Decimal
Purpose: Decimal numbers in texts: digits of a number, digits padded to a width, and the value of a
  run of digits.
Main exports: Decimal.isDigit, Decimal.value, Decimal.padded, Decimal.alignRight, Decimal.alignLeft
-/

namespace Containment.Text.Decimal

/-- The ASCII digits. -/
def isDigit (c : Char) : Bool :=
  '0' ≤ c && c ≤ '9'

/-- The number that a run of digits stands for. -/
def value (digits : List Char) : Nat :=
  digits.foldl (fun n c => 10 * n + (c.toNat - 48)) 0

/-- The last `width` digits of a number, most significant first. -/
def fixedDigits : Nat → Nat → List Char
  | 0, _ => []
  | width + 1, n => fixedDigits width (n / 10) ++ [Nat.digitChar (n % 10)]

/-- All digits of a number, with zeros in front up to `width`. -/
def padded (width n : Nat) : List Char :=
  if n < Nat.pow 10 width then fixedDigits width n else Nat.toDigits 10 n

/-- A text moved to the right edge of a field. -/
def alignRight (width : Nat) (s : String) : String :=
  String.ofList (List.replicate (width - s.length) ' ') ++ s

/-- A text at the left edge of a field. -/
def alignLeft (width : Nat) (s : String) : String :=
  s ++ String.ofList (List.replicate (width - s.length) ' ')

@[simp] theorem length_fixedDigits (width n : Nat) : (fixedDigits width n).length = width := by
  induction width generalizing n with
  | zero => rfl
  | succ width ih => simp [fixedDigits, ih]

end Containment.Text.Decimal
