/-
Module: Containment.Text.Hex
Purpose: Bytes as pairs of hexadecimal digits, and words with a fixed number of digits.
Main exports: Hex.encode, Hex.decode?, Hex.word
-/

namespace Containment.Text.Hex

/-- The lower-case digit of a value below sixteen. -/
def digit (n : Nat) : Char :=
  Nat.digitChar (n % 16)

/-- The value of a digit of either case. -/
def digitValue? (c : Char) : Option Nat :=
  if '0' ≤ c ∧ c ≤ '9' then some (c.toNat - 48)
  else if 'a' ≤ c ∧ c ≤ 'f' then some (c.toNat - 87)
  else if 'A' ≤ c ∧ c ≤ 'F' then some (c.toNat - 55)
  else none

/-- Two lower-case digits a byte. -/
def encode (bytes : List UInt8) : String :=
  String.ofList (bytes.flatMap fun b => [digit (b.toNat / 16), digit b.toNat])

/-- Read pairs of digits. -/
def decodeDigits? : List Char → Option (List UInt8)
  | [] => some []
  | [_] => none
  | high :: low :: rest => do
      let h ← digitValue? high
      let l ← digitValue? low
      let bytes ← decodeDigits? rest
      pure (UInt8.ofNat (16 * h + l) :: bytes)

/-- The bytes that a text of digit pairs stands for. -/
def decode? (s : String) : Option (List UInt8) :=
  decodeDigits? s.toList

/-- The last `width` digits of a number, most significant first. -/
def fixedDigits : Nat → Nat → List Char
  | 0, _ => []
  | width + 1, n => fixedDigits width (n / 16) ++ [digit n]

/-- A 32-bit word as `0x` and eight digits. -/
def word (w : UInt32) : String :=
  "0x" ++ String.ofList (fixedDigits 8 w.toNat)

end Containment.Text.Hex
