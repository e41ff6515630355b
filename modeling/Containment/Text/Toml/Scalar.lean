/-
Module: Containment.Text.Toml.Scalar
Purpose: The single words of a TOML document: numbers, moments and truth values.
Main exports: Toml.ofWord?, Toml.wordChar, Toml.extendsDate
-/
import Containment.Text.Decimal
import Containment.Text.Hex
import Containment.Text.Toml.Value

namespace Containment.Text.Toml

/-- The characters of numbers, moments and truth values. -/
def wordChar (c : Char) : Bool :=
  c.isAlphanum || c == '+' || c == '-' || c == '_' || c == '.' || c == ':'

/-- The digits of a number in which single underscores may stand between digits. -/
def digits? (isDigit : Char → Bool) : List Char → Option (List Char)
  | [] => none
  | [c] => if isDigit c then some [c] else none
  | c :: '_' :: rest => if isDigit c then (digits? isDigit rest).map (c :: ·) else none
  | c :: rest => if isDigit c then (digits? isDigit rest).map (c :: ·) else none

/-- The value of digits in a base. -/
def valueIn (base : Nat) (digits : List Char) : Nat :=
  digits.foldl (fun n c => base * n + (Hex.digitValue? c).getD 0) 0

/-- The largest integer. -/
def maxInteger : Int := 0x7fffffffffffffff

/-- An integer, if it is in the range of 64 bits. -/
def integer? (n : Int) : Option Toml :=
  if -maxInteger - 1 ≤ n ∧ n ≤ maxInteger then some (.integer n) else none

/-- Split a sign off; the answer tells whether it is a minus. -/
def signed : List Char → Bool × List Char
  | '+' :: rest => (false, rest)
  | '-' :: rest => (true, rest)
  | rest => (false, rest)

/-- The digits of a whole number, which has no zeros in front. -/
def wholeDigits? (cs : List Char) : Option (List Char) := do
  let digits ← digits? Decimal.isDigit cs
  if 1 < digits.length && digits.head? == some '0' then none
  pure digits

/-- An integer; the other bases have a mark and no sign. -/
def readInteger? (word : List Char) : Option Toml :=
  match word with
  | '0' :: 'x' :: rest => (digits? (fun c => (Hex.digitValue? c).isSome) rest).bind (integer? <| valueIn 16 ·)
  | '0' :: 'o' :: rest => (digits? (fun c => '0' ≤ c && c ≤ '7') rest).bind (integer? <| valueIn 8 ·)
  | '0' :: 'b' :: rest => (digits? (fun c => c == '0' || c == '1') rest).bind (integer? <| valueIn 2 ·)
  | word => do
    let (negative, rest) := signed word
    let n : Int := valueIn 10 (← wholeDigits? rest)
    integer? (if negative then -n else n)

/-- Whether a positive number is too large for a double: `mantissa · 10 ^ exponent` rounds above the
largest one. -/
def isHuge (mantissa : Nat) (exponent : Int) : Bool :=
  let size : Int := (Nat.toDigits 10 mantissa).length + exponent
  let bound := Nat.pow 2 1024 - Nat.pow 2 970
  if mantissa = 0 || size < 309 then false
  else if 309 < size then true
  else if 0 ≤ exponent then bound ≤ mantissa * Nat.pow 10 exponent.toNat
  else bound * Nat.pow 10 (-exponent).toNat ≤ mantissa

/-- The exponent part of a fraction, without its mark. -/
def exponent? (cs : List Char) : Option Int := do
  let (negative, rest) := signed cs
  let n : Int := valueIn 10 (← digits? Decimal.isDigit rest)
  pure (if negative then -n else n)

/-- The mark of an exponent. -/
def isExponentMark (c : Char) : Bool :=
  c == 'e' || c == 'E'

/-- A fraction: a whole number with places, an exponent or both, or one of the special values. -/
def readFraction? (word : List Char) : Option Toml := do
  let (negative, rest) := signed word
  if rest = "inf".toList || rest = "nan".toList then return .fraction
  let whole ← wholeDigits? (rest.takeWhile fun c => c != '.' && !isExponentMark c)
  let tail := rest.dropWhile fun c => c != '.' && !isExponentMark c
  let (places, tail) ← match tail with
    | '.' :: tail => do
      let places ← digits? Decimal.isDigit (tail.takeWhile fun c => !isExponentMark c)
      pure (places, tail.dropWhile fun c => !isExponentMark c)
    | [] => none
    | tail => pure ([], tail)
  let exponent ← match tail with
    | [] => pure 0
    | _ :: tail => exponent? tail
  if !negative && isHuge (valueIn 10 (whole ++ places)) (exponent - places.length) then none
  pure .fraction

/-- A number of exactly two digits in a range. -/
def twoDigits? (low high : Nat) : List Char → Option (List Char)
  | a :: b :: rest =>
    let n := valueIn 10 [a, b]
    if Decimal.isDigit a && Decimal.isDigit b && low ≤ n && n ≤ high then some rest else none
  | _ => none

/-- Take a character off the front. -/
def skip? (c : Char) : List Char → Option (List Char)
  | d :: rest => if d = c then some rest else none
  | [] => none

/-- The number of days of a month. -/
def daysIn (year month : Nat) : Nat :=
  if month = 2 then
    if year % 4 = 0 ∧ (year % 100 ≠ 0 ∨ year % 400 = 0) then 29 else 28
  else if month = 4 ∨ month = 6 ∨ month = 9 ∨ month = 11 then 30
  else 31

/-- Take a date off the front. -/
def skipDate? (cs : List Char) : Option (List Char) := do
  let year := cs.take 4
  if year.length < 4 || !year.all Decimal.isDigit then none
  let cs ← skip? '-' (cs.drop 4)
  let month := valueIn 10 (cs.take 2)
  let cs ← twoDigits? 1 12 cs
  let cs ← skip? '-' cs
  twoDigits? 1 (daysIn (valueIn 10 year) month) cs

/-- Take a time of the day off the front. -/
def skipTime? (cs : List Char) : Option (List Char) := do
  let cs ← twoDigits? 0 23 cs
  let cs ← skip? ':' cs
  let cs ← twoDigits? 0 59 cs
  let cs ← skip? ':' cs
  let cs ← twoDigits? 0 60 cs
  match cs with
  | '.' :: rest =>
    let after := rest.dropWhile Decimal.isDigit
    if after.length < rest.length then some after else none
  | cs => some cs

/-- Take the distance from universal time off the front. -/
def skipOffset? : List Char → Option (List Char)
  | [] => some []
  | 'Z' :: rest | 'z' :: rest => some rest
  | '+' :: rest | '-' :: rest => do
    let rest ← twoDigits? 0 23 rest
    let rest ← skip? ':' rest
    twoDigits? 0 59 rest
  | rest => some rest

/-- A date, a time, or both. -/
def readMoment? (word : List Char) : Option Toml :=
  let rest := match skipDate? word with
    | some [] => some []
    | some (mark :: rest) =>
      if mark = 'T' ∨ mark = 't' ∨ mark = ' ' then (skipTime? rest).bind skipOffset? else none
    | none => skipTime? word
  match rest with
  | some [] => some .moment
  | _ => none

/-- Whether a word is a date that the next word, after one blank, completes by a time. -/
def extendsDate (word next : List Char) : Bool :=
  skipDate? word == some [] && (twoDigits? 0 23 next).any fun rest => rest.head? == some ':'

/-- The value of a word. -/
def ofWord? (word : List Char) : Option Toml :=
  if word = "true".toList then some (.boolean true)
  else if word = "false".toList then some (.boolean false)
  else (readMoment? word).or ((readFraction? word).or (readInteger? word))

end Containment.Text.Toml
