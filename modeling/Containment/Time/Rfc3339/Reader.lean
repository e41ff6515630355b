/-
Module: Containment.Time.Rfc3339.Reader
Purpose: Instants from RFC 3339 texts. The reader is lenient: blanks may stand between the parts, `T`
  may be any of `T`, `t` and a space, the year may be signed and longer than four digits, and any
  offset from UTC is taken into account.
Main exports: TimeFault, TimeFault.message, Instant.read
-/
import Containment.Text.Blank
import Containment.Time.Rfc3339

namespace Containment.Time

open Containment.Text

/-- Why a text is not an instant. -/
inductive TimeFault where
  | outOfRange
  | impossible
  | invalid
  | tooShort
  | trailing
deriving Repr, DecidableEq

/-- The wording of a fault. -/
def TimeFault.message : TimeFault → String
  | .outOfRange => "input is out of range"
  | .impossible => "no possible date and time matching input"
  | .invalid => "input contains invalid characters"
  | .tooShort => "premature end of input"
  | .trailing => "trailing input"

namespace Reader

/-- The largest value that a number may have on the way. -/
def numberLimit : Nat := 0x7fffffffffffffff

/-- Between one and `width` digits. -/
def number (width : Nat) (cs : List Char) : Except TimeFault (Nat × List Char) :=
  let digits := (cs.take width).takeWhile Decimal.isDigit
  match cs, digits with
  | [], _ => throw .tooShort
  | _, [] => throw .invalid
  | _, _ =>
    if Decimal.value digits ≤ numberLimit then pure (Decimal.value digits, cs.drop digits.length)
    else throw .outOfRange

/-- A number within bounds, after blanks. -/
def field (width low high : Nat) (cs : List Char) : Except TimeFault (Nat × List Char) := do
  let (n, rest) ← number width (skipBlanks cs)
  if low ≤ n ∧ n ≤ high then pure (n, rest) else throw .outOfRange

/-- A year fits in 32 bits with a sign; without a sign it has at most four digits. -/
def year (cs : List Char) : Except TimeFault (Int × List Char) := do
  let (n, rest) ←
    match skipBlanks cs with
    | '-' :: cs => (fun (n, rest) => (-(n : Int), rest)) <$> number cs.length cs
    | '+' :: cs => (fun (n, rest) => ((n : Int), rest)) <$> number cs.length cs
    | cs => (fun (n, rest) => ((n : Int), rest)) <$> number 4 cs
  if -2147483648 ≤ n ∧ n ≤ 2147483647 then pure (n, rest) else throw .outOfRange

/-- One given character. -/
def literal (c : Char) : List Char → Except TimeFault (List Char)
  | [] => throw .tooShort
  | d :: rest => if d = c then pure rest else throw .invalid

/-- What separates the date from the time. -/
def dateEnd : List Char → Except TimeFault (List Char)
  | [] => throw .tooShort
  | c :: rest => if c = 'T' ∨ c = 't' ∨ c = ' ' then pure rest else throw .invalid

/-- An optional point with digits, as nanoseconds. Digits after the ninth are skipped. -/
def fraction : List Char → Except TimeFault (Nat × List Char)
  | '.' :: cs => do
      let (n, rest) ← number 9 cs
      let used := cs.length - rest.length
      pure (n * Nat.pow 10 (9 - used), rest.dropWhile Decimal.isDigit)
  | cs => pure (0, cs)

/-- Two digits, the first of them at most five for minutes; a text shorter than two bytes ends too
soon. -/
def twoDigits (cs : List Char) : Except TimeFault ((Nat × Nat) × List Char) :=
  if (String.ofList cs).utf8ByteSize < 2 then throw .tooShort
  else
    match cs with
    | a :: b :: rest =>
      if Decimal.isDigit a && Decimal.isDigit b then pure ((a.toNat - 48, b.toNat - 48), rest)
      else throw .invalid
    | _ => throw .invalid

/-- The distance from UTC in seconds: `Z`, `UTC`, or a sign, two digits of hours and two digits of
minutes with colons or blanks between them. -/
def zone (cs : List Char) : Except TimeFault (Int × List Char) := do
  match cs with
  | 'Z' :: rest | 'z' :: rest => pure (0, rest)
  | u :: t :: c :: rest =>
    if u.toLower = 'u' ∧ t.toLower = 't' ∧ c.toLower = 'c' then pure (0, rest)
    else signed cs
  | _ => signed cs
where
  /-- An offset that starts with its sign. -/
  signed (cs : List Char) : Except TimeFault (Int × List Char) := do
    match cs with
    | [] => throw .tooShort
    | sign :: cs =>
      if sign = '+' ∨ sign = '-' ∨ sign = '\u2212' then
        let ((h, h'), cs) ← twoDigits cs
        let ((m, m'), rest) ← twoDigits (cs.dropWhile fun c => c = ':' || isBlank c)
        if 6 ≤ m then throw .outOfRange
        let seconds : Int := ((10 * h + h') * 3600 + (10 * m + m') * 60 : Nat)
        pure (if sign = '+' then seconds else -seconds, rest)
      else throw .invalid

end Reader

open Reader in
/-- Read an instant and convert it to UTC. -/
def Instant.read (cs : List Char) : Except TimeFault Instant := do
  let (year, cs) ← year cs
  let cs ← literal '-' (skipBlanks cs)
  let (month, cs) ← field 2 1 12 cs
  let cs ← literal '-' (skipBlanks cs)
  let (day, cs) ← field 2 1 31 cs
  let cs ← dateEnd cs
  let (hour, cs) ← field 2 0 23 cs
  let cs ← literal ':' (skipBlanks cs)
  let (minute, cs) ← field 2 0 59 cs
  let cs ← literal ':' (skipBlanks cs)
  let (second, cs) ← field 2 0 60 cs
  let (nanos, cs) ← fraction cs
  let (offset, cs) ← zone (skipBlanks cs)
  if !(skipBlanks cs).isEmpty then throw .trailing
  let date : Date := { year, month, day }
  if !date.isValid then throw .outOfRange
  if 86400 ≤ offset.natAbs then throw .outOfRange
  let (second, nanos) := if second = 60 then (59, nanos + 1000000000) else (second, nanos)
  let secs := date.toDays * 86400 + (hour * 3600 + minute * 60 + second : Nat) - offset
  let t : Instant := { secs, nanos }
  if t.inRange then pure t else throw .impossible

end Containment.Time
