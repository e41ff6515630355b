/-
Module: Containment.Time.Rfc3339
Purpose: Instants as RFC 3339 texts in UTC. The fraction has the fewest of 0, 3, 6 and 9 digits that
  loses nothing; a year outside 0 to 9999 carries its sign.
Main exports: Zone, yearDigits, fractionDigits, Instant.write, Instant.toText, Instant.toOffsetText
-/
import Containment.Text.Decimal
import Containment.Time.Instant

namespace Containment.Time

open Containment.Text

/-- The two ways to write the zone of UTC. -/
inductive Zone where
  | zulu
  | offset
deriving Repr, DecidableEq

/-- The characters of a zone. -/
def Zone.chars : Zone → List Char
  | .zulu => ['Z']
  | .offset => ['+', '0', '0', ':', '0', '0']

/-- Four digits for the years 0 to 9999, a sign and at least four digits for all others. -/
def yearDigits (year : Int) : List Char :=
  if 0 ≤ year ∧ year ≤ 9999 then Decimal.padded 4 year.toNat
  else (if year < 0 then '-' else '+') :: Decimal.padded 4 year.natAbs

/-- A point and 3, 6 or 9 digits, or nothing for a whole second. -/
def fractionDigits (nanos : Nat) : List Char :=
  if nanos = 0 then []
  else if nanos % 1000000 = 0 then '.' :: Decimal.fixedDigits 3 (nanos / 1000000)
  else if nanos % 1000 = 0 then '.' :: Decimal.fixedDigits 6 (nanos / 1000)
  else '.' :: Decimal.fixedDigits 9 nanos

namespace Instant

/-- The day of the instant. -/
def date (t : Instant) : Date :=
  Date.ofDays (t.secs / 86400)

/-- Seconds since midnight. -/
def secondOfDay (t : Instant) : Nat :=
  (t.secs % 86400).toNat

/-- The characters of an instant. A leap second is written as second 60. -/
def write (zone : Zone) (t : Instant) : List Char :=
  let date := t.date
  let ofDay := t.secondOfDay
  let leap := t.nanos / 1000000000
  yearDigits date.year ++ '-' :: Decimal.padded 2 date.month ++ '-' :: Decimal.padded 2 date.day ++
    'T' :: Decimal.padded 2 (ofDay / 3600) ++ ':' :: Decimal.padded 2 (ofDay / 60 % 60) ++
    ':' :: Decimal.padded 2 (ofDay % 60 + leap) ++
    fractionDigits (t.nanos - leap * 1000000000) ++ zone.chars

/-- The text with the zone `Z`, as records and answers hold it. -/
def toText (t : Instant) : String :=
  String.ofList (t.write .zulu)

/-- The text with the zone `+00:00`, as container metadata holds it. -/
def toOffsetText (t : Instant) : String :=
  String.ofList (t.write .offset)

end Instant

end Containment.Time
