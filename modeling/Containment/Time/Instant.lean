/-
Module: Containment.Time.Instant
Purpose: Points in time as seconds since the Unix epoch and nanoseconds within the second.
Main exports: Instant, Instant.ofMillis, Instant.ofMillis?, Instant.toMillis, Instant.addNanos
-/
import Containment.Time.Calendar

namespace Containment.Time

/-- A point in time. `nanos` is below 10^9, except inside a leap second, where it runs on to 2·10^9. -/
structure Instant where
  secs : Int
  nanos : Nat
deriving Repr, DecidableEq, Inhabited

namespace Instant

/-- 1 January 1970, 00:00:00. -/
def epoch : Instant := { secs := 0, nanos := 0 }

/-- Earlier instants come first. -/
instance : Ord Instant where
  compare a b := (compare a.secs b.secs).then (compare a.nanos b.nanos)

/-- Whether the instant lies on a day of the supported range. -/
def inRange (t : Instant) : Bool :=
  minDay ≤ t.secs / 86400 && t.secs / 86400 ≤ maxDay

/-- The instant that many milliseconds after the epoch. -/
def ofMillis (ms : Int) : Instant :=
  { secs := ms / 1000, nanos := (ms % 1000).toNat * 1000000 }

/-- The instant that many milliseconds after the epoch, if it is in the supported range. -/
def ofMillis? (ms : Int) : Option Instant :=
  if (ofMillis ms).inRange then some (ofMillis ms) else none

/-- Whole milliseconds since the epoch, rounded down. -/
def toMillis (t : Instant) : Int :=
  t.secs * 1000 + (t.nanos / 1000000 : Nat)

/-- The instant some nanoseconds later (earlier, if negative). -/
def addNanos (t : Instant) (ns : Int) : Instant :=
  let total := (t.nanos : Int) + ns
  { secs := t.secs + total / 1000000000, nanos := (total % 1000000000).toNat }

/-- The instant without the part below a millisecond. -/
def floorMillis (t : Instant) : Instant :=
  ofMillis t.toMillis

end Instant

end Containment.Time
