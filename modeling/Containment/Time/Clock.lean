/-
Module: Containment.Time.Clock
Purpose: A clock that moves by a fixed step with every reading, so that successive readings differ.
Main exports: Clock, Clock.read, Clock.advance
-/
import Containment.Time.Instant

namespace Containment.Time

/-- A clock: the value of its next reading, and how many nanoseconds a reading moves it. -/
structure Clock where
  next : Instant
  step : Int := 1000000
deriving Repr, DecidableEq, Inhabited

namespace Clock

/-- Take a reading. -/
def read (clock : Clock) : Instant × Clock :=
  (clock.next, { clock with next := clock.next.addNanos clock.step })

/-- Move the clock without reading it. -/
def advance (clock : Clock) (ns : Int) : Clock :=
  { clock with next := clock.next.addNanos ns }

end Clock

end Containment.Time
