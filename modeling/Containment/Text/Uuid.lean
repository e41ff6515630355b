/-
Module: Containment.Text.Uuid
Purpose: Unique identifiers of version 7 as texts: they begin with the time in milliseconds, so that later
  ones sort after earlier ones.
Main exports: Uuid.ofParts
-/
import Containment.Text.Hex

namespace Containment.Text.Uuid

/-- The identifier for a time and a number that tells it from others of the same time. -/
def ofParts (millis tail : Nat) : String :=
  let digits (width n : Nat) : String := String.ofList (Hex.fixedDigits width n)
  digits 8 (millis / 0x10000) ++ "-" ++ digits 4 millis ++ "-7" ++ digits 3 (tail / 0x4000000000000000) ++ "-" ++
    digits 4 (0x8000 + tail / 0x1000000000000 % 0x4000) ++ "-" ++ digits 12 tail

end Containment.Text.Uuid
