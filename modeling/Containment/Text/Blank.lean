/-
Module: Containment.Text.Blank
Purpose: The blank characters (Unicode property `White_Space`) and the control characters (category
  Cc), with the trimming of blanks from texts given as lists of characters.
Main exports: isBlank, isControl, skipBlanks, trim
-/

namespace Containment.Text

/-- The characters with the Unicode property `White_Space`. -/
def isBlank (c : Char) : Bool :=
  let n := c.toNat
  (0x09 ≤ n && n ≤ 0x0d) || n == 0x20 || n == 0x85 || n == 0xa0 || n == 0x1680 ||
    (0x2000 ≤ n && n ≤ 0x200a) || n == 0x2028 || n == 0x2029 || n == 0x202f || n == 0x205f ||
    n == 0x3000

/-- The characters of Unicode category Cc. -/
def isControl (c : Char) : Bool :=
  let n := c.toNat
  n < 0x20 || (0x7f ≤ n && n < 0xa0)

/-- Drop the blanks at the front. -/
def skipBlanks (cs : List Char) : List Char :=
  cs.dropWhile isBlank

/-- Drop the blanks at both ends. -/
def trim (s : String) : String :=
  String.ofList ((skipBlanks (skipBlanks s.toList).reverse).reverse)

end Containment.Text
