/-
Module: Containment.Text.Quoted
Purpose: Texts in double quotes, as error messages show identifiers: what a reader cannot see, or
  would misread, is written as an escape.
Main exports: escaped, quoted
-/
import Containment.Text.Printable

namespace Containment.Text

/-- A code point as `\u` and its hexadecimal digits in braces. -/
def codePointEscape (c : Char) : String :=
  "\\u\x7b" ++ String.ofList (Nat.toDigits 16 c.toNat) ++ "\x7d"

/-- The form of one character inside double quotes. -/
def escaped (c : Char) : String :=
  if c = '\x00' then "\\0"
  else if c = '\t' then "\\t"
  else if c = '\r' then "\\r"
  else if c = '\n' then "\\n"
  else if c = '"' then "\\\""
  else if c = '\\' then "\\\\"
  else if isExtender c || !isPrintable c then codePointEscape c
  else String.singleton c

/-- A text in double quotes. -/
def quoted (s : String) : String :=
  "\"" ++ String.join (s.toList.map escaped) ++ "\""

end Containment.Text
