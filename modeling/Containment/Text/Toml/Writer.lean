/-
Module: Containment.Text.Toml.Writer
Purpose: Writing TOML texts. A text is written in the first of these forms that shows it as it is: in double
  quotes, in single quotes, in three double quotes, in three single quotes; only if none does, it is
  escaped.
Main exports: Toml.writeText, Toml.writePair, Toml.writeTable
-/
import Containment.Text.Hex

namespace Containment.Text.Toml

/-- The longest run of a character. -/
def longestRun (c : Char) (cs : List Char) : Nat :=
  (cs.foldl (fun (longest, run) d =>
    let run := if d = c then run + 1 else 0
    (max longest run, run)) (0, 0)).1

/-- Control characters that only an escape can show. Tabs and line ends are not among them. -/
def needsEscape (c : Char) : Bool :=
  (c.toNat < 0x20 || c.toNat = 0x7f) && c != '\t' && c != '\n'

/-- The escape of a character, if it has one. Line ends are escaped where the text has to stay on one
line. -/
def escaped? (oneLine : Bool) (c : Char) : Option String :=
  if c = '\x08' then some "\\b"
  else if c = '\t' then some "\\t"
  else if c = '\n' then (if oneLine then some "\\n" else none)
  else if c = '\x0c' then some "\\f"
  else if c = '\r' then some "\\r"
  else if c = '\\' then some "\\\\"
  else if c.toNat < 0x20 || c.toNat = 0x7f then
    some ("\\u" ++ String.ofList ((Hex.fixedDigits 4 c.toNat).map Char.toUpper))
  else none

/-- The inside of a text in double quotes. `run` quotes have just been written; one more than
`allowed` in a row is escaped. -/
def escapedBody (oneLine : Bool) (allowed : Nat) : Nat → List Char → String
  | _, [] => ""
  | run, c :: cs =>
    if c = '"' then
      if allowed ≤ run then "\\\"" ++ escapedBody oneLine allowed 0 cs
      else "\"" ++ escapedBody oneLine allowed (run + 1) cs
    else
      match escaped? oneLine c with
      | some e => e ++ escapedBody oneLine allowed 0 cs
      | none => String.singleton c ++ escapedBody oneLine allowed 0 cs

/-- A text. -/
def writeText (s : String) : String :=
  let cs := s.toList
  let control := cs.any needsEscape
  let backslash := cs.contains '\\'
  let newline := cs.contains '\n'
  let double := longestRun '"' cs
  let single := longestRun '\'' cs
  let start := if newline then "\n" else ""
  let long := "\"\"\"" ++ start ++ escapedBody false 2 0 cs ++ "\"\"\""
  let short := "\"" ++ escapedBody true 0 0 cs ++ "\""
  if !control && !backslash && double = 0 && !newline then short
  else if !control && single = 0 && !newline then "'" ++ s ++ "'"
  else if !control && !backslash && double ≤ 2 then long
  else if !control && single ≤ 2 then "'''" ++ start ++ s ++ "'''"
  else if newline then long
  else short

/-- A line that gives a value to a key. -/
def writePair (key value : String) : String :=
  key ++ " = " ++ value ++ "\n"

/-- A table with its header and its texts. -/
def writeTable (name : String) (texts : List (String × String)) : String :=
  "\n[" ++ name ++ "]\n" ++ String.join (texts.map fun (key, value) => writePair key (writeText value))

end Containment.Text.Toml
