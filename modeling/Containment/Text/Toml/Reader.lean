/-
Module: Containment.Text.Toml.Reader
Purpose: Reading TOML documents. The reader takes characters off the front and gives up at the first that
  does not fit.
Main exports: Toml.read?
-/
import Containment.Text.Toml.Scalar

namespace Containment.Text.Toml

/-- Reading takes characters off the front. -/
abbrev Scan := StateT (List Char) Option

/-- Blanks within a line. -/
def isSpace (c : Char) : Bool :=
  c == ' ' || c == '\t'

/-- Characters that may stand in texts and comments as they are; line ends are not among them. -/
def isPlain (c : Char) : Bool :=
  c == '\t' || (0x20 ≤ c.toNat && c.toNat ≠ 0x7f)

/-- What is left to read. -/
def rest : Scan (List Char) := get

/-- The longest run of certain characters. -/
def spanOf (p : Char → Bool) : Scan (List Char) := do
  let cs ← rest
  set (cs.dropWhile p)
  pure (cs.takeWhile p)

/-- Blanks within a line. -/
def spaces : Scan Unit := do
  let _ ← spanOf isSpace

/-- A certain character. -/
def expect (c : Char) : Scan Unit := do
  match ← rest with
  | d :: cs => if d = c then set cs else failure
  | [] => failure

/-- A certain character, if it comes next. -/
def accept (c : Char) : Scan Bool := do
  match ← rest with
  | d :: cs => if d = c then do set cs; pure true else pure false
  | [] => pure false

/-- A line end, if it comes next. -/
def lineEnd : Scan Bool := do
  match ← rest with
  | '\n' :: cs => do set cs; pure true
  | '\r' :: '\n' :: cs => do set cs; pure true
  | _ => pure false

/-- A comment, if one comes next. -/
def comment : Scan Unit := do
  if ← accept '#' then
    let _ ← spanOf isPlain

/-- The end of a line that has said something: blanks, perhaps a comment, and the line end or the end of the
document. -/
def endOfLine : Scan Unit := do
  spaces
  comment
  if ← lineEnd then pure ()
  else if (← rest).isEmpty then pure ()
  else failure

/-- The character with a number given by hexadecimal digits. -/
def codePoint? (digits : List Char) : Option Char :=
  if digits.all fun c => (Hex.digitValue? c).isSome then
    let n := valueIn 16 digits
    if n < 0xd800 ∨ (0xdfff < n ∧ n < 0x110000) then some (Char.ofNat n) else none
  else none

/-- The character that a letter after a backslash stands for. -/
def escape? : Char → Option Char
  | 'b' => some '\x08'
  | 't' => some '\t'
  | 'n' => some '\n'
  | 'f' => some '\x0c'
  | 'r' => some '\r'
  | '"' => some '"'
  | '\\' => some '\\'
  | _ => none

/-- The inside of a text in double quotes and what follows the closing quote. -/
def basicBody : List Char → Option (List Char × List Char)
  | [] => none
  | '"' :: cs => some ([], cs)
  | '\\' :: 'u' :: a :: b :: c :: d :: cs => do
    let x ← codePoint? [a, b, c, d]
    let (body, cs) ← basicBody cs
    pure (x :: body, cs)
  | '\\' :: 'U' :: a :: b :: c :: d :: e :: f :: g :: h :: cs => do
    let x ← codePoint? [a, b, c, d, e, f, g, h]
    let (body, cs) ← basicBody cs
    pure (x :: body, cs)
  | '\\' :: c :: cs => do
    let x ← escape? c
    let (body, cs) ← basicBody cs
    pure (x :: body, cs)
  | c :: cs =>
    if isPlain c then do
      let (body, cs) ← basicBody cs
      pure (c :: body, cs)
    else none

/-- The inside of a text in single quotes and what follows the closing quote. -/
def literalBody : List Char → Option (List Char × List Char)
  | [] => none
  | '\'' :: cs => some ([], cs)
  | c :: cs =>
    if isPlain c then do
      let (body, cs) ← literalBody cs
      pure (c :: body, cs)
    else none

/-- What follows three closing quotes: up to two quotes before them belong to the text. -/
def closing (quote : Char) : List Char → List Char × List Char
  | a :: b :: cs =>
    if a = quote ∧ b = quote then ([quote, quote], cs)
    else if a = quote then ([quote], b :: cs)
    else ([], a :: b :: cs)
  | [a] => if a = quote then ([quote], []) else ([], [a])
  | [] => ([], [])

/-- Where the reader stands in a text over several lines: in the text, after a backslash that has to end its
line, or in the blanks that such a backslash swallows. -/
inductive LineState where
  | inside
  | joining
  | swallowing
deriving DecidableEq

/-- The inside of a text in three double quotes and what follows it. -/
def longBody : LineState → List Char → Option (List Char × List Char)
  | _, [] => none
  | .joining, '\r' :: '\n' :: cs => longBody .swallowing cs
  | .joining, c :: cs =>
    if c = '\n' then longBody .swallowing cs
    else if isSpace c then longBody .joining cs
    else none
  | .swallowing, '\r' :: '\n' :: cs => longBody .swallowing cs
  | _, '"' :: '"' :: '"' :: cs => some (closing '"' cs)
  | _, '\\' :: 'u' :: a :: b :: c :: d :: cs => do
    let x ← codePoint? [a, b, c, d]
    let (body, cs) ← longBody .inside cs
    pure (x :: body, cs)
  | _, '\\' :: 'U' :: a :: b :: c :: d :: e :: f :: g :: h :: cs => do
    let x ← codePoint? [a, b, c, d, e, f, g, h]
    let (body, cs) ← longBody .inside cs
    pure (x :: body, cs)
  | _, '\\' :: c :: cs =>
    if c = '\n' then longBody .swallowing cs
    else if isSpace c || c = '\r' then
      if c = '\r' ∧ cs.head? ≠ some '\n' then none else longBody .joining cs
    else do
      let x ← escape? c
      let (body, cs) ← longBody .inside cs
      pure (x :: body, cs)
  | _, '\r' :: '\n' :: cs => do
    let (body, cs) ← longBody .inside cs
    pure ('\n' :: body, cs)
  | state, c :: cs =>
    if state = .swallowing ∧ (isSpace c ∨ c = '\n') then longBody .swallowing cs
    else if isPlain c ∨ c = '\n' then do
      let (body, cs) ← longBody .inside cs
      pure (c :: body, cs)
    else none

/-- The inside of a text in three single quotes and what follows it. -/
def longLiteralBody : List Char → Option (List Char × List Char)
  | [] => none
  | '\'' :: '\'' :: '\'' :: cs => some (closing '\'' cs)
  | '\r' :: '\n' :: cs => do
    let (body, cs) ← longLiteralBody cs
    pure ('\n' :: body, cs)
  | c :: cs =>
    if isPlain c ∨ c = '\n' then do
      let (body, cs) ← longLiteralBody cs
      pure (c :: body, cs)
    else none

/-- Read a text by the reader of its inside. -/
def bodyBy (body : List Char → Option (List Char × List Char)) : Scan String := do
  match body (← rest) with
  | none => failure
  | some (chars, cs) =>
    set cs
    pure (String.ofList chars)

/-- A text on one line. -/
def shortText : Scan String := do
  if ← accept '"' then bodyBy basicBody
  else do
    expect '\''
    bodyBy literalBody

/-- A text. A line end right after three opening quotes does not count. -/
def anyText : Scan String := do
  match ← rest with
  | '"' :: '"' :: '"' :: cs => do
    set cs
    let _ ← lineEnd
    bodyBy (longBody .inside)
  | '\'' :: '\'' :: '\'' :: cs => do
    set cs
    let _ ← lineEnd
    bodyBy longLiteralBody
  | _ => shortText

/-- The characters of keys without quotes. -/
def isBareKey (c : Char) : Bool :=
  c.isAlphanum || c == '_' || c == '-'

/-- One part of a key. -/
def keyPart : Scan String := do
  match (← rest).head? with
  | some '"' | some '\'' => shortText
  | _ => do
    let cs ← spanOf isBareKey
    if cs.isEmpty then failure
    pure (String.ofList cs)

/-- The further parts of a key, of which there are at most `fuel`. -/
def keyParts : Nat → Scan (List String)
  | 0 => failure
  | fuel + 1 => do
    spaces
    if ← accept '.' then
      spaces
      let part ← keyPart
      let parts ← keyParts fuel
      pure (part :: parts)
    else pure []

/-- How many parts a key may have. -/
def maxKeyParts : Nat := 79

/-- A key: what comes before its last part, and the last part. -/
def key : Scan (List String × String) := do
  let first ← keyPart
  let parts := first :: (← keyParts ((← rest).length + 1))
  if maxKeyParts < parts.length then failure
  match parts.getLast? with
  | some last => pure (parts.dropLast, last)
  | none => failure

/-- A number, a moment or a truth value. -/
def word : Scan Toml := do
  let first ← spanOf wordChar
  let tail ← rest
  match tail with
  | ' ' :: cs =>
    let next := cs.takeWhile wordChar
    if extendsDate first next then do
      set (cs.dropWhile wordChar)
      ofWord? (first ++ [' '] ++ next)
    else ofWord? first
  | _ => ofWord? first

/-- Blanks, line ends and comments between the items of a list. -/
def gap : Nat → Scan Unit
  | 0 => failure
  | fuel + 1 => do
    spaces
    comment
    if ← lineEnd then gap fuel else pure ()

/-- How deep lists and tables in braces may be nested. -/
def maxNesting : Nat := 79

mutual

/-- A value in which lists and tables in braces are nested no deeper than `depth`. -/
def value (depth : Nat) : Nat → Scan Toml
  | 0 => failure
  | fuel + 1 => do
    match (← rest).head?, depth with
    | some '"', _ | some '\'', _ => .text <$> anyText
    | some '[', depth + 1 => do
      expect '['
      .array <$> items depth fuel
    | some '\x7b', depth + 1 => do
      expect '\x7b'
      spaces
      if ← accept '\x7d' then pure (.table .inline [])
      else .table .inline <$> pairs depth fuel []
    | _, _ => word

/-- The items of a list up to its end. -/
def items (depth : Nat) : Nat → Scan (List Toml)
  | 0 => failure
  | fuel + 1 => do
    gap ((← rest).length + 1)
    if ← accept ']' then pure []
    else do
      let item ← value depth fuel
      gap ((← rest).length + 1)
      if ← accept ',' then
        let more ← items depth fuel
        pure (item :: more)
      else do
        expect ']'
        pure [item]

/-- The pairs of a table in braces up to its end. -/
def pairs (depth : Nat) : Nat → Entries → Scan Entries
  | 0, _ => failure
  | fuel + 1, entries => do
    let (path, last) ← key
    spaces
    expect '='
    spaces
    let v ← value depth fuel
    match Entries.addPair path last v .inline entries with
    | none => failure
    | some (_, entries) => do
      spaces
      if ← accept ',' then
        spaces
        pairs depth fuel entries
      else do
        expect '\x7d'
        pure entries

end

/-- A document while it is read: its tables, and the way to the table that lines add to. -/
structure Document where
  root : Entries := []
  current : List String := []

/-- A line that gives a value to a key. -/
def pairLine (doc : Document) : Scan Document := do
  let (path, last) ← key
  spaces
  expect '='
  spaces
  let v ← value maxNesting ((← rest).length + 1)
  match Entries.within .implied (Entries.addPair path last v) doc.current .header doc.root with
  | none => failure
  | some (_, root) => do
    endOfLine
    pure { doc with root }

/-- A line that opens a table. -/
def headerLine (doc : Document) : Scan Document := do
  expect '['
  let list ← accept '['
  spaces
  let (path, last) ← key
  spaces
  expect ']'
  if list then expect ']'
  let change := if list then Entries.openItem last else Entries.openTable last
  match Entries.within .implied change path .header doc.root with
  | none => failure
  | some (_, root) => do
    endOfLine
    pure { root, current := path ++ [last] }

/-- The lines of a document, of which there are at most `fuel`. -/
def lines : Nat → Document → Scan Document
  | 0, _ => failure
  | fuel + 1, doc => do
    spaces
    match (← rest).head? with
    | none => pure doc
    | some '#' => do
      endOfLine
      lines fuel doc
    | some '\n' | some '\r' => do
      if ← lineEnd then lines fuel doc else failure
    | some '[' => do
      let doc ← headerLine doc
      lines fuel doc
    | some _ => do
      let doc ← pairLine doc
      lines fuel doc

/-- The entries of a document. A byte order mark in front of it does not count. -/
def read? (source : String) : Option Entries :=
  let cs := match source.toList with
    | '\ufeff' :: cs => cs
    | cs => cs
  ((lines (cs.length + 1) {}).run cs).map fun (doc, _) => doc.root

end Containment.Text.Toml
