/-
Module: Containment.Text.Json
Purpose: JSON values and their two written forms: on one line without blanks, and spread over lines with two
  blanks a level. The fields of an object keep their order.
Main exports: Json, Json.compact, Json.spread
-/

namespace Containment.Text

/-- A JSON value without fractions. -/
inductive Json where
  | null
  | bool (value : Bool)
  | num (value : Int)
  | str (value : String)
  | arr (items : List Json)
  | obj (fields : List (String × Json))

namespace Json

/-- The form of one character inside a JSON text: what has a short escape takes it, other control
characters below blank are numbered, and all else stays. -/
def escapedChar (c : Char) : String :=
  if c = '"' then "\\\""
  else if c = '\\' then "\\\\"
  else if c = '\n' then "\\n"
  else if c = '\t' then "\\t"
  else if c = '\r' then "\\r"
  else if c.toNat = 8 then "\\b"
  else if c.toNat = 12 then "\\f"
  else if c.toNat < 0x20 then
    "\\u00" ++ String.ofList [Nat.digitChar (c.toNat / 16), Nat.digitChar (c.toNat % 16)]
  else String.singleton c

/-- A JSON text. -/
def quote (s : String) : String :=
  "\"" ++ String.join (s.toList.map escapedChar) ++ "\""

mutual

/-- A value on one line. -/
def compact : Json → String
  | .null => "null"
  | .bool true => "true"
  | .bool false => "false"
  | .num n => toString n
  | .str s => quote s
  | .arr items => "[" ++ ",".intercalate (compactItems items) ++ "]"
  | .obj fields => "\x7b" ++ ",".intercalate (compactFields fields) ++ "\x7d"

/-- The items of an array. -/
def compactItems : List Json → List String
  | [] => []
  | item :: rest => compact item :: compactItems rest

/-- The fields of an object. -/
def compactFields : List (String × Json) → List String
  | [] => []
  | (key, value) :: rest => (quote key ++ ":" ++ compact value) :: compactFields rest

end

/-- A line break and the blanks of a level. -/
def lineBreak (level : Nat) : String :=
  "\n" ++ String.ofList (List.replicate (2 * level) ' ')

/-- Lines between two brackets, or the brackets alone if there are none. -/
def block (opening closing : String) (level : Nat) (lines : List String) : String :=
  if lines.isEmpty then opening ++ closing
  else
    opening ++ lineBreak (level + 1) ++ ("," ++ lineBreak (level + 1)).intercalate lines ++
      lineBreak level ++ closing

mutual

/-- A value that begins on a line of some level and is spread over the following lines. -/
def spreadAt (level : Nat) : Json → String
  | .arr items => block "[" "]" level (spreadItems (level + 1) items)
  | .obj fields => block "\x7b" "\x7d" level (spreadFields (level + 1) fields)
  | .null => "null"
  | .bool true => "true"
  | .bool false => "false"
  | .num n => toString n
  | .str s => quote s

/-- The items of an array, one a line. -/
def spreadItems (level : Nat) : List Json → List String
  | [] => []
  | item :: rest => spreadAt level item :: spreadItems level rest

/-- The fields of an object, one a line. -/
def spreadFields (level : Nat) : List (String × Json) → List String
  | [] => []
  | (key, value) :: rest => (quote key ++ ": " ++ spreadAt level value) :: spreadFields level rest

end

/-- A value spread over lines. -/
def spread (value : Json) : String :=
  spreadAt 0 value

/-- A number without a sign. -/
def ofNat (n : Nat) : Json := .num n

/-- A value or nothing. -/
def ofOption {α : Type} (encode : α → Json) : Option α → Json
  | none => .null
  | some a => encode a

/-- A list of values. -/
def ofList {α : Type} (encode : α → Json) (items : List α) : Json :=
  .arr (items.map encode)

end Json

end Containment.Text
