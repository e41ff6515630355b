/-
Module: Containment.Cli.Grammar
Purpose: The options and arguments of the commands, and the values that they take.
Main exports: Grammar, Parameter, ValueForm, ValueForm.check, Grammar.top, Grammar.ofCommand?
-/
import Containment.Cli.Invocation
import Containment.Cli.Usage
import Containment.Text.Decimal

namespace Containment.Cli

open Text

/-- What a value has to look like. -/
inductive ValueForm where
  | text
  | path
  | number
  | format
  | order
  | memberType
  | containerType
  | assignment
deriving Repr, DecidableEq

/-- A number of 64 bits; a plus in front of it is allowed. -/
def readNumber? (s : String) : Option Nat :=
  let digits := match s.toList with
    | '+' :: rest => rest
    | cs => cs
  let n := Decimal.value digits
  if !digits.isEmpty && digits.all Decimal.isDigit && n < 0x10000000000000000 then some n else none

/-- The name of a way to show results. -/
def readFormat? : String → Option OutputFormat
  | "text" => some .text
  | "json" => some .json
  | _ => none

/-- The name of an order. -/
def readOrder? : String → Option SortOrder
  | "insertion" => some .insertion
  | "newest" => some .newestFirst
  | "id" => some .memberId
  | _ => none

/-- A key and the value after the first `=`; the key is not empty. -/
def readAssignment? (s : String) : Option (String × String) :=
  let cs := s.toList
  let name := cs.takeWhile (· ≠ '=')
  match cs.drop name.length with
  | [] => none
  | _ :: value => if name.isEmpty then none else some (String.ofList name, String.ofList value)

/-- Whether a value has a form. -/
def ValueForm.check (form : ValueForm) (s : String) : Except UsageFault Unit :=
  let demand (ok : Bool) (fault : UsageFault) : Except UsageFault Unit :=
    if ok then .ok () else .error fault
  match form with
  | .text => .ok ()
  | .path => demand (!s.isEmpty) .missingValue
  | .number => demand (readNumber? s).isSome .unreadableValue
  | .format => demand (readFormat? s).isSome .unlistedValue
  | .order => demand (readOrder? s).isSome .unlistedValue
  | .memberType => demand (MemberType.ofName? s).isSome .unlistedValue
  | .containerType => demand (ContainerType.parse s).toOption.isSome .unreadableValue
  | .assignment => demand (readAssignment? s).isSome .unreadableValue

/-- What a parameter does when it is met: it is on, it has one value, every further time adds values, or it
asks for help or for the version. -/
inductive Role where
  | switch
  | once (form : ValueForm)
  | each (form : ValueForm)
  | help
  | version
deriving Repr, DecidableEq

/-- A parameter: its name, its one-letter name, and its role. -/
structure Parameter where
  name : String
  letter : Option Char := none
  role : Role := .switch
deriving Repr, DecidableEq

/-- The parameters that are named and those that are told by their position. The first `required` of the
latter must be there. -/
structure Grammar where
  options : List Parameter
  positions : List Parameter := []
  required : Nat := 0

namespace Grammar

/-- The settings that every command has. -/
def shared : List Parameter :=
  [{ name := "config", letter := some 'c', role := .once .path },
    { name := "verbose", letter := some 'v' },
    { name := "format", role := .once .format },
    { name := "timeout-ms", role := .once .number },
    { name := "help", letter := some 'h', role := .help }]

/-- What may come before the command. -/
def top : Grammar :=
  { options := shared ++ [{ name := "version", letter := some 'V', role := .version }] }

/-- A command with its own parameters. -/
def command (required : Nat) (positions options : List Parameter) : Grammar :=
  { options := options ++ shared, positions, required }

/-- A parameter with one text, told by its position. -/
def one (name : String) : Parameter :=
  { name, role := .once .text }

/-- The parameters of a command. -/
def ofCommand? : String → Option Grammar
  | "init" => command 0 []
      [{ name := "data-dir", role := .once .path }, { name := "force" }]
  | "create" => command 0 [one "id"]
      [{ name := "parent", letter := some 'p', role := .once .text },
        { name := "type", letter := some 't', role := .once .containerType },
        { name := "title", role := .once .text }]
  | "show" | "delete" | "children" | "path" => command 1 [one "id"] []
  | "meta" => command 1 [one "id"]
      [{ name := "set", role := .each .assignment }, { name := "unset", role := .each .text }]
  | "add" | "rm" => command 2 [one "container", { name := "members", role := .each .text }] []
  | "ls" => command 1 [one "container"]
      [{ name := "offset", role := .once .number },
        { name := "limit", letter := some 'n', role := .once .number },
        { name := "sort", role := .once .order },
        { name := "type", letter := some 't', role := .once .memberType }, { name := "all" }]
  | "find" => command 1 [one "path"] []
  | "mv" => command 1 [one "id", one "parent"] [{ name := "root" }]
  | "rebuild" => command 0 [one "id"] []
  | "verify" => command 0 [] [{ name := "repair" }]
  | _ => none

/-- The option with a name. -/
def named? (grammar : Grammar) (name : String) : Option Parameter :=
  grammar.options.find? (·.name == name)

/-- The option with a letter. -/
def lettered? (grammar : Grammar) (letter : Char) : Option Parameter :=
  grammar.options.find? (·.letter == some letter)

end Grammar

end Containment.Cli
