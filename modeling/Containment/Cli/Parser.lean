/-
Module: Containment.Cli.Parser
Purpose: Understanding command lines. Words are read one by one; the value of an option may be the next word,
  and is looked at only when the word after it has been met.
Main exports: Invocation.parse
-/
import Containment.Cli.Grammar

namespace Containment.Cli

/-- The values that parameters were given, by name. -/
abbrev Given := List (String × List String)

/-- Where the reader stands: what was given so far, the parameter whose values are still coming in, whether
it waits for its one value, how many positions are taken, and whether only positions follow. -/
structure Reading where
  given : Given := []
  pending : Option (Parameter × List String) := none
  awaiting : Bool := false
  position : Nat := 0
  positionsOnly : Bool := false

namespace Reading

/-- Note the values of a parameter. -/
def record (r : Reading) (p : Parameter) (values : List String) : Except UsageFault Reading := do
  let known := r.given.lookup p.name
  match p.role with
  | .help => throw .helpRequested
  | .version => throw .versionRequested
  | .switch =>
    if known.isSome then throw .conflictingArguments
    pure { r with given := r.given ++ [(p.name, [])] }
  | .once form =>
    if values.isEmpty then throw .missingValue
    if known.isSome then throw .conflictingArguments
    values.forM form.check
    pure { r with given := r.given ++ [(p.name, values)] }
  | .each form =>
    if values.isEmpty then throw .missingValue
    values.forM form.check
    let others := r.given.filter (·.1 ≠ p.name)
    pure { r with given := others ++ [(p.name, known.getD [] ++ values)] }

/-- Finish the parameter whose values came in. -/
def settle (r : Reading) : Except UsageFault Reading :=
  let settled := { r with pending := none, awaiting := false }
  match r.pending with
  | none => .ok settled
  | some (p, values) => settled.record p values

/-- An option has been met, perhaps with its value. -/
def meet (r : Reading) (p : Parameter) (value : Option String) : Except UsageFault Reading :=
  match p.role, value with
  | .once _, none | .each _, none => do
    let r ← r.settle
    pure { r with pending := some (p, []), awaiting := true }
  | .once _, some v | .each _, some v => do
    let r ← r.settle
    r.record p [v]
  | _, some _ => throw .surplusValue
  | _, none => do
    let r ← r.settle
    r.record p []

/-- A word that starts with two dashes. -/
def long (grammar : Grammar) (r : Reading) (word : List Char) : Except UsageFault Reading :=
  let name := word.takeWhile (· ≠ '=')
  let value := match word.drop name.length with
    | [] => none
    | _ :: v => some (String.ofList v)
  match grammar.named? (String.ofList name) with
  | some p => r.meet p value
  | none => throw .unknownArgument

/-- The letters after one dash. The value of an option may follow its letter. -/
def short (grammar : Grammar) : List Char → Reading → Except UsageFault Reading
  | [], r => .ok r
  | c :: rest, r => do
    let some p := grammar.lettered? c | throw .unknownArgument
    match p.role with
    | .once _ | .each _ =>
      let value := match rest with
        | [] => none
        | '=' :: v => some (String.ofList v)
        | v => some (String.ofList v)
      r.meet p value
    | _ =>
      let r ← r.meet p none
      short grammar rest r

/-- A word that is told by its position; `surplus` is the fault if there is no position left. -/
def place (grammar : Grammar) (surplus : UsageFault) (r : Reading) (word : String) :
    Except UsageFault Reading := do
  let some p := grammar.positions[r.position]? | throw surplus
  match p.role, r.pending with
  | .each _, some (q, values) =>
    if q = p then pure { r with pending := some (p, values ++ [word]) }
    else
      let r ← r.settle
      pure { r with pending := some (p, [word]) }
  | .each _, none => pure { r with pending := some (p, [word]) }
  | _, _ =>
    let r ← r.settle
    pure { r with pending := some (p, [word]), position := r.position + 1 }

/-- A word that is neither a command nor after a double dash. -/
def word (grammar : Grammar) (surplus : UsageFault) (r : Reading) (w : String) :
    Except UsageFault Reading :=
  match w.toList with
  | ['-', '-'] => .ok { r with positionsOnly := true }
  | '-' :: '-' :: rest => r.long grammar rest
  | '-' :: c :: rest => r.short grammar (c :: rest)
  | _ =>
    match r.awaiting, r.pending with
    | true, some (p, _) => .ok { r with pending := some (p, [w]), awaiting := false }
    | _, _ => r.place grammar surplus w

/-- Whether a parameter was given. -/
def has (r : Reading) (name : String) : Bool :=
  (r.given.lookup name).isSome

end Reading

/-- Read the words of a command, which has no commands of its own. -/
def readCommand (grammar : Grammar) : List String → Reading → Except UsageFault Reading
  | [], r => r.settle
  | w :: rest, r => do
    let r ←
      if r.positionsOnly then r.place grammar .unknownArgument w
      else r.word grammar .unknownArgument w
    readCommand grammar rest r

/-- A command with its words: those after its name. Two parameters that exclude each other are reported
before one that is missing. -/
def commandOf (name : String) (words : List String) : Except UsageFault Reading := do
  let some grammar := Grammar.ofCommand? name | throw .invalidSubcommand
  let r ← readCommand grammar words {}
  if name = "mv" ∧ r.has "root" ∧ r.has "parent" then throw .conflictingArguments
  if (grammar.positions.take grammar.required).any fun p => !r.has p.name then throw .missingArgument
  pure r

/-- The words after `help` name at most one command. -/
def helpOn : List String → UsageFault
  | [] => .helpRequested
  | [name] =>
    if name = "help" ∨ (Grammar.ofCommand? name).isSome then .helpRequested else .invalidSubcommand
  | _ => .invalidSubcommand

/-- Read the words up to the command, and the command. -/
def readTop : List String → Reading → Except UsageFault (Reading × Option (String × Reading))
  | [], r => do
    let r ← r.settle
    pure (r, none)
  | w :: rest, r => do
    let isCommand := w = "help" || (Grammar.ofCommand? w).isSome
    if r.positionsOnly then
      throw (if isCommand then .unknownArgument else .invalidSubcommand)
    else if isCommand && !r.awaiting then
      if w = "help" then throw (helpOn rest)
      let command ← commandOf w rest
      let r ← r.settle
      pure (r, some (w, command))
    else
      let r ← r.word Grammar.top .invalidSubcommand w
      readTop rest r

/-- The one value of a parameter. -/
def Given.value? (given : Given) (name : String) : Option String :=
  given.lookup name >>= List.head?

/-- The command that its name and the values of its parameters stand for. -/
def Command.ofGiven (name : String) (given : Given) : Option Command :=
  let text (key default : String) : String := (given.value? key).getD default
  let values (key : String) : List String := (given.lookup key).getD []
  let on (key : String) : Bool := (given.lookup key).isSome
  match name with
  | "init" => some (.init (text "data-dir" "./ldp-data") (on "force"))
  | "create" => some (.create (given.value? "id") (text "parent" "")
      ((ContainerType.parse (text "type" "basic")).toOption.getD .basic) (given.value? "title"))
  | "show" => some (.inspect (text "id" ""))
  | "delete" => some (.delete (text "id" ""))
  | "meta" => some (.annotate (text "id" "") ((values "set").filterMap readAssignment?)
      (values "unset"))
  | "add" => some (.add (text "container" "") (values "members"))
  | "rm" => some (.remove (text "container" "") (values "members"))
  | "ls" => some (.list (text "container" "") ((readNumber? (text "offset" "0")).getD 0)
      (given.value? "limit" >>= readNumber?) ((readOrder? (text "sort" "insertion")).getD .insertion)
      (given.value? "type" >>= MemberType.ofName?) (on "all"))
  | "children" => some (.children (text "id" ""))
  | "path" => some (.path (text "id" ""))
  | "find" => some (.find (text "path" ""))
  | "mv" => some (.move (text "id" "") (given.value? "parent") (on "root"))
  | "rebuild" => some (.rebuild (given.value? "id"))
  | "verify" => some (.verify (on "repair"))
  | _ => none

/-- What a command line asks for. A setting that is given on both sides of the command has the value after
it. -/
def Invocation.parse (words : List String) : Except UsageFault Invocation := do
  let (outer, command) ← readTop words {}
  match command with
  | none => throw (if outer.given.isEmpty then .noArguments else .missingSubcommand)
  | some (name, inner) =>
    let setting (key : String) : Option String :=
      (inner.given.value? key).or (outer.given.value? key)
    match Command.ofGiven name inner.given with
    | none => throw .invalidSubcommand
    | some command =>
      pure
        { command
          config := (setting "config").getD "ldp.toml"
          verbose := inner.has "verbose" || outer.has "verbose"
          format := (setting "format" >>= readFormat?).getD .text
          timeoutMs := setting "timeout-ms" >>= readNumber? }

end Containment.Cli
