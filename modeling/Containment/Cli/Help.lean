/-
Module: Containment.Cli.Help
Purpose: What the program tells about itself: its commands with their parameters, and what is wrong with a
  command line.
Main exports: helpText, versionText, UsageFault.report
-/
import Containment.Cli.Grammar

namespace Containment.Cli

/-- The commands and what each is for, in the order in which they are listed. -/
def purposes : List (String × String) :=
  [("init", "Write a repository configuration file"), ("create", "Create a container"),
    ("show", "Show a container"), ("delete", "Delete an empty container"),
    ("meta", "Set or remove container metadata"), ("add", "Add a member to a container"),
    ("rm", "Remove a member from a container"), ("ls", "List a container's members"),
    ("children", "List child containers"), ("path", "Print the root-to-container path"),
    ("find", "Resolve a slash-delimited container path"), ("mv", "Move a container under a new parent"),
    ("rebuild", "Rebuild the membership index from the primary store"),
    ("verify", "Compare the membership index against the primary store")]

/-- How an option is written. -/
def Parameter.optionForm (p : Parameter) : String :=
  let value := match p.role with
    | .once _ | .each _ => s!" <{p.name}>"
    | _ => ""
  match p.letter with
  | some c => s!"-{c}, --{p.name}{value}"
  | none => s!"--{p.name}{value}"

/-- How an argument is written: in brackets if it may be missing, with points if it may be repeated. -/
def Parameter.positionForm (p : Parameter) (required : Bool) : String :=
  let name := match p.role with
    | .each _ => s!"{p.name}..."
    | _ => p.name
  if required then s!"<{name}>" else s!"[{name}]"

/-- How a command is written, with the options that only it has. -/
def commandForm (name : String) : String :=
  match Grammar.ofCommand? name with
  | none => name
  | some grammar =>
    let positions := (grammar.positions.zipIdx).map fun (p, n) =>
      p.positionForm (n < grammar.required)
    let own := grammar.options.filter fun p => !Grammar.shared.contains p
    " ".intercalate (name :: positions ++ own.map fun p => s!"[{p.optionForm}]")

/-- What the program is for, its commands and the options of all commands. -/
def helpText : List String :=
  ["LDP container store: hierarchical containers with indexed membership", "",
    "Usage: ldpc [options] <command>", "", "Commands:"] ++
    purposes.flatMap (fun (name, purpose) => [s!"  {commandForm name}", s!"      {purpose}"]) ++
    ["", "Options:"] ++ Grammar.top.options.map fun p => s!"  {p.optionForm}"

/-- The name and the version. -/
def versionText : String :=
  "ldpc 0.1.0"

/-- The lines for a command line that is not carried out. -/
def UsageFault.report : UsageFault → List String
  | .helpRequested | .noArguments => helpText
  | .versionRequested => [versionText]
  | fault => [s!"error: {fault.message}", "", "For more information, try '--help'."]

end Containment.Cli
