/-
Module: Containment.Cli.Usage
Purpose: Why a command line is not carried out.
Main exports: UsageFault, UsageFault.exitCode, UsageFault.message
-/

namespace Containment.Cli

/-- What is wrong with a command line, or what it asks to be shown instead. -/
inductive UsageFault where
  | unknownArgument
  | invalidSubcommand
  | missingSubcommand
  | missingArgument
  | conflictingArguments
  | surplusValue
  | missingValue
  | unlistedValue
  | unreadableValue
  | noArguments
  | helpRequested
  | versionRequested
deriving Repr, DecidableEq

namespace UsageFault

/-- What the program answers to its caller: asking for help is no failure. -/
def exitCode : UsageFault → Nat
  | .helpRequested | .versionRequested => 0
  | _ => 2

/-- The wording of a fault. -/
def message : UsageFault → String
  | .unknownArgument => "unexpected argument found"
  | .invalidSubcommand => "unrecognized subcommand"
  | .missingSubcommand => "a subcommand is required but none was given"
  | .missingArgument => "a required argument was not given"
  | .conflictingArguments => "an argument cannot be used with another one or a second time"
  | .surplusValue => "an option takes no value but one was given"
  | .missingValue => "a value is required for an option but none was given"
  | .unlistedValue => "a value is none of the possible ones"
  | .unreadableValue => "a value cannot be read"
  | .noArguments | .helpRequested | .versionRequested => ""

end UsageFault

end Containment.Cli
