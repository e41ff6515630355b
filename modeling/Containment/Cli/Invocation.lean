/-
Module: Containment.Cli.Invocation
Purpose: What a command line asks for, once it has been understood.
Main exports: Invocation, Command, OutputFormat
-/
import Containment.Index.Entry

namespace Containment.Cli

/-- How results are shown. -/
inductive OutputFormat where
  | text
  | json
deriving Repr, DecidableEq, Inhabited

/-- The commands with their arguments. -/
inductive Command where
  | init (dataDir : String) (force : Bool)
  | create (id : Option String) (parent : String) (type : ContainerType) (title : Option String)
  | inspect (id : String)
  | delete (id : String)
  | annotate (id : String) (set : List (String × String)) (unset : List String)
  | add (container : String) (members : List String)
  | remove (container : String) (members : List String)
  | list (container : String) (offset : Nat) (limit : Option Nat) (sort : SortOrder)
      (type : Option MemberType) (all : Bool)
  | children (id : String)
  | path (id : String)
  | find (path : String)
  | move (id : String) (parent : Option String) (toRoot : Bool)
  | rebuild (id : Option String)
  | verify (repair : Bool)
deriving Repr, DecidableEq

/-- A command together with the settings that every command has. -/
structure Invocation where
  command : Command
  config : String := "ldp.toml"
  verbose : Bool := false
  format : OutputFormat := .text
  timeoutMs : Option Nat := none
deriving Repr, DecidableEq

end Containment.Cli
