/-
Module: Containment.Config.Basic
Purpose: What a repository is configured with: where its data lives, its bounds, and its two backends.
Main exports: Config, Config.validate, Config.limits, StoreBackend, IndexBackend
-/
import Containment.Dispatch.Dispatcher
import Containment.Repository.Error
import Containment.Repository.Options
import Containment.Text.Path

namespace Containment

open Text

/-- Where records live. Relative paths lie below the data directory. -/
inductive StoreBackend where
  | memory
  | files (dir : String)
deriving Repr, DecidableEq, Inhabited

/-- Where the membership index lives. Relative paths lie below the data directory. -/
inductive IndexBackend where
  | memory
  | database (path : String)
deriving Repr, DecidableEq, Inhabited

/-- A configuration. -/
structure Config extends Limits where
  dataDir : String := "./ldp-data"
  eventCapacity : Nat := Dispatcher.defaultCapacity
  store : StoreBackend := .files "containers"
  index : IndexBackend := .database "index.db"
deriving Repr, DecidableEq

namespace Config

instance : Inhabited Config := ⟨{}⟩

/-- A configuration with both backends in memory. -/
def inMemory : Config :=
  { store := .memory, index := .memory }

/-- The rules of configurations; the first that is broken is reported. -/
def validate (config : Config) : Except ConfigError Unit := do
  if config.maxDepth = 0 then throw .zeroMaxDepth
  if config.defaultPageLimit = 0 ∨ config.maxPageLimit < config.defaultPageLimit then
    throw (.defaultPageLimit config.maxPageLimit)
  if config.cursorBatchSize = 0 then throw .zeroCursorBatchSize
  if config.eventCapacity = 0 then throw .zeroEventChannelCapacity

/-- The bounds. -/
def limits (config : Config) : Limits :=
  config.toLimits

/-- A path below the data directory. -/
def resolve (config : Config) (path : String) : String :=
  Path.join config.dataDir path

end Config

end Containment
