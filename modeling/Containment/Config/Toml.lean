/-
Module: Containment.Config.Toml
Purpose: Configurations as TOML documents. Keys that are missing have their default, keys that nobody knows
  are passed over.
Main exports: Config.ofToml, Config.toToml
-/
import Containment.Config.Basic
import Containment.Text.Toml.Reader
import Containment.Text.Toml.Writer

namespace Containment

open Text

/-- The settings of the store's backend. -/
def StoreBackend.settings : StoreBackend → List (String × String)
  | .memory => [("backend", "memory")]
  | .files dir => [("backend", "files"), ("dir", dir)]

/-- The settings of the index's backend. -/
def IndexBackend.settings : IndexBackend → List (String × String)
  | .memory => [("backend", "memory")]
  | .database path => [("backend", "sqlite"), ("path", path)]

namespace Config

/-- A text. -/
def textOf? : Toml → Option String
  | .text s => some s
  | _ => none

/-- A number that is not negative. -/
def countOf? : Toml → Option Nat
  | .integer n => if 0 ≤ n then some n.toNat else none
  | _ => none

/-- The value of a key, or the default if the key is missing. -/
def fieldOr {α : Type} (entries : Toml.Entries) (key : String) (decode : Toml → Option α)
    (default : α) : Option α :=
  match entries.lookup key with
  | none => some default
  | some value => decode value

/-- The name of a backend and its one setting. A table names both by key; a list gives the name first. -/
def backendOf? (settingKey : String) : Toml → Option (String × Option Toml × Bool)
  | .table _ entries => do
    let name ← textOf? (← entries.lookup "backend")
    pure (name, entries.lookup settingKey, true)
  | value => do
    match ← value.items? with
    | [name] => pure (← textOf? name, none, true)
    | [name, setting] => pure (← textOf? name, some setting, false)
    | _ => none

/-- The choice between memory and one other backend with a path. A list has nothing after `memory`. -/
def choiceOf? {α : Type} (memory : α) (other : String) (make : String → α) (settingKey : String)
    (value : Toml) : Option α := do
  let (name, setting, optional) ← backendOf? settingKey value
  if name = "memory" then
    if optional then pure memory else none
  else if name = other then make <$> textOf? (← setting)
  else none

/-- The backend of the store. -/
def storeOf? : Toml → Option StoreBackend :=
  choiceOf? .memory "files" .files "dir"

/-- The backend of the index. -/
def indexOf? : Toml → Option IndexBackend :=
  choiceOf? .memory "sqlite" .database "path"

/-- The configuration in the entries of a document. -/
def ofEntries? (entries : Toml.Entries) : Option Config := do
  let base : Config := {}
  let dataDir ← fieldOr entries "data_dir" textOf? base.dataDir
  let maxDepth ← fieldOr entries "max_depth" countOf? base.maxDepth
  let defaultPageLimit ← fieldOr entries "default_page_limit" countOf? base.defaultPageLimit
  let maxPageLimit ← fieldOr entries "max_page_limit" countOf? base.maxPageLimit
  let cursorBatchSize ← fieldOr entries "cursor_batch_size" countOf? base.cursorBatchSize
  let eventCapacity ← fieldOr entries "event_channel_capacity" countOf? base.eventCapacity
  let store ← fieldOr entries "store" storeOf? base.store
  let index ← fieldOr entries "index" indexOf? base.index
  pure
    { dataDir, maxDepth, defaultPageLimit, maxPageLimit, cursorBatchSize, eventCapacity, store
      index }

/-- The configuration in a document, if it keeps the rules. -/
def ofToml (source : String) : Except ConfigError Config := do
  let some config := Toml.read? source >>= ofEntries? | throw .malformed
  config.validate
  pure config

/-- The numbers of a configuration with their keys. -/
def counts (config : Config) : List (String × Nat) :=
  [("max_depth", config.maxDepth), ("default_page_limit", config.defaultPageLimit),
    ("max_page_limit", config.maxPageLimit), ("cursor_batch_size", config.cursorBatchSize),
    ("event_channel_capacity", config.eventCapacity)]

/-- A configuration as a document. Integers of the format have 64 bits with a sign. -/
def toToml (config : Config) : Except ConfigError String := do
  if config.counts.any fun (_, n) => 0x8000000000000000 ≤ n then throw .outOfRange
  pure <|
    Toml.writePair "data_dir" (Toml.writeText config.dataDir) ++
      String.join (config.counts.map fun (key, n) => Toml.writePair key (toString n)) ++
      Toml.writeTable "store" config.store.settings ++
      Toml.writeTable "index" config.index.settings

end Config

end Containment
