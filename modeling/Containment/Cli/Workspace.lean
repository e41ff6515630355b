/-
Module: Containment.Cli.Workspace
Purpose: The files that commands work on, and opening a repository in them. Paths that lead to the same place
  are the same file.
Main exports: Workspace, Workspace.loadConfig, Workspace.openStore, Workspace.openIndex, Workspace.close,
  Workspace.changes, Origin
-/
import Containment.Config.Toml
import Containment.Index.Archive
import Containment.Text.Uuid
import Containment.World

namespace Containment.Cli

open Text Time

/-- Files by the shortest path to them, and the directories that are there besides the one that commands run
in. -/
structure Workspace where
  files : Std.ExtTreeMap String (List UInt8) := ∅
  directories : Std.ExtTreeSet String := ∅
deriving Inhabited

namespace Workspace

/-- The bytes of a file. -/
def read? (ws : Workspace) (path : String) : Option (List UInt8) :=
  ws.files[Path.normalize path]?

/-- Write a file. -/
def write (ws : Workspace) (path : String) (bytes : List UInt8) : Workspace :=
  { ws with files := ws.files.insert (Path.normalize path) bytes }

/-- Remove a file. -/
def remove (ws : Workspace) (path : String) : Workspace :=
  { ws with files := ws.files.erase (Path.normalize path) }

/-- Whether a path leads to a file. -/
def hasFile (ws : Workspace) (path : String) : Bool :=
  (ws.read? path).isSome

/-- Whether a path leads to a directory. -/
def hasDirectory (ws : Workspace) (path : String) : Bool :=
  let path := Path.normalize path
  path.isEmpty || path == "/" || ws.directories.contains path

/-- Make a directory and those on the way to it. -/
def makeDirectory (ws : Workspace) (path : String) : Workspace :=
  { ws with directories := ws.directories.insertMany (Path.ancestry path) }

/-- The name that a file has in a directory, if it lies there. -/
def nameIn? (dir path : String) : Option String :=
  let lead := (Path.normalize (Path.join dir "x")).toList.dropLast
  let cs := path.toList
  let name := cs.drop lead.length
  if lead.isPrefixOf cs && !name.contains '/' then some (String.ofList name) else none

/-- The files of a directory. -/
def directory (ws : Workspace) (dir : String) : Directory :=
  { path := dir
    files := Std.ExtTreeMap.ofList (ws.files.toList.filterMap fun (path, bytes) =>
      (nameIn? dir path).map fun name => (name, bytes)) }

/-- Put the files of a directory in the place of those that are there. -/
def setDirectory (ws : Workspace) (d : Directory) : Workspace :=
  let others := ws.files.filter fun path _ => (nameIn? d.path path).isNone
  { ws with files := d.files.toList.foldl (fun files (name, bytes) =>
      files.insert (Path.normalize (Path.join d.path name)) bytes) others }

/-- The configuration in a file. -/
def loadConfig (ws : Workspace) (path : String) : Except ConfigError Config :=
  match ws.read? path with
  | none => .error (.noFile path)
  | some bytes =>
    match Utf8.decode bytes with
    | .ok source => Config.ofToml source
    | .error _ => .error .malformed

/-- Make the directories that a configuration needs. -/
def prepare (ws : Workspace) (config : Config) : Workspace :=
  let ws := match config.store with
    | .memory => ws
    | .files dir => ws.makeDirectory (config.resolve dir)
  match config.index with
  | .memory => ws
  | .database path => ws.makeDirectory (Path.parent (config.resolve path))

/-- The store that a configuration names. -/
def openStore (ws : Workspace) (config : Config) : Store :=
  match config.store with
  | .memory => .empty
  | .files dir => .directory (ws.directory (config.resolve dir))

/-- Whether a database at a path is kept in no file. -/
def isFleeting (path : String) : Bool :=
  path == ":memory:"

/-- The index that a configuration names. -/
def openIndex (ws : Workspace) (config : Config) : Except IndexError Index :=
  match config.index with
  | .memory => .ok .empty
  | .database path =>
    let path := config.resolve path
    match TableIndex.ofBytes (if isFleeting path then [] else (ws.read? path).getD []) with
    | .ok t => .ok (.table t)
    | .error fault => .error (.database fault)

/-- Write back what a store and an index hold. -/
def close (ws : Workspace) (config : Config) (store : Store) (index : Index) : Workspace :=
  let ws := match store with
    | .memory _ => ws
    | .directory d => ws.setDirectory d
  match config.index, index with
  | .database path, .table t =>
    let path := config.resolve path
    if isFleeting path then ws else ws.write path t.toBytes
  | _, _ => ws

/-- What has to be done to files so that they hold what is in a workspace. -/
inductive Change where
  | makeDirectory (path : String)
  | write (path : String) (bytes : List UInt8)
  | remove (path : String)
deriving Repr, DecidableEq

/-- The changes from one workspace to another. -/
def changes (old new : Workspace) : List Change :=
  (new.directories.toList.filter fun path => !old.hasDirectory path).map .makeDirectory ++
    (new.files.toList.filter fun (path, bytes) => old.files[path]? ≠ some bytes).map
      (fun (path, bytes) => .write path bytes) ++
    (old.files.keys.filter fun path => !new.files.contains path).map .remove

end Workspace

/-- When and under which seed a command runs: the clock begins at `time`, and fresh identifiers are made of
the time and the numbers from `seed` on. -/
structure Origin where
  time : Instant
  seed : Nat := 0
deriving Inhabited

/-- The identifiers of commands that run then. -/
def Origin.ids (origin : Origin) : IdSource :=
  { render := fun n => Uuid.ofParts origin.time.toMillis.toNat (origin.seed + n) }

end Containment.Cli
