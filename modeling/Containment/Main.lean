/-
Module: Containment.Main
Purpose: The program. It reads the files that a command works with, carries the command out, and writes back
  what has changed; all decisions are made in `Containment.Cli`.
Main exports: main
-/
import Containment.Cli.Help
import Containment.Cli.Parser
import Containment.Cli.Run
import Std.Time.DateTime.Timestamp

namespace Containment.Cli

open Text Time

/-- Read a file, if it is there. -/
def fetch (path : String) (ws : Workspace) : IO Workspace := do
  try
    let bytes ← IO.FS.readBinFile path
    pure (ws.write path bytes.toList)
  catch _ => pure ws

/-- The names in a directory, if it is there. -/
def namesIn? (path : String) : IO (Option (List String)) := do
  try
    let place ← IO.FS.realPath path
    let entries ← place.readDir
    pure (some (entries.toList.map fun entry => entry.fileName))
  catch _ => pure none

/-- Note a directory, if it is there. -/
def note (path : String) (ws : Workspace) : IO Workspace := do
  pure (if (← namesIn? path).isSome then ws.makeDirectory path else ws)

/-- Read the files of a directory, if it is there. -/
def fetchAll (path : String) (ws : Workspace) : IO Workspace := do
  match ← namesIn? path with
  | some names => names.foldlM (fun ws name => fetch (Path.join path name) ws) (ws.makeDirectory path)
  | none => pure ws

/-- Read the files that a command works with. -/
def Invocation.fetch (inv : Invocation) : IO Workspace := do
  let ws ← note inv.config {} >>= note (Path.parent inv.config) >>= Cli.fetch inv.config
  match ws.loadConfig inv.config with
  | .error _ => pure ws
  | .ok config =>
    let ws ← match config.store with
      | .memory => pure ws
      | .files dir => fetchAll (config.resolve dir) ws
    match config.index with
    | .memory => pure ws
    | .database path => note (Path.parent (config.resolve path)) ws >>= Cli.fetch (config.resolve path)

/-- Carry out a change. -/
def Workspace.Change.apply : Workspace.Change → IO Unit
  | .makeDirectory path => if path.isEmpty then pure () else IO.FS.createDirAll path
  | .write path bytes => IO.FS.writeBinFile path (ByteArray.mk bytes.toArray)
  | .remove path => IO.FS.removeFile path

/-- When the program runs, and a number that another run is unlikely to have. -/
def Origin.current : IO Origin := do
  let now ← Std.Time.Timestamp.now
  let noise ← IO.getRandomBytes 9
  let nanos := now.toNanosecondsSinceUnixEpoch.val
  pure
    { time := { secs := nanos.ediv 1000000000, nanos := (nanos.emod 1000000000).toNat }
      seed := noise.toList.foldl (fun n byte => 256 * n + byte.toNat) 0 }

/-- Print the complaint of a command: what is wrong, and what is behind it. -/
def printComplaint : Complaint → IO Unit
  | [] => pure ()
  | error :: causes => do
    IO.eprintln s!"Error: {error}"
    unless causes.isEmpty do
      IO.eprintln "\nCaused by:"
      causes.forM fun cause => IO.eprintln s!"    {cause}"

/-- Carry out a command. -/
def Invocation.carryOut (inv : Invocation) : IO UInt32 := do
  let ws ← inv.fetch
  let outcome := inv.run (← Origin.current) ws
  (ws.changes outcome.workspace).forM Workspace.Change.apply
  outcome.stdout.forM fun line => IO.println line
  outcome.stderr.forM fun line => IO.eprintln line
  match outcome.complaint with
  | none => pure 0
  | some complaint =>
    printComplaint complaint
    pure 1

end Containment.Cli

open Containment.Cli

/-- The program: a command line that cannot be understood is answered with the reason. -/
def main (arguments : List String) : IO UInt32 := do
  match Invocation.parse arguments with
  | .ok inv => inv.carryOut
  | .error fault =>
    fault.report.forM fun line =>
      if fault.exitCode = 0 then IO.println line else IO.eprintln line
    pure (UInt32.ofNat fault.exitCode)
