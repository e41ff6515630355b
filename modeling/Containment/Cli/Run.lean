/-
Module: Containment.Cli.Run
Purpose: Carrying out commands on a workspace, with the lines they print.
Main exports: Invocation.run, Outcome
-/
import Containment.Cli.Invocation
import Containment.Cli.Workspace
import Containment.Export
import Containment.Repository.Cursor
import Containment.Repository.Hierarchy
import Containment.Repository.Lifecycle
import Containment.Repository.Membership
import Containment.Repository.Recovery
import Containment.Text.Decimal

namespace Containment.Cli

open Text Time

/-- An error and what is behind it, the nearest first. -/
abbrev Complaint := List String

/-- What a command works with: the repository's world, its setup, whether its time is up from the start, how
results are shown, and the lines printed so far. -/
structure Desk where
  world : World
  limits : Limits
  status : Option Cancellation := none
  format : OutputFormat := .text
  printed : List String := []

/-- A step of a command. A complaint ends the command, but what is done and printed stays. -/
abbrev Step := ExceptT Complaint (StateM Desk)

namespace Step

/-- Carry out a call to the repository. -/
def call {α : Type} (action : Action α) : Step α := do
  let desk ← get
  let (outcome, world) := action.run.run desk.status desk.world
  set { desk with world }
  match outcome with
  | .ok a => pure a
  | .error e => throw (e.message :: e.causes)

/-- Print a line. -/
def line (text : String) : Step Unit :=
  modify fun desk => { desk with printed := desk.printed ++ [text] }

/-- Print some lines. -/
def lines (texts : List String) : Step Unit :=
  texts.forM line

/-- Print one thing for programs and another for people. -/
def present (json : Json) (spread : Bool) (texts : List String) : Step Unit := do
  match (← get).format with
  | .json => line (if spread then json.spread else json.compact)
  | .text => lines texts

/-- Tell people that something is done. -/
def done (text : String) : Step Unit := do
  if (← get).format = .text then line ("✓ " ++ text)

end Step

open Step

/-- The row of a member in a listing. -/
def entryLine (e : IndexEntry) : String :=
  Decimal.alignRight 6 (toString e.seq) ++ "  " ++ Decimal.alignLeft 9 e.type.name ++ "  " ++
    e.insertedAt.toOffsetText ++ "  " ++ e.memberId

/-- The name of a container's parent. -/
def parentName (c : Container) : String :=
  if Container.isRoot c.toSnapshot then "(root)" else c.parentId

/-- A container with its properties. -/
def containerLines (c : Container) : List String :=
  [s!"Container {c.id}", s!"  Type: {c.type.name}", s!"  Parent: {parentName c}",
    s!"  Members: {c.members.length}"] ++
    c.metadata.toList.map fun (key, value) => s!"  {key}: {value}"

/-- Show a container. -/
def showContainer (c : Container) : Step Unit :=
  present c.toSnapshot.toJson true (containerLines c)

/-- The line below a page of members. -/
def pageSummary (page : MemberPage) : String :=
  if page.entries.isEmpty then s!"no members at offset {page.offset} ({page.total} total)"
  else
    let more := if page.hasMore then ", more available" else ""
    s!"{page.offset + 1}-{page.offset + page.entries.length} of {page.total}{more}"

/-- A path from the top. -/
def pathText (ids : List String) : String :=
  "/" ++ "/".intercalate ids

/-- Add members one after the other. -/
def addEach (container : String) : List String → Step Unit
  | [] => pure ()
  | id :: rest => do
    let m ← call (Repository.addMember Classifier.byExtension container id)
    done s!"Added {m.type.name} {m.id} to {container}"
    addEach container rest

/-- Remove members one after the other. -/
def removeEach (container : String) : List String → Step Unit
  | [] => pure ()
  | id :: rest => do
    let m ← call (Repository.removeMember container id)
    done s!"Removed {m.id} from {container}"
    removeEach container rest

/-- Show what a comparison found. -/
def showReport (report : ConsistencyReport) : Step Unit :=
  present report.toJson true <|
    if report.isConsistent then
      [s!"✓ Index consistent: {report.containersChecked} container(s), " ++
        s!"{report.membersChecked} member(s)"]
    else
      (s!"✗ {report.divergences.length} divergence(s) across " ++
        s!"{report.divergentContainers.length} container(s)") ::
        report.divergences.map fun d => "  " ++ d.message

/-- Compare, and repair what was found if that is asked for. -/
def verifyIndex (repair : Bool) : Step Unit := do
  let report ← call Repository.verify
  showReport report
  if !report.isConsistent then
    if !repair then
      throw ["membership index diverges from the primary store (rerun with --repair)"]
    let summary ← call Repository.rebuildAll
    done (s!"Repaired: {summary.partitionsRebuilt} partition(s) rebuilt, " ++
      s!"{summary.orphansDropped} orphan(s) dropped")

/-- List members: one page, or all of them. -/
def listMembers (container : String) (options : ListOptions) (all : Bool) : Step Unit := do
  let limits := (← get).limits
  if all then
    let entries ← call (Repository.drain (Cursor.start limits container options 0))
    present (.ofList IndexEntry.toJson entries) true
      (entries.map entryLine ++ [s!"{entries.length} member(s)"])
  else
    let page ← call (Repository.listMembers limits container options)
    present page.toJson true (page.entries.map entryLine ++ [pageSummary page])

/-- Move a container and tell where it is now. -/
def moveUnder (id target : String) : Step Unit := do
  let limits := (← get).limits
  let moved ← call (Repository.move limits id target)
  let path ← call (Repository.path limits moved.id)
  present
    (.obj [("id", .str moved.id), ("parent_id", .str moved.parentId), ("path", .ofList .str path)])
    false [s!"✓ Moved {moved.id} to {pathText path}"]

/-- Carry out a command in an open repository. -/
def Command.step : Command → Step Unit
  | .init .. => pure ()
  | .create id parent type title => do
    let limits := (← get).limits
    let created ← call do
      let container ← Repository.draw (.new (id.getD "") parent type title)
      Repository.create limits container
    present created.toSnapshot.toJson true
      [s!"✓ Created {created.type.name} container {created.id} under {parentName created}"]
  | .inspect id => do showContainer (← call (Repository.get id))
  | .delete id => do
    call (Repository.delete id)
    done s!"Deleted container {id}"
  | .annotate id set unset => do
    if set.isEmpty && unset.isEmpty then
      throw ["nothing to change: pass --set key=value or --unset key"]
    let update : MetadataUpdate :=
      { set := set.foldl (fun m (key, value) => m.insert key value) ∅, remove := unset }
    showContainer (← call (Repository.updateMetadata id update))
  | .add container members => addEach container members
  | .remove container members => removeEach container members
  | .list container offset limit sort memberType all =>
    listMembers container { offset, limit, sort, memberType } all
  | .children id => do
    let found ← call (Repository.children id)
    present (.ofList (fun c : Container => c.toSnapshot.toJson) found) true <|
      if found.isEmpty then ["no child containers"]
      else found.map fun c => s!"{c.id}  {c.type.name}  {c.members.length} member(s)"
  | .path id => do
    let ids ← call (Repository.path (← get).limits id)
    present (.ofList .str ids) false [pathText ids]
  | .find target => do showContainer (← call (Repository.find target))
  | .move id (some parent) false => moveUnder id parent
  | .move id none true => moveUnder id ""
  | .move .. => throw ["give a new parent or --root"]
  | .rebuild (some id) => do
    let rows ← call (Repository.rebuild id)
    present (.obj [("container", .str id), ("rows_written", .ofNat rows)]) false
      [s!"✓ Rebuilt index for {id} ({rows} row(s))"]
  | .rebuild none => do
    let summary ← call Repository.rebuildAll
    present summary.toJson true
      [s!"✓ Rebuilt {summary.partitionsRebuilt} partition(s), {summary.rowsWritten} row(s); " ++
        s!"dropped {summary.orphansDropped} orphan partition(s)"]
  | .verify repair => verifyIndex repair

/-- How a command ends: the complaint, if there is one, what was printed and what was reported besides, and
the files after it. -/
structure Outcome where
  complaint : Option Complaint := none
  stdout : List String := []
  stderr : List String := []
  workspace : Workspace

/-- The line for a report. -/
def eventLine (e : Event) : String :=
  match e.memberId with
  | some member => s!"event {e.kind.name} {e.containerId} member={member}"
  | none => s!"event {e.kind.name} {e.containerId}"

/-- The lines for the reports in a mailbox, up to the first receipt that is none. -/
def eventLines (receipts : List Receipt) : List String :=
  match receipts with
  | .event e :: rest => eventLine e :: eventLines rest
  | _ => []

/-- A command that ends with a complaint before anything is done. -/
def Outcome.refused (ws : Workspace) (complaint : Complaint) : Outcome :=
  { complaint := some complaint, workspace := ws }

/-- Write a configuration file with the defaults. Its directory has to be there already. -/
def writeDefaults (path dataDir : String) (force : Bool) (ws : Workspace) : Outcome :=
  if (ws.hasFile path || ws.hasDirectory path) && !force then
    .refused ws [s!"{path} already exists (use --force to overwrite)"]
  else
    match Config.toToml { dataDir } with
    | .error e => .refused ws [(RepositoryError.config e).message]
    | .ok source =>
      if ws.hasDirectory (Path.parent path) then
        { stdout := [s!"✓ Wrote {path}", s!"  Data: {dataDir}"]
          workspace := ws.write path (Utf8.encode source) }
      else .refused ws [s!"write {path}", "No such file or directory (os error 2)"]

/-- The desk at which a command begins, in the repository of a configuration that reports to a dispatcher. -/
def Invocation.desk (inv : Invocation) (config : Config) (origin : Origin) (index : Index) (ws : Workspace)
    (dispatcher : Dispatcher) : Desk :=
  let status := match inv.timeoutMs with
    | some 0 => some Cancellation.deadlineExceeded
    | _ => none
  { world :=
      { store := ws.openStore config, index, clock := { next := origin.time }
        ids := origin.ids, dispatcher }
    limits := config.limits, status, format := inv.format }

/-- Carry out a command in the repository of a configuration. -/
def Invocation.runIn (inv : Invocation) (config : Config) (origin : Origin) (index : Index)
    (ws : Workspace) : Outcome :=
  let dispatcher := Dispatcher.ofCapacity config.eventCapacity
  let (box, dispatcher) := if inv.verbose then dispatcher.subscribe {} else (0, dispatcher)
  let (result, desk) := inv.command.step.run (inv.desk config origin index ws dispatcher)
  { complaint := match result with
      | .ok _ => none
      | .error e => some e
    stdout := desk.printed
    stderr := eventLines (desk.world.dispatcher.receiveAll box).1
    workspace := ws.close config desk.world.store desk.world.index }

/-- Carry out what a command line asks for. -/
def Invocation.run (inv : Invocation) (origin : Origin) (ws : Workspace) : Outcome :=
  match inv.command with
  | .init dataDir force => writeDefaults inv.config dataDir force ws
  | _ =>
    match ws.loadConfig inv.config with
    | .error e =>
      .refused ws
        [s!"no usable configuration at {inv.config} (run `ldpc init`)",
          (RepositoryError.config e).message]
    | .ok config =>
      let ws := ws.prepare config
      match ws.openIndex config with
      | .error e =>
        let failure := RepositoryError.index e
        .refused ws (failure.message :: failure.causes)
      | .ok index => inv.runIn config origin index ws

end Containment.Cli
