/-
Module: Containment.Repository.Hierarchy
Purpose: Finding containers by their place in the hierarchy, and moving them.
Main exports: children, parent, path, find, move
-/
import Containment.Repository.Commit

namespace Containment.Repository

open Containment.Action
open Time

/-- The containers that are listed in a container and name it as their parent. -/
def children (id : String) : Action (List Container) :=
  reading id do
    let records ← childRecords id
    records.mapM hydrate

/-- The part of `parent` that runs while the hierarchy is shared. -/
def parentHeld (id : String) : Action Container := do
  let (record, _) ← load id
  if record.parentId.isEmpty then throw (.notFound s!"parent of root {id}")
  let (_, container) ← load record.parentId
  pure container

/-- The parent of a container. -/
def parent (id : String) : Action Container :=
  withLock .hierarchy .shared (parentHeld id)

/-- The part of `path` that runs while the hierarchy is shared. -/
def pathHeld (limits : Limits) (id : String) : Action (List String) := do
  let chain ← ancestors limits id
  pure chain.reverse

/-- The identifiers from the root down to a container. -/
def path (limits : Limits) (id : String) : Action (List String) :=
  withLock .hierarchy .shared (pathHeld limits id)

/-- Load a container that has to be below `parentId`; `target` is what is reported as missing. -/
def loadChild (target parentId id : String) : Action Container := do
  let (_, container) ← mapError (load id) fun
    | .notFound _ => .notFound target
    | e => e
  if container.parentId ≠ parentId then throw (.notFound target)
  pure container

/-- Follow the segments of a path downwards from a container. -/
def descend (target : String) (current : Container) : List String → Action Container
  | [] => pure current
  | segment :: rest => do
    if !current.containsMember segment then throw (.notFound target)
    let child ← loadChild target current.id segment
    descend target child rest

/-- The segments of a path. Empty ones do not count. -/
def segments (target : String) : List String :=
  ((target.splitOn "/").filter fun segment => !segment.isEmpty)

/-- The part of `find` that runs while the hierarchy is shared. -/
def findHeld (target : String) : Action Container :=
  match segments target with
  | [] => throw (.notFound target)
  | root :: rest => do
    let container ← loadChild target "" root
    descend target container rest

/-- The container that a path of identifiers leads to, from a root downwards. -/
def find (target : String) : Action Container :=
  withLock .hierarchy .shared (findHeld target)

/-- Refuse a move that would make a cycle or put something too deep. -/
def checkMove (limits : Limits) (id target : String) : Action Unit := do
  if target = id then throw (.circularReference id target)
  if !target.isEmpty then
    if !(← isStored target) then throw (.parentNotFound id target)
    let chain ← ancestors limits target
    if chain.contains id then throw (.circularReference id target)
    let height ← subtreeHeight limits id
    if limits.maxDepth < chain.length + height then throw (tooDeep limits id)

/-- The new parent of a container, with the container already listed in it. -/
def attached (id target : String) (time : Instant) : Action (Option (Record × Container)) := do
  if target.isEmpty then pure none
  else
    let (record, container) ← mapError (load target) fun
      | .notFound _ => .parentNotFound id target
      | e => e
    let container ← ofContainer (container.addMember id .container time)
    pure (some (record, container))

/-- The old parent of a container, with the container already struck off, if it is listed there. -/
def detached (id source : String) (time : Instant) : Action (Option (Record × Container)) := do
  if source.isEmpty then pure none
  else
    match ← read? source with
    | none => pure none
    | some record =>
      let container ← hydrate record
      if container.containsMember id then
        let (_, container) ← ofContainer (container.removeMember id time)
        pure (some (record, container))
      else pure none

/-- Write a parent that takes part in a move, if there is one; a failure brings back the `writes` before.
The answer adds to the writes and reports. -/
def commitParent (change : IndexChange) (writes : List (Record × Record)) (events : List Event) :
    Option (Record × Container) → Action (List (Record × Record) × List Event)
  | none => pure (writes, events)
  | some (record, container) => do
    let committed ← onError (commit record container [change]) fun _ => unwind writes
    pure (writes ++ [(record, committed)], events ++ container.takeEvents.1)

/-- Write a container that has moved, once its parents are written; a failure brings back the `writes` before. -/
def commitMoved (record : Record) (moved : Container) (writes : List (Record × Record)) (events : List Event) :
    Action Container := do
  match ← tryStore (.update (record.next moved) record.revision) with
  | .error e =>
    unwind writes
    throw (.store e)
  | .ok _ =>
    let (own, moved) := moved.takeEvents
    publish (events ++ own)
    pure moved

/-- The part of `move` that runs while the container and both parents are held. Everything is prepared before
the first write. -/
def moveHeld (id source target : String) : Action Container := do
  let (record, container) ← load id
  if source = target then pure container
  else
    let time ← now
    let moved ← ofContainer (container.reparent target time)
    let newParent ← attached id target time
    let oldParent ← detached id source time
    checkContext
    let entry : Member := { id, type := .container, addedAt := time }
    let (writes, events) ← commitParent (.insert entry) [] [] newParent
    let (writes, events) ← commitParent (.remove id) writes events oldParent
    commitMoved record moved writes events

/-- The part of `move` that runs while the hierarchy is held alone. -/
def moveWithin (limits : Limits) (id target : String) : Action Container := do
  let (record, _) ← load id
  let source := record.parentId
  checkMove limits id target
  withContainers [id, source, target] (moveHeld id source target)

/-- Put a container under another parent; an empty `target` makes it a root. -/
def move (limits : Limits) (id target : String) : Action Container :=
  withLock .hierarchy .exclusive (moveWithin limits id target)

end Containment.Repository
