/-
Module: Containment.Repository.Lifecycle
Purpose: Making containers, reading them, changing their properties, and deleting them.
Main exports: Draft, draw, create, get, contains, delete, updateMetadata
-/
import Containment.Repository.Commit

namespace Containment

open Time

/-- A container that is yet to be stored: a new one whose kind is given or named, or one with a past. An
empty identifier of a new container stands for a fresh one. -/
inductive Draft where
  | new (id parentId : String) (type : ContainerType) (title : Option String)
  | named (id parentId typeName : String)
  | restored (snapshot : Snapshot)

namespace Repository

open Containment.Action

/-- A new container stamped by the clock, not stored yet. -/
def newContainer (id parentId : String) (type : ContainerType) : Action Container := do
  let id ← if id.isEmpty then freshId else pure id
  let time ← now
  ofContainer (Container.create id parentId type time)

/-- The container that a draft describes. A title is set at the time of the creation. -/
def draw : Draft → Action Container
  | .new id parentId type title => do
    let container ← newContainer id parentId type
    match title with
    | none => pure container
    | some text => pure (container.setTitle text container.createdAt)
  | .named id parentId typeName => do
    let time ← now
    ofContainer (Container.createNamed id parentId typeName time)
  | .restored snapshot => ofContainer (Container.restore snapshot)

/-- The parent of a container to be made, with the container already listed in it. -/
def preparedParent (limits : Limits) (id parentId : String) (time : Instant) :
    Action (Record × Container) := do
  let (record, parent) ← mapError (load parentId) fun
    | .notFound _ => .parentNotFound id parentId
    | e => e
  let chain ← ancestors limits parentId
  if chain.contains id then throw (.circularReference id parentId)
  if limits.maxDepth ≤ chain.length then throw (tooDeep limits id)
  let parent ← ofContainer (parent.addMember id .container time)
  pure (record, parent)

/-- Store the record of a new container, whose partition is there already. -/
def insertNew (container : Container) : Action Unit := do
  match ← tryStore (.insert (.first container)) with
  | .ok _ => pure ()
  | .error e =>
    let _ ← tryIndex (.dropPartition container.id)
    match e with
    | .alreadyExists _ => throw (.alreadyExists container.id)
    | e => throw (.store e)

/-- Store a new container and list it in its parent, which has been prepared for it. -/
def storePrepared (container : Container) (time : Instant) (parent : Option (Record × Container)) :
    Action Container := do
  let id := container.id
  checkContext
  seedPartition id
  insertNew container
  let (events, container) := container.takeEvents
  let parentEvents ←
    match parent with
    | none => pure []
    | some (record, parent) =>
      let _ ← onError (commit record parent [.insert { id, type := .container, addedAt := time }])
        fun _ => unwindCreate id
      pure parent.takeEvents.1
  publish (events ++ parentEvents)
  pure container

/-- The part of `create` that runs while the container and its parent are held. -/
def createHeld (limits : Limits) (container : Container) : Action Container := do
  let id := container.id
  if ← isStored id then throw (.alreadyExists id)
  if ← store (.isRetired id) then throw (.alreadyExists id)
  let time ← now
  let parent ←
    if container.parentId.isEmpty then pure none
    else some <$> preparedParent limits id container.parentId time
  storePrepared container time parent

/-- Store a new container, list it in its parent and start its partition. The identifier must never have
been used before. -/
def create (limits : Limits) (container : Container) : Action Container := do
  ofContainer (Container.validate container.toSnapshot)
  withLock .hierarchy .shared do
    withContainers [container.id, container.parentId] (createHeld limits container)

/-- A stored container. -/
def get (id : String) : Action Container :=
  reading id do
    let (_, container) ← load id
    pure container

/-- Whether a container is stored. -/
def contains (id : String) : Action Bool := do
  checkContext
  isStored id

/-- Strike a container off its parent, if it is listed there. The answer holds the parent's record before
and after, and its reports. -/
def detach (id parentId : String) (time : Instant) : Action (Option (Record × Record) × List Event) := do
  if parentId.isEmpty then pure (none, [])
  else
    match ← read? parentId with
    | none => pure (none, [])
    | some record =>
      let parent ← hydrate record
      if parent.containsMember id then
        let (_, parent) ← ofContainer (parent.removeMember id time)
        let committed ← commit record parent [.remove id]
        pure (some (record, committed), parent.takeEvents.1)
      else pure (none, [])

/-- The part of `delete` that runs while the container and `parentId` are held. The answer is `false` if
that is not the container's parent any more. -/
def deleteHeld (id parentId : String) : Action Bool := do
  let (record, container) ← load id
  if record.parentId ≠ parentId then pure false
  else
    if !container.members.isEmpty then throw (.notEmpty id container.members.length)
    checkContext
    let time ← now
    let (events, _) := (container.markDeleted time).takeEvents
    let (detached, parentEvents) ← detach id parentId time
    match ← tryStore (.retire id) with
    | .error e =>
      if let some (previous, committed) := detached then rollBack previous committed
      throw (.store e)
    | .ok _ =>
      let _ ← tryIndex (.dropPartition id)
      publish (events ++ parentEvents)
      pure true

/-- Delete a container together with its place in its parent. The parent has to be known before it can be
held, so a container that was given another parent meanwhile is looked at again, up to `attempts`
times; one that never stays is not found. -/
def deleteWithin (id : String) : Nat → Action Unit
  | 0 => throw (.notFound id)
  | attempts + 1 => do
    let (record, _) ← load id
    let done ← withContainers [id, record.parentId] (deleteHeld id record.parentId)
    if done then pure () else deleteWithin id attempts

/-- How often a deletion looks for the parent: more often than anything can happen meanwhile. -/
def deleteAttempts : Nat := 0x10000000000000000

/-- Delete an empty container. Its identifier is never used again. -/
def delete (id : String) : Action Unit :=
  withLock .hierarchy .shared (deleteWithin id deleteAttempts)

/-- Make all changes of an update: first the values to set, then the keys to remove. -/
def applyUpdate (container : Container) (update : MetadataUpdate) (time : Instant) : Container :=
  let filled := update.set.toList.foldl
    (fun (c : Container) (key, value) => c.setProperty key value time) container
  update.remove.foldl (fun c key => (c.removeProperty key time).2) filled

/-- The part of `updateMetadata` that runs while the container is held. -/
def updateMetadataHeld (id : String) (update : MetadataUpdate) : Action Container := do
  let (record, container) ← load id
  let time ← now
  let changed := applyUpdate container update time
  if changed.pending.isEmpty then pure changed
  else
    checkContext
    let _ ← commit record changed []
    let (events, changed) := changed.takeEvents
    publish events
    pure changed

/-- Change properties. An update without effect writes nothing. -/
def updateMetadata (id : String) (update : MetadataUpdate) : Action Container :=
  writing id (updateMetadataHeld id update)

end Repository

end Containment
