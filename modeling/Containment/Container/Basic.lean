/-
Module: Containment.Container.Basic
Purpose: A container of the hierarchy: its ordered membership list, its properties, and the reports
  of changes that have not been handed on yet. Every change either keeps the rules of `validate` or
  is refused and changes nothing.
Main exports: Snapshot, Container, Container.create, Container.restore, Container.validate,
  Container.addMember, Container.removeMember, Container.setProperty, Container.removeProperty,
  Container.reparent, Container.markDeleted, Container.takeEvents
-/
import Containment.Container.Error
import Containment.Event
import Containment.Time.Rfc3339
import Std.Data.ExtTreeSet

namespace Containment

open Time

/-- The lasting state of a container. An empty `parentId` marks a root. -/
structure Snapshot where
  id : String
  parentId : String
  type : ContainerType
  members : List Member
  metadata : Metadata
  createdAt : Instant
  updatedAt : Instant
deriving DecidableEq

/-- A container at work: its lasting state, the identifiers of its members for quick look-up, and the
reports queued since it was made or last emptied. -/
structure Container extends Snapshot where
  memberIds : Std.ExtTreeSet String
  pending : List Event

namespace Container

/-- The property that repeats `createdAt`. -/
def createdKey : String := "created"

/-- The property that repeats `updatedAt`. -/
def modifiedKey : String := "modified"

/-- The properties that the container itself maintains. -/
def isReserved (key : String) : Bool :=
  key == createdKey || key == modifiedKey

/-- A name as an identifier of a container. -/
def checkId (id : String) : Except ContainerError Unit :=
  (ContainerId.check id).mapError (.invalidId id)

/-- A name as a kind of container. -/
def parseType (name : String) : Except ContainerError ContainerType :=
  match ContainerType.parse name with
  | .ok type => .ok type
  | .error _ => .error (.invalidType name)

/-- A new container that is not stored yet. The parent is not looked up. -/
def create (id parentId : String) (type : ContainerType) (now : Instant) :
    Except ContainerError Container := do
  checkId id
  if parentId = id then throw (.circularReference id parentId)
  let created : Event := { kind := .containerCreated, containerId := id, timestamp := now }
  pure
    { id, parentId, type, members := []
      metadata := ((∅ : Metadata).insert createdKey now.toOffsetText).insert modifiedKey
        now.toOffsetText
      createdAt := now, updatedAt := now, memberIds := ∅
      pending := [(created.withProperty "container_type" type.name).withProperty "parent_id"
        parentId] }

/-- A new container whose kind is given by name; a wrong name is reported before a wrong identifier. -/
def createNamed (id parentId typeName : String) (now : Instant) :
    Except ContainerError Container := do
  create id parentId (← parseType typeName) now

/-- The first member that is the container itself or repeats an earlier one. -/
def checkMembers (id : String) : List Member → Std.ExtTreeSet String → Except ContainerError Unit
  | [], _ => .ok ()
  | m :: rest, seen =>
    if m.id = id then .error (.selfMembership id)
    else if seen.contains m.id then .error (.duplicateMember id m.id)
    else checkMembers id rest (seen.insert m.id)

/-- The rules that need no other container: a valid identifier, not its own parent, and distinct
members none of which is the container itself. -/
def validate (s : Snapshot) : Except ContainerError Unit := do
  checkId s.id
  if s.parentId = s.id then throw (.circularReference s.id s.parentId)
  checkMembers s.id s.members ∅

/-- The identifiers of a membership list. -/
def idsOf (members : List Member) : Std.ExtTreeSet String :=
  members.foldl (fun ids m => ids.insert m.id) ∅

/-- A container from its lasting state, with nothing queued. -/
def restore (s : Snapshot) : Except ContainerError Container := do
  validate s
  pure { s with memberIds := idsOf s.members, pending := [] }

/-- Whether a member is listed. -/
def containsMember (c : Container) (memberId : String) : Bool :=
  c.memberIds.contains memberId

/-- The entry of a member. -/
def member? (c : Container) (memberId : String) : Option Member :=
  if c.containsMember memberId then c.members.find? (·.id == memberId) else none

/-- Whether the container has no parent. -/
def isRoot (s : Snapshot) : Bool :=
  s.parentId.isEmpty

/-- The title, a plain property. -/
def title? (s : Snapshot) : Option String :=
  s.metadata["title"]?

/-- The description, a plain property. -/
def description? (s : Snapshot) : Option String :=
  s.metadata["description"]?

/-- Note the time of a change. -/
def touch (c : Container) (now : Instant) : Container :=
  { c with updatedAt := now, metadata := c.metadata.insert modifiedKey now.toOffsetText }

/-- Queue a report. -/
def queue (c : Container) (event : Event) : Container :=
  { c with pending := c.pending ++ [event] }

/-- The report that some properties of the container changed. -/
def updated (c : Container) (now : Instant) : Event :=
  { kind := .containerUpdated, containerId := c.id, timestamp := now }

/-- List a member after all others. -/
def addMember (c : Container) (memberId : String) (type : MemberType) (now : Instant) :
    Except ContainerError Container := do
  if memberId.isEmpty || memberId.toList.any Text.isControl then
    throw (.invalidMemberId c.id memberId)
  if memberId = c.id then throw (.selfMembership memberId)
  if c.memberIds.contains memberId then throw (.duplicateMember c.id memberId)
  let grown : Container :=
    { c with
      memberIds := c.memberIds.insert memberId
      members := c.members ++ [{ id := memberId, type, addedAt := now }] }
  pure ((grown.touch now).queue (.ofMember .memberAdded c.id memberId type now))

/-- Strike a member off the list; the others keep their order. -/
def removeMember (c : Container) (memberId : String) (now : Instant) :
    Except ContainerError (Member × Container) := do
  if !c.memberIds.contains memberId then throw (.memberNotFound c.id memberId)
  match c.members.find? (·.id == memberId) with
  | none => throw (.memberNotFound c.id memberId)
  | some removed =>
    let shrunk : Container :=
      { c with
        memberIds := c.memberIds.erase memberId
        members := c.members.eraseP (·.id == memberId) }
    pure (removed,
      (shrunk.touch now).queue (.ofMember .memberRemoved c.id removed.id removed.type now))

/-- Give a property a value. Properties that the container maintains stay as they are. -/
def setProperty (c : Container) (key value : String) (now : Instant) : Container :=
  if isReserved key then c
  else
    let changed : Container := { c with metadata := c.metadata.insert key value }
    (changed.touch now).queue ((c.updated now).withProperty "set" key)

/-- Take a property away and tell its value. -/
def removeProperty (c : Container) (key : String) (now : Instant) : Option String × Container :=
  if isReserved key then (none, c)
  else
    match c.metadata[key]? with
    | none => (none, c)
    | some value =>
      let changed : Container := { c with metadata := c.metadata.erase key }
      (some value, (changed.touch now).queue ((c.updated now).withProperty "removed" key))

/-- Set the title. -/
def setTitle (c : Container) (title : String) (now : Instant) : Container :=
  c.setProperty "title" title now

/-- Set the description. -/
def setDescription (c : Container) (text : String) (now : Instant) : Container :=
  c.setProperty "description" text now

/-- Point the container at another parent. Only the container itself is refused here: longer cycles
show only in the stored hierarchy. -/
def reparent (c : Container) (parentId : String) (now : Instant) : Except ContainerError Container := do
  if parentId = c.id then throw (.circularReference c.id parentId)
  let event := ((c.updated now).withProperty "previous_parent_id" c.parentId).withProperty
    "parent_id" parentId
  let moved : Container := { c with parentId }
  pure ((moved.touch now).queue event)

/-- Queue the report that the container is gone. -/
def markDeleted (c : Container) (now : Instant) : Container :=
  let event : Event := { kind := .containerDeleted, containerId := c.id, timestamp := now }
  c.queue (event.withProperty "parent_id" c.parentId)

/-- Empty the queue. -/
def takeEvents (c : Container) : List Event × Container :=
  (c.pending, { c with pending := [] })

end Container

end Containment
