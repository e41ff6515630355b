/-
Module: Containment.Event
Purpose: What containers report about their changes, and which reports a subscriber asks for.
Main exports: EventKind, Event, EventFilter
-/
import Containment.Member

namespace Containment

open Time

/-- The kinds of reports. -/
inductive EventKind where
  | containerCreated
  | containerUpdated
  | containerDeleted
  | memberAdded
  | memberRemoved
deriving Repr, DecidableEq, Inhabited

namespace EventKind

/-- The name. -/
def name : EventKind → String
  | .containerCreated => "container_created"
  | .containerUpdated => "container_updated"
  | .containerDeleted => "container_deleted"
  | .memberAdded => "member_added"
  | .memberRemoved => "member_removed"

/-- All kinds. -/
def all : List EventKind :=
  [.containerCreated, .containerUpdated, .containerDeleted, .memberAdded, .memberRemoved]

/-- The kind with a name. -/
def ofName? (name : String) : Option EventKind :=
  all.find? fun kind => kind.name == name

/-- Reports about a membership list. -/
def isMembership (kind : EventKind) : Bool :=
  kind == .memberAdded || kind == .memberRemoved

end EventKind

/-- A report. The two member fields are set in reports about a membership list; `metadata` tells what
else belongs to the change (kind of the container, parent, changed key). -/
structure Event where
  kind : EventKind
  containerId : String
  memberId : Option String := none
  memberType : Option MemberType := none
  timestamp : Instant
  metadata : Metadata := ∅
deriving DecidableEq

namespace Event

/-- The report about one entry of a membership list. -/
def ofMember (kind : EventKind) (containerId memberId : String) (type : MemberType) (now : Instant) :
    Event :=
  { kind, containerId, memberId := some memberId, memberType := some type, timestamp := now }

/-- The same report with one more property. -/
def withProperty (event : Event) (key value : String) : Event :=
  { event with metadata := event.metadata.insert key value }

end Event

/-- What a subscriber asks for: reports about some containers, of some kinds. `none` asks for all. -/
structure EventFilter where
  containers : Option (List String) := none
  kinds : Option (List EventKind) := none
deriving Repr, DecidableEq, Inhabited

/-- Whether a report passes both conditions. -/
def EventFilter.accepts (filter : EventFilter) (event : Event) : Bool :=
  filter.containers.all (·.contains event.containerId) && filter.kinds.all (·.contains event.kind)

end Containment
