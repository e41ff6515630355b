/-
Module: Containment.Index.Call
Purpose: The requests that every membership index answers. Rows are grouped in one partition a
  container; only an existing partition takes rows.
Main exports: IndexCall, IndexCall.Answer, IndexCall.kind, IndexCall.container
-/
import Containment.Index.Entry

namespace Containment

/-- A request to an index. -/
inductive IndexCall where
  | createPartition (container : String)
  | dropPartition (container : String)
  | hasPartition (container : String)
  | partitions
  | insert (container : String) (member : Member)
  | remove (container memberId : String)
  | contains (container memberId : String)
  | count (container : String) (type : Option MemberType)
  | select (container : String) (query : IndexQuery)
  | selectAfter (container : String) (after limit : Nat) (type : Option MemberType)
  | replacePartition (container : String) (members : List Member)

namespace IndexCall

/-- What an index answers. `dropPartition` and `remove` tell whether there was something to remove;
`partitions` are in order. -/
abbrev Answer : IndexCall → Type
  | createPartition _ => Unit
  | dropPartition _ => Bool
  | hasPartition _ => Bool
  | partitions => List String
  | insert _ _ => IndexEntry
  | remove _ _ => Bool
  | contains _ _ => Bool
  | count _ _ => Nat
  | select _ _ => List IndexEntry
  | selectAfter _ _ _ _ => List IndexEntry
  | replacePartition _ _ => Unit

/-- The kinds of requests. -/
inductive Kind where
  | createPartition
  | dropPartition
  | hasPartition
  | partitions
  | insert
  | remove
  | contains
  | count
  | select
  | selectAfter
  | replacePartition
deriving Repr, DecidableEq

/-- The name of a kind. -/
def Kind.name : Kind → String
  | .createPartition => "create_partition"
  | .dropPartition => "drop_partition"
  | .hasPartition => "has_partition"
  | .partitions => "partitions"
  | .insert => "insert"
  | .remove => "remove"
  | .contains => "contains"
  | .count => "count"
  | .select => "select"
  | .selectAfter => "select_after"
  | .replacePartition => "replace_partition"

/-- All kinds. -/
def Kind.all : List Kind :=
  [.createPartition, .dropPartition, .hasPartition, .partitions, .insert, .remove, .contains, .count,
    .select, .selectAfter, .replacePartition]

/-- The kind of a request. -/
def kind : IndexCall → Kind
  | createPartition _ => .createPartition
  | dropPartition _ => .dropPartition
  | hasPartition _ => .hasPartition
  | partitions => .partitions
  | insert _ _ => .insert
  | remove _ _ => .remove
  | contains _ _ => .contains
  | count _ _ => .count
  | select _ _ => .select
  | selectAfter _ _ _ _ => .selectAfter
  | replacePartition _ _ => .replacePartition

/-- The container that a request is about; `partitions` is about none. -/
def container : IndexCall → String
  | createPartition c => c
  | dropPartition c => c
  | hasPartition c => c
  | partitions => ""
  | insert c _ => c
  | remove c _ => c
  | contains c _ => c
  | count c _ => c
  | select c _ => c
  | selectAfter c _ _ _ => c
  | replacePartition c _ => c

end IndexCall

end Containment
