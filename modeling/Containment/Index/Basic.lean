/-
Module: Containment.Index.Basic
Purpose: A membership index of either kind.
Main exports: Index, Index.perform, Index.contents
-/
import Containment.Index.Memory
import Containment.Index.Table

namespace Containment

/-- A membership index. -/
inductive Index where
  | memory (index : MemoryIndex)
  | table (index : TableIndex)

namespace Index

/-- An index without partitions, in memory. -/
def empty : Index := .memory {}

instance : Inhabited Index := ⟨empty⟩

/-- Answer a request. -/
def perform (ix : Index) (call : IndexCall) : Except IndexError call.Answer × Index :=
  match ix with
  | .memory m => let (answer, m) := m.perform call; (answer, .memory m)
  | .table t => let (answer, t) := t.perform call; (answer, .table t)

/-- The containers with a partition, in order. -/
def partitions (ix : Index) : Except IndexError (List String) :=
  (ix.perform .partitions).1

/-- All rows of a container in the order of their insertion. -/
def rows (ix : Index) (container : String) : Except IndexError (List IndexEntry) :=
  (ix.perform (.select container {})).1

/-- Partitions in order with their rows. -/
def contents (ix : Index) : Except IndexError (List (String × List IndexEntry)) := do
  (← ix.partitions).mapM fun container => do
    pure (container, ← ix.rows container)

end Index

end Containment
