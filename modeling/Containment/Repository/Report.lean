/-
Module: Containment.Repository.Report
Purpose: What a comparison of the index with the stored containers finds, and what a rebuild does.
Main exports: Divergence, ConsistencyReport, RebuildSummary
-/
import Containment.Kind
import Std.Data.ExtTreeSet

namespace Containment

/-- A way in which the index disagrees with the stored containers. -/
inductive Divergence where
  | missingPartition (container : String)
  | orphanPartition (container : String)
  | countMismatch (container : String) (primary index : Nat)
  | missingRow (container member : String)
  | extraRow (container member : String)
  | typeMismatch (container member : String) (primary index : MemberType)
  | orderMismatch (container : String)
deriving Repr, DecidableEq

namespace Divergence

/-- The container in question. -/
def container : Divergence → String
  | .missingPartition c | .orphanPartition c | .countMismatch c _ _ | .missingRow c _
  | .extraRow c _ | .typeMismatch c _ _ _ | .orderMismatch c => c

/-- The finding in words. -/
def message : Divergence → String
  | .missingPartition c => s!"{c}: no index partition"
  | .orphanPartition c => s!"{c}: index partition without container"
  | .countMismatch c primary index => s!"{c}: {primary} member(s) stored, {index} indexed"
  | .missingRow c member => s!"{c}: member {member} not indexed"
  | .extraRow c member => s!"{c}: indexed member {member} not stored"
  | .typeMismatch c member primary index =>
      s!"{c}: member {member} stored as {primary.name}, indexed as {index.name}"
  | .orderMismatch c => s!"{c}: index order differs from stored order"

end Divergence

/-- The findings of a comparison, with the number of containers and members looked at. -/
structure ConsistencyReport where
  containersChecked : Nat := 0
  membersChecked : Nat := 0
  divergences : List Divergence := []
deriving Repr, DecidableEq, Inhabited

namespace ConsistencyReport

/-- Whether nothing was found. -/
def isConsistent (report : ConsistencyReport) : Bool :=
  report.divergences.isEmpty

/-- The containers with findings, in order, each once. -/
def divergentContainers (report : ConsistencyReport) : List String :=
  (Std.ExtTreeSet.ofList (report.divergences.map Divergence.container)).toList

end ConsistencyReport

/-- What a rebuild of the whole index did. -/
structure RebuildSummary where
  partitionsRebuilt : Nat := 0
  rowsWritten : Nat := 0
  orphansDropped : Nat := 0
deriving Repr, DecidableEq, Inhabited

end Containment
