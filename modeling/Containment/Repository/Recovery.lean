/-
Module: Containment.Repository.Recovery
Purpose: Comparing the index with the stored containers, and writing the index anew.
Main exports: rebuild, rebuildAll, verify, compareRows
-/
import Containment.Repository.Loading
import Containment.Repository.Report

namespace Containment.Repository

open Containment.Action

/-- The part of `rebuild` that runs while the container is held. -/
def rebuildHeld (id : String) : Action Nat := do
  let (record, _) ← load id
  checkContext
  let members := record.container.members
  index (.replacePartition id members)
  pure members.length

/-- Write the rows of a container anew. The answer is their number. -/
def rebuild (id : String) : Action Nat :=
  writing id (rebuildHeld id)

/-- Write the rows of some containers anew. One that is gone by now is passed over. -/
def rebuildEach : List String → RebuildSummary → Action RebuildSummary
  | [], summary => pure summary
  | id :: rest, summary => do
    let rows ← tryCatch (some <$> rebuild id) fun
      | .notFound _ => pure none
      | e => throw e
    match rows with
    | none => rebuildEach rest summary
    | some rows =>
      rebuildEach rest
        { summary with
          partitionsRebuilt := summary.partitionsRebuilt + 1
          rowsWritten := summary.rowsWritten + rows }

/-- Drop a partition if it has no container. The answer tells whether there was something to drop. -/
def dropOrphan (partition : String) : Action Bool := do
  if ← isStored partition then pure false
  else index (.dropPartition partition)

/-- Drop those partitions that have no container. -/
def dropOrphans : List String → RebuildSummary → Action RebuildSummary
  | [], summary => pure summary
  | partition :: rest, summary => do
    let dropped ← writing partition (dropOrphan partition)
    dropOrphans rest
      (if dropped then { summary with orphansDropped := summary.orphansDropped + 1 } else summary)

/-- Write the whole index anew. -/
def rebuildAll : Action RebuildSummary := do
  let ids ← store .ids
  let summary ← rebuildEach ids {}
  let partitions ← index .partitions
  dropOrphans (partitions.filter fun p => !ids.contains p) summary

/-- What is wrong with the row of a stored member. -/
def compareMember (id : String) (indexed : List IndexEntry) (member : Member) : Option Divergence :=
  match indexed.find? (·.memberId == member.id) with
  | none => some (.missingRow id member.id)
  | some entry =>
    if entry.type = member.type then none
    else some (.typeMismatch id member.id member.type entry.type)

/-- The differences between the members of a stored container and its rows. Order counts only if both name
the same members. -/
def compareRows (id : String) (stored : List Member) (indexed : List IndexEntry) : List Divergence :=
  let known := Container.idsOf stored
  let mismatch :=
    if indexed.length ≠ stored.length then
      [Divergence.countMismatch id stored.length indexed.length]
    else []
  let extra := (indexed.filter fun e => !known.contains e.memberId).map fun e =>
    Divergence.extraRow id e.memberId
  let sameMembers := indexed.length = stored.length ∧ extra.isEmpty
  let disorder :=
    if sameMembers ∧ indexed.map IndexEntry.memberId ≠ stored.map Member.id then
      [Divergence.orderMismatch id]
    else []
  mismatch ++ stored.filterMap (compareMember id indexed) ++ extra ++ disorder

/-- The part of `verifyOne` that runs while the container is shared. -/
def verifyHeld (id : String) : Action (Option (Nat × List Divergence)) := do
  match ← read? id with
  | none => pure none
  | some record =>
    let stored := record.container.members
    let present ← index (.hasPartition id)
    if !present then pure (some (stored.length, [.missingPartition id]))
    else
      let indexed ← index (.select id {})
      pure (some (stored.length, compareRows id stored indexed))

/-- Compare one container with its rows; `none` if the container is gone by now. The answer holds the number
of members and the differences. -/
def verifyOne (id : String) : Action (Option (Nat × List Divergence)) :=
  reading id (verifyHeld id)

/-- Compare some containers with their rows. -/
def verifyEach : List String → ConsistencyReport → Action ConsistencyReport
  | [], report => pure report
  | id :: rest, report => do
    match ← verifyOne id with
    | none => verifyEach rest report
    | some (members, divergences) =>
      verifyEach rest
        { containersChecked := report.containersChecked + 1
          membersChecked := report.membersChecked + members
          divergences := report.divergences ++ divergences }

/-- Those of some partitions that have no container. -/
def findOrphans : List String → Action (List Divergence)
  | [] => pure []
  | partition :: rest => do
    let stored ← isStored partition
    let others ← findOrphans rest
    pure (if stored then others else .orphanPartition partition :: others)

/-- Compare the whole index with the stored containers and change neither. -/
def verify : Action ConsistencyReport := do
  let ids ← store .ids
  let report ← verifyEach ids {}
  let partitions ← index .partitions
  let orphans ← findOrphans (partitions.filter fun p => !ids.contains p)
  pure { report with divergences := report.divergences ++ orphans }

end Containment.Repository
