/-
Module: Containment.Repository.Commit
Purpose: Writing a changed container to index and store. The index comes first; if the store then
  refuses, the changes of the index are taken back, so that both keep telling the same.
Main exports: IndexChange, applyIndex, undoIndex, commit, rollBack, unwind, unwindCreate, seedPartition
-/
import Containment.Repository.Loading

namespace Containment

/-- A change of a container's rows. -/
inductive IndexChange where
  | insert (member : Member)
  | remove (memberId : String)
deriving Repr, DecidableEq

/-- Whether the change adds a row. -/
def IndexChange.isInsert : IndexChange → Bool
  | .insert _ => true
  | .remove _ => false

namespace Repository

open Containment.Action

/-- Give a new container an empty partition. One that is left over is emptied. -/
def seedPartition (id : String) : Action Unit := do
  match ← tryIndex (.createPartition id) with
  | .ok _ => pure ()
  | .error (.partitionExists _) =>
    match ← tryIndex (.replacePartition id []) with
    | .ok _ => pure ()
    | .error e => throw (.indexWriteFailed id e)
  | .error e => throw (.indexWriteFailed id e)

/-- Make one change. A row that is already gone is no failure. -/
def attempt (id : String) : IndexChange → Action (Except IndexError Unit)
  | .insert member => do
    let outcome ← tryIndex (.insert id member)
    pure (outcome.map fun _ => ())
  | .remove memberId => do
    let outcome ← tryIndex (.remove id memberId)
    pure (outcome.map fun _ => ())

/-- Take inserted rows out again, as far as the index lets us. -/
def removeInserted (id : String) : List IndexChange → Action Unit
  | [] => pure ()
  | .remove _ :: rest => removeInserted id rest
  | .insert member :: rest => do
    match ← tryIndex (.remove id member.id) with
    | .ok _ => removeInserted id rest
    | .error _ => pure ()

/-- Take changes back. Insertions are simply removed; a removal cannot be taken back alone, because the row
would return at the end, so the whole partition is written anew. What fails here leaves a partition that
needs a rebuild. -/
def undoIndex (id : String) (applied : List IndexChange) (previous : List Member) : Action Unit := do
  if applied.isEmpty then pure ()
  else if applied.all IndexChange.isInsert then removeInserted id applied
  else
    let _ ← tryIndex (.replacePartition id previous)
    pure ()

/-- Make the changes in order, after those already `applied`; a failure takes all of them back. -/
def applyFrom (id : String) (previous : List Member) (applied : List IndexChange) :
    List IndexChange → Action Unit
  | [] => pure ()
  | change :: rest => do
    match ← attempt id change with
    | .ok _ => applyFrom id previous (applied ++ [change]) rest
    | .error e =>
      undoIndex id applied previous
      throw (.indexWriteFailed id e)

/-- Make all changes or none. -/
def applyIndex (id : String) (changes : List IndexChange) (previous : List Member) : Action Unit :=
  applyFrom id previous [] changes

/-- Write a changed container: the changes of its rows, then its next record, which is the answer. -/
def commit (record : Record) (container : Container) (changes : List IndexChange) : Action Record := do
  let previous := record.container.members
  applyIndex container.id changes previous
  let next := record.next container
  match ← tryStore (.update next record.revision) with
  | .ok _ => pure next
  | .error e =>
    undoIndex container.id changes previous
    throw (.store e)

/-- Bring back the state before a write, when a later step of the same call fails. -/
def rollBack (previous committed : Record) : Action Unit := do
  let earlier : Record := { revision := committed.revision + 1, container := previous.container }
  let _ ← tryStore (.update earlier committed.revision)
  let _ ← tryIndex (.replacePartition previous.id previous.container.members)
  pure ()

/-- Bring back the states before several writes, given as pairs of the record before and after. The latest
write goes first. -/
def unwind (writes : List (Record × Record)) : Action Unit :=
  writes.reverse.forM fun (previous, committed) => rollBack previous committed

/-- Remove a container that has just been made but could not be listed in its parent. -/
def unwindCreate (id : String) : Action Unit := do
  let _ ← tryStore (.delete id)
  let _ ← tryIndex (.dropPartition id)
  pure ()

end Repository

end Containment
