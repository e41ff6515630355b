/-
Module: Containment.Repository.Loading
Purpose: The reading steps that calls share: loading a container, walking up to the root, measuring the
  subtree below a container, and guessing the kind of a member.
Main exports: load, ancestors, childRecords, subtreeHeight, classify, indexReadError
-/
import Containment.Classifier
import Containment.Program
import Containment.Repository.Options

namespace Containment.Repository

open Containment.Action

/-- The record of an identifier, if there is one. -/
def read? (id : String) : Action (Option Record) :=
  store (.read id)

/-- Whether an identifier has a record. -/
def isStored (id : String) : Action Bool :=
  store (.exists id)

/-- A stored container with its record. -/
def load (id : String) : Action (Record × Container) := do
  let some record ← read? id | throw (.notFound id)
  let container ← hydrate record
  pure (record, container)

/-- The refusal of a container that would sit too deep. -/
def tooDeep (limits : Limits) (id : String) : RepositoryError :=
  .depthExceeded id limits.maxDepth

/-- Extend a chain of parents up to the root. `chain` ends in `current`, and `remaining` more containers
may join it. -/
def climb (limits : Limits) (start : String) :
    Nat → List String → String → Action (List String)
  | remaining, chain, current => do
    let (record, _) ← load current
    if record.parentId.isEmpty then pure chain
    else if chain.contains record.parentId then
      throw (.circularReference current record.parentId)
    else
      match remaining with
      | 0 => throw (tooDeep limits start)
      | remaining + 1 => climb limits start remaining (chain ++ [record.parentId]) record.parentId

/-- A container followed by its ancestors up to the root. A chain that bites its own tail or is longer
than the bound is refused. -/
def ancestors (limits : Limits) (start : String) : Action (List String) :=
  climb limits start (limits.maxDepth - 1) [start] start

/-- The records of several identifiers. -/
def readAll : List String → Action (List (Option Record))
  | [] => pure []
  | id :: rest => do
    let record ← read? id
    let records ← readAll rest
    pure (record :: records)

/-- The members of a container that are listed as containers. -/
def childCandidates (s : Snapshot) : List String :=
  (s.members.filter Member.isContainer).map Member.id

/-- The records of the containers that are listed in a container and name it as their parent. -/
def childRecords (id : String) : Action (List Record) := do
  let (_, container) ← load id
  let records ← readAll (childCandidates container.toSnapshot)
  pure ((records.filterMap fun r => r).filter (·.parentId == id))

/-- The containers right below some containers, without those seen before. -/
def nextLevel : List String → Std.ExtTreeSet String → Action (List String × Std.ExtTreeSet String)
  | [], seen => pure ([], seen)
  | id :: rest, seen => do
    let records ← childRecords id
    let (fresh, seen) := records.foldl
      (fun (fresh, seen) r =>
        if seen.contains r.id then (fresh, seen) else (fresh ++ [r.id], seen.insert r.id))
      (([] : List String), seen)
    let (others, seen) ← nextLevel rest seen
    pure (fresh ++ others, seen)

/-- The number of levels from `level` on downwards, if there are no more than `remaining`. -/
def levelsBelow (limits : Limits) (top : String) :
    Nat → List String → Std.ExtTreeSet String → Action Nat
  | _, [], _ => pure 0
  | 0, _ :: _, _ => throw (tooDeep limits top)
  | remaining + 1, id :: rest, seen => do
    let (next, seen) ← nextLevel (id :: rest) seen
    let levels ← levelsBelow limits top remaining next seen
    pure (levels + 1)

/-- The number of levels in the subtree of a container, the container itself included. -/
def subtreeHeight (limits : Limits) (id : String) : Action Nat :=
  levelsBelow limits id limits.maxDepth [id] ((∅ : Std.ExtTreeSet String).insert id)

/-- The kind of a member: stored containers are containers, all else is guessed. -/
def classify (classifier : Classifier) (container member : String) : Action MemberType := do
  if ← isStored member then pure .container else pure (classifier container member)

/-- The error for a failed question to the index: a missing partition means a missing container if the
store does not know it either. -/
def indexReadError (container : String) (error : IndexError) : Action RepositoryError := do
  match error with
  | .partitionNotFound missing =>
    match ← tryStore (.exists container) with
    | .ok true => pure (.index (.partitionNotFound missing))
    | .ok false => pure (.notFound container)
    | .error e => pure (.store e)
  | other => pure (.index other)

/-- Ask the index on behalf of a reader. -/
def askIndex {α : Type} (container : String) (request : Action (Except IndexError α)) : Action α := do
  match ← request with
  | .ok answer => pure answer
  | .error e => throw (← indexReadError container e)

end Containment.Repository
