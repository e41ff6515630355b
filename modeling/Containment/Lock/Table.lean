/-
Module: Containment.Lock.Table
Purpose: One lock a container, made when it is first asked for and dropped when nobody holds it or waits
  for it any more, and one lock for the shape of the hierarchy.
Main exports: LockName, LockTable, Locks, Locks.request, Locks.leave, lockOrder
-/
import Containment.Lock.Gate
import Std.Data.ExtTreeMap
import Std.Data.ExtTreeSet

namespace Containment

/-- The locks of a repository. Moves hold `hierarchy` alone; what relies on the shape of the hierarchy
shares it. -/
inductive LockName where
  | hierarchy
  | container (id : String)
deriving Repr, DecidableEq, Inhabited

/-- The order in which several containers are locked: increasing, each once, without the empty
identifier that stands for no parent. -/
def lockOrder (ids : List String) : List String :=
  (Std.ExtTreeSet.ofList (ids.filter (· ≠ ""))).toList

/-- The locks of containers. -/
structure LockTable where
  gates : Std.ExtTreeMap String Gate := ∅
deriving Inhabited

namespace LockTable

/-- The number of entries. -/
def size (table : LockTable) : Nat :=
  table.gates.size

/-- The lock of a container; one that has no entry is idle. -/
def gate (table : LockTable) (id : String) : Gate :=
  table.gates[id]?.getD {}

/-- Make a claim. -/
def request (table : LockTable) (id : String) (claim : Claim) : Bool × LockTable :=
  let (granted, gate) := (table.gate id).request claim
  (granted, { gates := table.gates.insert id gate })

/-- Drop the entry of a lock that is idle. -/
def reclaim (table : LockTable) (id : String) : LockTable :=
  if (table.gate id).isIdle then { gates := table.gates.erase id } else table

/-- Give a claim up but keep the entry, as when its waiter vanishes without a trace. -/
def desert (table : LockTable) (id : String) (holder : Nat) : List Nat × LockTable :=
  let (next, gate) := (table.gate id).leave holder
  (next, { gates := table.gates.insert id gate })

/-- Give a claim up and drop the entry if it has become idle. -/
def leave (table : LockTable) (id : String) (holder : Nat) : List Nat × LockTable :=
  let (next, table) := table.desert id holder
  (next, table.reclaim id)

end LockTable

/-- All locks of a repository. -/
structure Locks where
  hierarchy : Gate := {}
  containers : LockTable := {}
deriving Inhabited

namespace Locks

/-- Make a claim. -/
def request (locks : Locks) (name : LockName) (claim : Claim) : Bool × Locks :=
  match name with
  | .hierarchy =>
    let (granted, hierarchy) := locks.hierarchy.request claim
    (granted, { locks with hierarchy })
  | .container id =>
    let (granted, containers) := locks.containers.request id claim
    (granted, { locks with containers })

/-- Give a claim up. The answer lists who gets in because of it. -/
def leave (locks : Locks) (name : LockName) (holder : Nat) : List Nat × Locks :=
  match name with
  | .hierarchy =>
    let (next, hierarchy) := locks.hierarchy.leave holder
    (next, { locks with hierarchy })
  | .container id =>
    let (next, containers) := locks.containers.leave id holder
    (next, { locks with containers })

/-- Give a claim up without dropping the entry of a lock that becomes idle. -/
def desert (locks : Locks) (name : LockName) (holder : Nat) : List Nat × Locks :=
  match name with
  | .hierarchy =>
    let (next, hierarchy) := locks.hierarchy.leave holder
    (next, { locks with hierarchy })
  | .container id =>
    let (next, containers) := locks.containers.desert id holder
    (next, { locks with containers })

/-- Drop the entry of a lock that is idle. -/
def reclaim (locks : Locks) : LockName → Locks
  | .hierarchy => locks
  | .container id => { locks with containers := locks.containers.reclaim id }

/-- Whether somebody holds a lock. -/
def isHeldBy (locks : Locks) (name : LockName) (holder : Nat) : Bool :=
  match name with
  | .hierarchy => locks.hierarchy.isHeldBy holder
  | .container id => (locks.containers.gate id).isHeldBy holder

end Locks

end Containment
