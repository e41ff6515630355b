/-
Module: Containment.Schedule
Purpose: Running several programs side by side. A task runs until it has to wait for a lock; those that can
  go on do so in the order in which they were woken. Time stands still unless it is moved, or jumps to
  the next deadline when somebody waits for a task that nothing else can wake.
Main exports: System, System.spawn, System.settle, System.complete, System.cancel, System.advance,
  System.abort, System.letGo
-/
import Containment.World

namespace Containment

/-- What tasks share: the world, the locks, the time, and who can go on, in order. -/
structure Shared where
  world : World
  locks : Locks := {}
  timeline : Timeline := {}
  queue : List Nat := []
deriving Inhabited

/-- Where a task stands. A waiting task has a claim on the lock and goes on with `next`. -/
inductive TaskState (α : Type) where
  | fresh (program : Program α)
  | waiting (lock : LockName) (next : Option Cancellation → Program α)
  | finished (value : α)

/-- A program on its way in a context. -/
structure Task (α : Type) where
  context : Context
  state : TaskState α

namespace Task

variable {α : Type}

/-- How the task ended. -/
def result? (task : Task α) : Option α :=
  match task.state with
  | .finished value => some value
  | _ => none

/-- Whether the task waits for a lock. -/
def isWaiting (task : Task α) : Bool :=
  match task.state with
  | .waiting .. => true
  | _ => false

/-- When a waiting task gives up. -/
def wakeTime? (task : Task α) : Option Nat :=
  if task.isWaiting then task.context.deadline else none

end Task

namespace Shared

/-- Give a claim up; who gets in because of it can go on. -/
def leave (s : Shared) (lock : LockName) (task : Nat) : Shared :=
  let (woken, locks) := s.locks.leave lock task
  { s with locks, queue := s.queue ++ woken }

/-- Give a claim up without a trace, as when its owner vanishes. -/
def desert (s : Shared) (lock : LockName) (task : Nat) : Shared :=
  let (woken, locks) := s.locks.desert lock task
  { s with locks, queue := s.queue ++ woken }

/-- Ask the world. -/
def ask (s : Shared) (request : Effect) : request.Answer × Shared :=
  let (answer, world) := s.world.answer request
  (answer, { s with world })

/-- Claim a lock for a task. -/
def claim (s : Shared) (lock : LockName) (mode : Mode) (task : Nat) : Bool × Shared :=
  let (granted, locks) := s.locks.request lock { holder := task, mode }
  (granted, { s with locks })

/-- Drop the entry of an idle lock. -/
def reclaim (s : Shared) (lock : LockName) : Shared :=
  { s with locks := s.locks.reclaim lock }

end Shared

/-- Run a program until it ends or has to wait. A context that is done gets no lock. -/
def Program.advance {α : Type} (context : Context) (task : Nat) :
    Program α → Shared → TaskState α × Shared
  | .done value, s => (.finished value, s)
  | .effect request next, s =>
    let (answer, s) := s.ask request
    (next answer).advance context task s
  | .check next, s => (next (context.check s.timeline)).advance context task s
  | .acquire lock mode next, s =>
    match context.check s.timeline with
    | some reason => (next (some reason)).advance context task (s.reclaim lock)
    | none =>
      let (granted, s) := s.claim lock mode task
      if granted then (next none).advance context task s else (.waiting lock next, s)
  | .release lock next, s => (next ()).advance context task (s.leave lock task)

/-- Let a task go on. A waiting one gives up if its context is done, even if the lock has just been granted;
else it goes on once it has the lock. -/
def Task.resume {α : Type} (task : Task α) (id : Nat) (s : Shared) : Task α × Shared :=
  match task.state with
  | .finished _ => (task, s)
  | .fresh program =>
    let (state, s) := program.advance task.context id s
    ({ task with state }, s)
  | .waiting lock next =>
    match task.context.check s.timeline with
    | some reason =>
      let (state, s) := (next (some reason)).advance task.context id (s.leave lock id)
      ({ task with state }, s)
    | none =>
      if s.locks.isHeldBy lock id then
        let (state, s) := (next none).advance task.context id s
        ({ task with state }, s)
      else (task, s)

/-- Tasks and what they share. -/
structure System (α : Type) where
  shared : Shared
  tasks : Std.ExtTreeMap Nat (Task α) := ∅
  made : Nat := 0

namespace System

variable {α : Type}

instance : Inhabited (System α) := ⟨{ shared := default }⟩

/-- How a task ended. -/
def result? (sys : System α) (id : Nat) : Option α :=
  sys.tasks[id]? >>= Task.result?

/-- The world that the tasks share. -/
def world (sys : System α) : World := sys.shared.world

/-- Change the world. -/
def withWorld (sys : System α) (world : World) : System α :=
  { sys with shared := { sys.shared with world } }

/-- Change the time. -/
def withTimeline (sys : System α) (timeline : Timeline) : System α :=
  { sys with shared := { sys.shared with timeline } }

/-- Start a task. It runs when the system settles. -/
def spawn (sys : System α) (context : Context) (program : Program α) : Nat × System α :=
  (sys.made,
    { shared := { sys.shared with queue := sys.shared.queue ++ [sys.made] }
      tasks := sys.tasks.insert sys.made { context, state := .fresh program }
      made := sys.made + 1 })

/-- Let the first task that can go on do so. -/
def step? (sys : System α) : Option (System α) :=
  match sys.shared.queue with
  | [] => none
  | id :: queue =>
    let shared := { sys.shared with queue }
    match sys.tasks[id]? with
    | none => some { sys with shared }
    | some task =>
      let (task, shared) := task.resume id shared
      some { sys with shared, tasks := sys.tasks.insert id task }

/-- Let tasks go on for at most that many turns. -/
def settleWithin : Nat → System α → System α
  | 0, sys => sys
  | turns + 1, sys =>
    match sys.step? with
    | none => sys
    | some sys => settleWithin turns sys

/-- More turns than tasks can take. -/
def settleTurns : Nat := 0x10000000000000000

/-- Let tasks go on until none can. -/
def settle (sys : System α) : System α :=
  settleWithin settleTurns sys

/-- Wake those tasks for which a condition holds, in the order of their deadlines. -/
def wake (sys : System α) (condition : Task α → Bool) : System α :=
  let chosen := sys.tasks.toList.filter fun (_, task) => task.isWaiting && condition task
  let inOrder := chosen.mergeSort fun a b => a.2.context.deadline.getD 0 ≤ b.2.context.deadline.getD 0
  { sys with shared := { sys.shared with queue := sys.shared.queue ++ inOrder.map Prod.fst } }

/-- Wake those whose deadline has come. -/
def wakeExpired (sys : System α) : System α :=
  sys.wake fun task => task.context.isExpired sys.shared.timeline

/-- Let time pass. -/
def advance (sys : System α) (ms : Nat) : System α :=
  (sys.withTimeline (sys.shared.timeline.advance ms)).wakeExpired.settle

/-- Cancel a token. -/
def cancel (sys : System α) (token : Token) : System α :=
  let sys := sys.withTimeline (sys.shared.timeline.cancel token)
  (sys.wake fun task => token.isPrefixOf task.context.token).settle

/-- The next deadline of a waiting task. -/
def nextTimer? (sys : System α) : Option Nat :=
  (sys.tasks.values.filterMap Task.wakeTime?).min?

/-- Let a task vanish: it leaves the lock that it waits for and gives back all that it holds. -/
def abort (sys : System α) (id : Nat) : System α :=
  match sys.tasks[id]? with
  | some { context, state := .waiting lock next } =>
    let (_, shared) := (next (some .cancelled)).advance context id (sys.shared.desert lock id)
    settle { sys with shared, tasks := sys.tasks.erase id }
  | _ => { sys with tasks := sys.tasks.erase id }

/-- Wait for a task for at most that many jumps of time. A task that nothing can wake any more is given
up. -/
def completeWithin (id : Nat) : Nat → System α → Option α × System α
  | 0, sys => (none, sys.abort id)
  | jumps + 1, sys =>
    match sys.result? id with
    | some value => (some value, { sys with tasks := sys.tasks.erase id })
    | none =>
      match sys.nextTimer? with
      | none => (none, sys.abort id)
      | some time =>
        completeWithin id jumps
          (sys.withTimeline (sys.shared.timeline.advanceTo time)).wakeExpired.settle

/-- Run a program to its end while the other tasks go on. Time jumps only when nobody can go on, and every jump
ends the wait of at least one task; no call comes near `settleTurns` of them. -/
def complete (sys : System α) (context : Context) (program : Program α) : Option α × System α :=
  let (id, sys) := sys.spawn context program
  completeWithin id settleTurns sys.settle

/-- Give back a lock on behalf of a task that ended without doing so. -/
def letGo (sys : System α) (lock : LockName) (id : Nat) : System α :=
  { sys with shared := sys.shared.leave lock id }

end System

end Containment
