/-
Module: Containment.Proofs.Concurrency.Steps
Purpose: Tasks side by side, one instruction at a time. Any task may take its next step at any time, and locks that a
  task has kept beyond its end may be given back one by one, so these runs contain all that turns can do.
Main exports: Task.Steps, System.Reached, System.Reached.goes, System.Reached.settle, System.Reached.advance,
  System.Reached.cancel
-/
import Containment.Proofs.Concurrency.Progress

namespace Containment

/-- One step of a task. A claim that is granted at once is found granted in the next step; a task that waits may give
up as soon as its context is done, even if it has its lock by then. -/
inductive Task.Steps {α : Type} (id : Nat) (s : Shared) : Task α → TaskState α → Shared → Prop
  | ends {context : Context} {value : α} :
      Steps id s { context, state := .fresh (.done value) } (.finished value) s
  | asks {context : Context} {request : Effect} {next : request.Answer → Program α} :
      Steps id s { context, state := .fresh (.effect request next) } (.fresh (next (s.ask request).1))
        (s.ask request).2
  | looks {context : Context} {next : Option Cancellation → Program α} :
      Steps id s { context, state := .fresh (.check next) } (.fresh (next (context.check s.timeline))) s
  | refused {context : Context} {lock : LockName} {mode : Mode} {next : Option Cancellation → Program α}
      {reason : Cancellation} : context.check s.timeline = some reason →
      Steps id s { context, state := .fresh (.acquire lock mode next) } (.fresh (next (some reason))) (s.reclaim lock)
  | claims {context : Context} {lock : LockName} {mode : Mode} {next : Option Cancellation → Program α} :
      Steps id s { context, state := .fresh (.acquire lock mode next) } (.waiting lock next) (s.claim lock mode id).2
  | enters {context : Context} {lock : LockName} {next : Option Cancellation → Program α} :
      s.locks.isHeldBy lock id = true →
      Steps id s { context, state := .waiting lock next } (.fresh (next none)) s
  | givesUp {context : Context} {lock : LockName} {next : Option Cancellation → Program α} {reason : Cancellation} :
      context.check s.timeline = some reason →
      Steps id s { context, state := .waiting lock next } (.fresh (next (some reason))) (s.leave lock id)
  | releases {context : Context} {lock : LockName} {next : Unit → Program α} :
      Steps id s { context, state := .fresh (.release lock next) } (.fresh (next ())) (s.leave lock id)

namespace System

variable {α : Type} {allowed : Program α → Prop} {sys : System α} {id : Nat}

/-- No task of this number is on its way. -/
def Over (sys : System α) (id : Nat) : Prop :=
  ∀ task, sys.tasks[id]? = some task → ∃ value, task.state = .finished value

theorem over_of_result {value : α} (ended : sys.result? id = some value) : sys.Over id := by
  intro task found
  rw [System.result?, found] at ended
  cases state : task.state with
  | finished value => exact ⟨value, rfl⟩
  | fresh p | waiting lock next =>
    change task.result? = some value at ended
    rw [Task.result?, state] at ended
    cases ended

/-- All ways in which tasks with programs of this kind can proceed, starting with no tasks and free locks. A task that
is over may be forgotten, and a lock that it still has may be given back. All but tasks and locks may change at any
time. -/
inductive Reached (allowed : Program α → Prop) : System α → Prop
  | start (world : World) : Reached allowed { shared := { world } }
  | spawn {sys : System α} {p : Program α} (context : Context) :
      Reached allowed sys → allowed p → Reached allowed (sys.spawn context p).2
  | step {sys : System α} {id : Nat} {task : Task α} {state : TaskState α} {shared : Shared} :
      Reached allowed sys → sys.tasks[id]? = some task → task.Steps id sys.shared state shared →
        Reached allowed (sys.turned id task state shared)
  | letGo {sys : System α} {id : Nat} {lock : LockName} :
      Reached allowed sys → sys.Over id → sys.shared.locks.isHeldBy lock id = true →
        Reached allowed (sys.letGo lock id)
  | forget {sys : System α} {id : Nat} :
      Reached allowed sys → sys.Over id → Reached allowed { sys with tasks := sys.tasks.erase id }
  | drift {sys : System α} {shared : Shared} :
      Reached allowed sys → shared.locks = sys.shared.locks → Reached allowed { sys with shared }

/-! ### Tasks by their numbers -/

theorem getElem?_turned {task : Task α} {state : TaskState α} {shared : Shared} (other : Nat) :
    (sys.turned id task state shared).tasks[other]? =
      if other = id then some { task with state } else sys.tasks[other]? := by
  change (sys.tasks.insert id { task with state })[other]? = _
  simp only [Std.ExtTreeMap.getElem?_insert, Std.LawfulEqCmp.compare_eq_iff_eq, eq_comm (a := id)]

theorem getElem?_turned_self {task : Task α} {state : TaskState α} {shared : Shared} :
    (sys.turned id task state shared).tasks[id]? = some { task with state } := by
  rw [getElem?_turned, if_pos rfl]

/-- Of two turns of one task, the second tells how it stands. -/
theorem turned_turned {task : Task α} {state state' : TaskState α} {shared shared' : Shared} :
    (sys.turned id task state shared).turned id { task with state } state' shared' =
      sys.turned id task state' shared' := by
  have tasks : (sys.tasks.insert id { task with state }).insert id { task with state := state' } =
      sys.tasks.insert id { task with state := state' } := by
    apply Std.ExtTreeMap.ext_getElem?
    intro other
    simp only [Std.ExtTreeMap.getElem?_insert]
    split <;> rfl
  exact congrArg (fun tasks => ({ shared := shared', tasks, made := sys.made } : System α)) tasks

theorem turned_self {task : Task α} {shared : Shared} (found : sys.tasks[id]? = some task) :
    sys.turned id task task.state shared = { sys with shared } := by
  have tasks : sys.tasks.insert id task = sys.tasks := by
    apply Std.ExtTreeMap.ext_getElem?
    intro other
    rw [Std.ExtTreeMap.getElem?_insert]
    split
    · rename_i same
      rw [← Std.LawfulEqCmp.compare_eq_iff_eq.1 same, found]
    · rfl
  exact congrArg (fun tasks => ({ shared, tasks, made := sys.made } : System α)) tasks

end System

/-! ### Turns are made of steps -/

theorem Gate.isHeldBy_of_mem {gate : Gate} {c : Claim} (mem : c ∈ gate.granted) : gate.isHeldBy c.holder = true :=
  List.any_eq_true.2 ⟨c, mem, beq_self_eq_true _⟩

/-- A claim that is granted is found granted. -/
theorem Shared.isHeldBy_claim {s : Shared} {lock : LockName} {mode : Mode} {id : Nat}
    (granted : (s.claim lock mode id).1 = true) : (s.claim lock mode id).2.locks.isHeldBy lock id = true := by
  cases lock with
  | hierarchy => exact Gate.isHeldBy_of_mem ((Gate.request_spec _).2.2.2 granted)
  | container key =>
    have mem : { holder := id, mode } ∈ ((s.locks.containers.gate key).request { holder := id, mode }).2.granted :=
      (Gate.request_spec _).2.2.2 granted
    change Gate.isHeldBy (LockTable.gate { gates := _ } key) id = true
    rw [LockTable.gate, Std.ExtTreeMap.getElem?_insert_self]
    exact Gate.isHeldBy_of_mem mem

namespace System.Reached

variable {α : Type} {allowed : Program α → Prop} {sys : System α} {id : Nat}

/-- Of two steps of one task, the second tells how it stands. -/
theorem again {task : Task α} {state state' : TaskState α} {shared shared' : Shared}
    (reached : (sys.turned id task state shared).Reached allowed)
    (steps : ({ task with state } : Task α).Steps id shared state' shared') :
    (sys.turned id task state' shared').Reached allowed := by
  have stepped := reached.step getElem?_turned_self steps
  rw [turned_turned] at stepped
  exact stepped

/-- What a program does until it ends or stops at a lock. -/
theorem proceeds {context : Context} {p : Program α} {before state : TaskState α} {s s' : Shared}
    (goes : p.Proceeds context id s state s')
    (reached : (sys.turned id { context, state := before } (.fresh p) s).Reached allowed) :
    (sys.turned id { context, state := before } state s').Reached allowed := by
  induction goes with
  | done => exact reached.again .ends
  | effect _ ih => exact ih (reached.again .asks)
  | check _ ih => exact ih (reached.again .looks)
  | refused status _ ih => exact ih (reached.again (.refused status))
  | granted free _ ih => exact ih ((reached.again .claims).again (.enters (Shared.isHeldBy_claim free)))
  | waits => exact reached.again .claims
  | pauses => exact reached
  | release _ ih => exact ih (reached.again .releases)

/-- A turn of a task. -/
theorem goes {task : Task α} {state : TaskState α} {s' : Shared} (reached : sys.Reached allowed)
    (found : sys.tasks[id]? = some task) (goes : task.Goes id sys.shared state s') :
    (sys.turned id task state s').Reached allowed := by
  cases goes with
  | starts goes =>
    apply proceeds goes
    rw [turned_self found]
    exact reached
  | givesUp status goes => exact proceeds goes (reached.step found (.givesUp status))
  | goesOn granted goes => exact proceeds goes (reached.step found (.enters granted))

/-! ### The running system -/

theorem step? {sys' : System α} (reached : sys.Reached allowed) (stepped : sys.step? = some sys') :
    sys'.Reached allowed := by
  unfold System.step? at stepped
  cases queue : sys.shared.queue with
  | nil =>
    rw [queue] at stepped
    cases stepped
  | cons id rest =>
    rw [queue] at stepped
    have drifted : Reached allowed { sys with shared := { sys.shared with queue := rest } } := reached.drift rfl
    cases found : sys.tasks[id]? with
    | none =>
      simp only [found] at stepped
      cases stepped
      exact drifted
    | some task =>
      simp only [found] at stepped
      cases stepped
      rcases task.resume_goes id { sys.shared with queue := rest } with same | ⟨state, shared, goes, same⟩
      · -- The task has to go on waiting, or it has ended before.
        rw [same]
        rw [← turned_self found] at drifted
        exact drifted
      · rw [same]
        exact drifted.goes found goes

theorem settleWithin (turns : Nat) (reached : sys.Reached allowed) : (sys.settleWithin turns).Reached allowed := by
  induction turns generalizing sys with
  | zero => exact reached
  | succ turns ih =>
    simp only [System.settleWithin]
    cases stepped : sys.step? with
    | none => exact reached
    | some sys' => exact ih (reached.step? stepped)

theorem settle (reached : sys.Reached allowed) : sys.settle.Reached allowed :=
  reached.settleWithin settleTurns

theorem advance (ms : Nat) (reached : sys.Reached allowed) : (sys.advance ms).Reached allowed := by
  have drifted : Reached allowed (sys.withTimeline (sys.shared.timeline.advance ms)).wakeExpired := reached.drift rfl
  exact drifted.settle

theorem cancel (token : Token) (reached : sys.Reached allowed) : (sys.cancel token).Reached allowed := by
  have drifted : Reached allowed ((sys.withTimeline (sys.shared.timeline.cancel token)).wake fun task =>
    token.isPrefixOf task.context.token) := reached.drift rfl
  exact drifted.settle

end System.Reached

end Containment
