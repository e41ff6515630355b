/-
Module: Containment.Proofs.Concurrency.Deadlock
Purpose: Tasks never wait for each other in a circle. Each edge of the waits-for relation leads to a task that asks for
  a later lock, or for the same lock nearer to the front of its queue.
Main exports: System.WaitsFor, System.AsksFor, System.Stands.acyclic, Job, System.never_deadlocks
-/
import Containment.Proofs.Concurrency.Standing
import Mathlib.Logic.Relation

namespace Containment

/-! ### Who waits for whom -/

/-- In the queue of the lock, one task's claim stands before another's. -/
def Gate.QueuedBefore (gate : Gate) (first later : Nat) : Prop :=
  ∃ i j : Nat, i < j ∧ (gate.waiting.map Claim.holder)[i]? = some first ∧
    (gate.waiting.map Claim.holder)[j]? = some later

namespace System

variable {α : Type}

/-- The task has claimed the lock and is not granted it. -/
def Blocked (sys : System α) (id : Nat) (lock : LockName) : Prop :=
  sys.asked id = some lock ∧ sys.shared.locks.isHeldBy lock id = false

/-- A blocked task waits for those who hold the lock by now and for those whose requests are queued before its own. -/
def WaitsFor (sys : System α) (id other : Nat) : Prop :=
  ∃ lock, sys.Blocked id lock ∧
    (sys.shared.locks.isHeldBy lock other = true ∨ (sys.shared.locks.gate lock).QueuedBefore other id)

/-- The task waits for the lock, or claims it next. -/
def AsksFor (sys : System α) (id : Nat) (lock : LockName) : Prop :=
  sys.asked id = some lock ∨
    ∃ context mode next, sys.tasks[id]? = some { context, state := .fresh (.acquire lock mode next) }

end System

/-! ### Queues -/

namespace Gate

variable {gate : Gate} {has asks : Nat → Prop} {a b c : Nat}

theorem Serves.queue_nodup (serves : gate.Serves has asks) : (gate.waiting.map Claim.holder).Nodup := by
  have distinct := serves.distinct
  rw [claims, List.map_append, List.nodup_append] at distinct
  exact distinct.2.1

theorem QueuedBefore.waiting (serves : gate.Serves has asks) (before : gate.QueuedBefore a b) : asks a := by
  obtain ⟨i, j, -, there, -⟩ := before
  obtain ⟨claim, mem, rfl⟩ := List.mem_map.1 (List.mem_of_getElem? there)
  exact serves.waiting claim mem

theorem QueuedBefore.trans (serves : gate.Serves has asks) (first : gate.QueuedBefore a b)
    (second : gate.QueuedBefore b c) : gate.QueuedBefore a c := by
  obtain ⟨i, j, lt, there, between⟩ := first
  obtain ⟨j', k, lt', between', last⟩ := second
  have bound : j < (gate.waiting.map Claim.holder).length := (List.getElem?_eq_some_iff.1 between).1
  have same : j = j' := (List.getElem?_inj bound serves.queue_nodup).1 (between.trans between'.symm)
  exact ⟨i, k, by omega, there, last⟩

theorem not_queuedBefore_self (serves : gate.Serves has asks) : ¬ gate.QueuedBefore a a := by
  rintro ⟨i, j, lt, first, later⟩
  have bound : i < (gate.waiting.map Claim.holder).length := (List.getElem?_eq_some_iff.1 first).1
  have same : i = j := (List.getElem?_inj bound serves.queue_nodup).1 (first.trans later.symm)
  omega

end Gate

/-! ### No circles -/

namespace System

variable {α : Type} {sys : System α} {held : Nat → Finset LockName} {a b c id : Nat} {lock asked : LockName}

/-- The other task is blocked at a later lock, or further in front at the same one. -/
def Behind (sys : System α) (id other : Nat) : Prop :=
  ∃ lock ahead, sys.Blocked id lock ∧ sys.Blocked other ahead ∧
    (lock.Before ahead ∨ lock = ahead ∧ (sys.shared.locks.gate lock).QueuedBefore other id)

theorem Stands.not_behind_self (stands : sys.Stands held) : ¬ sys.Behind id id := by
  rintro ⟨lock, ahead, ⟨asks, -⟩, ⟨asks', -⟩, order⟩
  obtain rfl : lock = ahead := Option.some.inj (asks.symm.trans asks')
  rcases order with before | ⟨-, before⟩
  · exact lock.not_before_self before
  · exact Gate.not_queuedBefore_self (stands.serves.gates lock) before

theorem Stands.behind_trans (stands : sys.Stands held) (first : sys.Behind a b) (second : sys.Behind b c) :
    sys.Behind a c := by
  obtain ⟨x, y, blocked, ⟨asks, -⟩, order⟩ := first
  obtain ⟨y', z, ⟨asks', -⟩, blocked', order'⟩ := second
  obtain rfl : y = y' := Option.some.inj (asks.symm.trans asks')
  refine ⟨x, z, blocked, blocked', ?_⟩
  rcases order with before | ⟨rfl, before⟩
  · rcases order' with before' | ⟨rfl, -⟩
    · exact .inl (before.trans before')
    · exact .inl before
  · rcases order' with before' | ⟨rfl, before'⟩
    · exact .inl before'
    · exact .inr ⟨rfl, before'.trans (stands.serves.gates x) before⟩

/-- What a task has comes before what it asks for. -/
theorem Stands.above (stands : sys.Stands held) (asks : sys.AsksFor id asked) : ∀ l ∈ held id, l.Before asked := by
  rcases asks with waits | ⟨context, mode, next, found⟩
  · obtain ⟨context, next, found⟩ := exists_waiting waits
    exact (stands.climbs id _ found).1
  · exact (stands.climbs id _ found).1

/-- If the task that is waited for is blocked itself, it is nearer to its turn. -/
theorem WaitsFor.behind (stands : sys.Stands held) (waits : sys.WaitsFor a b) (blocked : sys.Blocked b lock) :
    sys.Behind a b := by
  obtain ⟨wanted, waiting, granted | before⟩ := waits
  · -- It has the wanted lock: a lock just granted to it would not block it.
    have has : wanted ∈ held b := by
      apply stands.has granted
      intro same
      obtain rfl : lock = wanted := Option.some.inj (blocked.1.symm.trans same)
      rw [blocked.2] at granted
      cases granted
    exact ⟨wanted, lock, waiting, blocked, .inl (stands.above (.inl blocked.1) wanted has)⟩
  · have same : sys.asked b = some wanted := before.waiting (stands.serves.gates wanted)
    obtain rfl : lock = wanted := Option.some.inj (blocked.1.symm.trans same)
    exact ⟨lock, lock, waiting, blocked, .inr ⟨rfl, before⟩⟩

theorem Stands.behind_of_transGen (stands : sys.Stands held) (waits : Relation.TransGen sys.WaitsFor a b)
    (blocked : sys.Blocked b lock) : sys.Behind a b := by
  induction waits generalizing lock with
  | single waits => exact WaitsFor.behind stands waits blocked
  | tail _ waits ih =>
    have nearer := WaitsFor.behind stands waits blocked
    obtain ⟨wanted, between, -⟩ := waits
    exact stands.behind_trans (ih between) nearer

/-- Nobody waits for itself, however many others are between. -/
theorem Stands.acyclic (stands : sys.Stands held) (id : Nat) : ¬ Relation.TransGen sys.WaitsFor id id := by
  intro cycle
  obtain ⟨next, ⟨lock, blocked, -⟩, -⟩ := Relation.TransGen.head'_iff.1 cycle
  exact stands.not_behind_self (stands.behind_of_transGen cycle blocked)

end System

/-! ### Calls and guards side by side -/

/-- What tasks do: calls to the repository, or taking several containers and keeping them. -/
inductive Job where
  | call (settings : Settings) (asked : Call)
  | writeMany (keys : List String)

/-- The program behind a job. -/
def Job.program : Job → Program Outcome
  | .call settings asked => asked.program settings
  | .writeMany keys => (LockTable.writeMany keys).bind fun
    | none => .done (.ok .done)
    | some reason => .done (.error (.canceled reason))

theorem Job.climbs (job : Job) : job.program.Climbs ∅ := by
  cases job with
  | call settings asked => exact (asked.ascends settings).mono fun _ _ _ => trivial
  | writeMany keys =>
    apply Program.Ascends.bind
    apply (LockTable.ascends_writeMany keys).mono
    intro status left _
    cases status with
    | none => exact trivial
    | some reason => exact trivial

/-- However calls and guards interleave, nobody waits in a circle, and every lock that a task has comes before the one
that it asks for: the hierarchy before all containers, and containers in strictly increasing order. -/
theorem System.never_deadlocks {sys : System Outcome} (reached : sys.Reached fun p => ∃ job : Job, p = job.program) :
    (∀ id, ¬ Relation.TransGen sys.WaitsFor id id) ∧
      ∀ id lock asked, sys.Holds id lock → sys.AsksFor id asked → lock.Before asked := by
  have climbs : ∀ p : Program Outcome, (∃ job : Job, p = job.program) → p.Climbs ∅ := by
    rintro p ⟨job, rfl⟩
    exact job.climbs
  obtain ⟨held, stands⟩ := reached.stands climbs
  refine ⟨stands.acyclic, fun id lock asked holds asks => ?_⟩
  exact stands.above asks lock (stands.holds_iff.1 holds)

/-- Somebody keeps two containers, a creation waits for one of them and shares the hierarchy meanwhile, and a move
waits for the hierarchy. -/
def sampleRivals : System Outcome :=
  let empty : System Outcome := { shared := { world := default } }
  let kept := (empty.spawn { token := [0] } (Job.writeMany ["b", "", "a", "b"]).program).2
  let creating := (kept.spawn { token := [1] } (Job.call {} (.create (.new "a" "" .basic none))).program).2
  (creating.spawn { token := [2] } (Job.call {} (.move "c" "a")).program).2.settle

theorem sampleRivals_reached : sampleRivals.Reached fun p => ∃ job : Job, p = job.program := by
  have empty : System.Reached (fun p => ∃ job : Job, p = job.program) { shared := { world := default } } := .start _
  have kept := empty.spawn { token := [0] } ⟨.writeMany ["b", "", "a", "b"], rfl⟩
  have creating := kept.spawn { token := [1] } ⟨.call {} (.create (.new "a" "" .basic none)), rfl⟩
  exact (creating.spawn { token := [2] } ⟨.call {} (.move "c" "a"), rfl⟩).settle

theorem rivals_never_deadlock : sampleRivals.WaitsFor 2 1 ∧ sampleRivals.WaitsFor 1 0 ∧
    sampleRivals.Holds 0 (.container "b") ∧ (∀ id, ¬ Relation.TransGen sampleRivals.WaitsFor id id) ∧
    ∀ id lock asked, sampleRivals.Holds id lock → sampleRivals.AsksFor id asked → lock.Before asked := by
  refine ⟨⟨.hierarchy, ⟨?_, ?_⟩, .inl ?_⟩, ⟨.container "a", ⟨?_, ?_⟩, .inl ?_⟩, ⟨?_, ?_⟩,
    System.never_deadlocks sampleRivals_reached⟩
  all_goals decide +kernel

end Containment
