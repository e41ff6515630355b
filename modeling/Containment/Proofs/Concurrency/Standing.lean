/-
Module: Containment.Proofs.Concurrency.Standing
Purpose: Where tasks side by side stand with the locks. Programs that take locks in their order use them as locks are
  meant to be used, so at any time the locks show what each task has and asks for.
Main exports: Program.Climbs, System.asked, System.Holds, System.Stands, System.Reached.stands
-/
import Containment.Proofs.Concurrency.LockOrder
import Containment.Proofs.Concurrency.Steps
import Containment.Proofs.Concurrency.Usage

namespace Containment

open Function (update)

/-- Having these locks, the program takes others in their order and gives back only what it has. What it keeps at the
end is left open. -/
def Program.Climbs {α : Type} (p : Program α) (held : Finset LockName) : Prop :=
  p.Ascends held fun _ _ => True

/-- The lock that a task has claimed and not entered yet. -/
def TaskState.asked {α : Type} : TaskState α → Option LockName
  | .waiting lock _ => some lock
  | .fresh _ | .finished _ => none

/-- Having these locks, the task goes on to take others in their order. -/
def TaskState.Climbs {α : Type} (held : Finset LockName) : TaskState α → Prop
  | .fresh p => p.Climbs held
  | .waiting lock next => (∀ l ∈ held, l.Before lock) ∧ (∀ reason, (next (some reason)).Climbs held) ∧
      (next none).Climbs (insert lock held)
  | .finished _ => True

namespace System

variable {α : Type} {sys : System α} {held : Nat → Finset LockName} {id : Nat} {task : Task α} {lock : LockName}

/-- The lock that a task has claimed and not entered yet. -/
def asked (sys : System α) (id : Nat) : Option LockName :=
  sys.tasks[id]? >>= fun task => task.state.asked

theorem asked_of (found : sys.tasks[id]? = some task) : sys.asked id = task.state.asked := by
  rw [asked, found]
  rfl

theorem asked_turned (state : TaskState α) (shared : Shared) :
    (sys.turned id task state shared).asked = update sys.asked id state.asked := by
  funext other
  by_cases own : other = id
  · rw [own, Function.update_self, asked_of getElem?_turned_self]
  · rw [Function.update_of_ne own, asked, getElem?_turned, if_neg own, asked]

theorem Over.asked (gone : sys.Over id) : sys.asked id = none := by
  cases found : sys.tasks[id]? with
  | none => rw [System.asked, found]; rfl
  | some task =>
    obtain ⟨value, ended⟩ := gone task found
    rw [asked_of found, ended]
    rfl

/-- The task has the lock. One that waits does not have it before it has noticed that it is granted. -/
def Holds (sys : System α) (id : Nat) (lock : LockName) : Prop :=
  sys.shared.locks.isHeldBy lock id = true ∧ sys.asked id ≠ some lock

/-- The tasks have these locks: their locks have been used accordingly, and they go on to take others in their order.
Numbers of tasks yet to come are free. -/
structure Stands (sys : System α) (held : Nat → Finset LockName) : Prop where
  used : sys.shared.locks.Used held sys.asked
  climbs : ∀ (id : Nat) (task : Task α), sys.tasks[id]? = some task → task.state.Climbs (held id)
  unborn : ∀ id, sys.made ≤ id → sys.tasks[id]? = none ∧ held id = ∅

theorem Stands.serves (stands : sys.Stands held) : sys.shared.locks.Serves held sys.asked :=
  stands.used.serves

/-- A task that asks for a lock is waiting for it. -/
theorem exists_waiting (asks : sys.asked id = some lock) : ∃ context next,
    sys.tasks[id]? = some { context, state := .waiting lock next } := by
  cases found : sys.tasks[id]? with
  | none =>
    rw [asked, found] at asks
    cases asks
  | some task =>
    rw [asked_of found] at asks
    obtain ⟨context, state⟩ := task
    cases state with
    | waiting wanted next =>
      cases asks
      exact ⟨context, next, rfl⟩
    | fresh p | finished value => cases asks

/-- A task has what it is granted, unless it has been waiting for it and has not noticed yet. -/
theorem Stands.has (stands : sys.Stands held) (granted : sys.shared.locks.isHeldBy lock id = true)
    (idle : sys.asked id ≠ some lock) : lock ∈ held id := by
  rw [Locks.isHeldBy_eq] at granted
  obtain ⟨c, mem, rfl⟩ := Gate.isHeldBy_iff.1 granted
  exact ((stands.serves.gates lock).granted c mem).resolve_right idle

/-- A lock that comes after all of these is none of them. -/
theorem notMem_of_above {locks : Finset LockName} (above : ∀ l ∈ locks, l.Before lock) : lock ∉ locks :=
  fun mem => lock.not_before_self (above lock mem)

theorem Stands.holds_iff (stands : sys.Stands held) : sys.Holds id lock ↔ lock ∈ held id := by
  constructor
  · rintro ⟨granted, idle⟩
    exact stands.has granted idle
  · intro mem
    refine ⟨?_, fun asks => ?_⟩
    · rw [Locks.isHeldBy_eq]
      exact (stands.serves.gates lock).held id mem
    · obtain ⟨context, next, found⟩ := exists_waiting asks
      exact notMem_of_above (stands.climbs id _ found).1 mem

/-! ### Steps -/

theorem stands_start (world : World) : ({ shared := { world } } : System α).Stands fun _ => ∅ := by
  refine ⟨?_, ?_, ?_⟩
  · exact .start
  · intro id task found
    simp at found
  · exact fun id _ => ⟨by simp, rfl⟩

/-- A step of a task that has these locks afterwards. -/
theorem Stands.turned {state : TaskState α} {shared : Shared} {now : Finset LockName} (stands : sys.Stands held)
    (found : sys.tasks[id]? = some task)
    (used : shared.locks.Used (update held id now) (update sys.asked id state.asked)) (climbs : state.Climbs now) :
    (sys.turned id task state shared).Stands (update held id now) := by
  refine ⟨?_, ?_, ?_⟩
  · rw [asked_turned]
    exact used
  · intro other found' there
    rw [getElem?_turned] at there
    by_cases own : other = id
    · rw [if_pos own] at there
      cases there
      rw [own, Function.update_self]
      exact climbs
    · rw [if_neg own] at there
      rw [Function.update_of_ne own]
      exact stands.climbs other found' there
  · intro other unborn
    have ne : other ≠ id := by
      rintro rfl
      rw [(stands.unborn other unborn).1] at found
      cases found
    rw [getElem?_turned, if_neg ne, Function.update_of_ne ne]
    exact stands.unborn other unborn

/-- A step of a task that leaves it with the locks that it had. -/
theorem Stands.keeps {state : TaskState α} {shared : Shared} (stands : sys.Stands held)
    (found : sys.tasks[id]? = some task) (used : shared.locks.Used held (update sys.asked id state.asked))
    (climbs : state.Climbs (held id)) : (sys.turned id task state shared).Stands held := by
  have same : update held id (held id) = held := Function.update_eq_self id held
  rw [← same] at used ⊢
  exact stands.turned found used climbs

theorem Stands.step {state : TaskState α} {shared : Shared} (stands : sys.Stands held)
    (found : sys.tasks[id]? = some task) (steps : task.Steps id sys.shared state shared) :
    ∃ held', (sys.turned id task state shared).Stands held' := by
  have climbs := stands.climbs id task found
  have asks := asked_of found
  have quiet : task.state.asked = none → sys.shared.locks.Used held (update sys.asked id none) := by
    intro idle
    rw [← idle, ← asks, Function.update_eq_self]
    exact stands.used
  cases steps with
  | ends => exact ⟨held, stands.keeps found (quiet rfl) trivial⟩
  | asks => exact ⟨held, stands.keeps found (quiet rfl) (climbs _)⟩
  | looks => exact ⟨held, stands.keeps found (quiet rfl) (climbs _)⟩
  | refused => exact ⟨held, stands.keeps found ((quiet rfl).reclaim _) (climbs.2.1 _)⟩
  | claims => exact ⟨held, stands.keeps found (stands.used.claim _ asks (notMem_of_above climbs.1)) climbs⟩
  | enters granted => exact ⟨_, stands.turned found (stands.used.enter asks granted) climbs.2.2⟩
  | givesUp =>
    have gaveUp := stands.used.giveUp asks (notMem_of_above climbs.1)
    exact ⟨held, stands.keeps found gaveUp (climbs.2.1 _)⟩
  | releases =>
    have gaveBack := stands.used.giveBack asks climbs.1
    refine ⟨_, stands.turned found ?_ climbs.2⟩
    rw [TaskState.asked, ← show sys.asked id = none from asks, Function.update_eq_self]
    exact gaveBack

theorem Stands.spawn {p : Program α} (stands : sys.Stands held) (context : Context) (climbs : p.Climbs ∅) :
    (sys.spawn context p).2.Stands held := by
  obtain ⟨absent, nothing⟩ := stands.unborn sys.made (Nat.le_refl _)
  have look : ∀ other, (sys.spawn context p).2.tasks[other]? =
      if other = sys.made then some { context, state := .fresh p } else sys.tasks[other]? := by
    intro other
    simp only [System.spawn, Std.ExtTreeMap.getElem?_insert, Std.LawfulEqCmp.compare_eq_iff_eq,
      eq_comm (a := sys.made)]
  refine ⟨?_, ?_, ?_⟩
  · have same : (sys.spawn context p).2.asked = sys.asked := by
      funext other
      rw [asked, asked, look]
      by_cases new : other = sys.made
      · rw [if_pos new, new, absent]
        rfl
      · rw [if_neg new]
    rw [same]
    exact stands.used
  · intro other task found
    rw [look] at found
    by_cases new : other = sys.made
    · rw [if_pos new] at found
      cases found
      rw [new, nothing]
      exact climbs
    · rw [if_neg new] at found
      exact stands.climbs other task found
  · intro other unborn
    have later : sys.made + 1 ≤ other := unborn
    rw [look, if_neg (by omega)]
    exact stands.unborn other (by omega)

/-- A task that is over gives back a lock that it has kept. -/
theorem Stands.letGo (stands : sys.Stands held) (gone : sys.Over id)
    (granted : sys.shared.locks.isHeldBy lock id = true) :
    (sys.letGo lock id).Stands (update held id ((held id).erase lock)) := by
  have idle := gone.asked
  have has := stands.has granted (by simp [idle])
  refine ⟨stands.used.giveBack idle has, ?_, ?_⟩
  · intro other task found
    by_cases own : other = id
    · subst own
      obtain ⟨value, ended⟩ := gone task found
      rw [ended]
      exact trivial
    · rw [Function.update_of_ne own]
      exact stands.climbs other task found
  · intro other unborn
    have ne : other ≠ id := by
      rintro rfl
      rw [(stands.unborn other unborn).2] at has
      exact Finset.notMem_empty _ has
    rw [Function.update_of_ne ne]
    exact stands.unborn other unborn

theorem Stands.forget (stands : sys.Stands held) (gone : sys.Over id) :
    ({ sys with tasks := sys.tasks.erase id } : System α).Stands held := by
  have look : ∀ other, (sys.tasks.erase id)[other]? = if other = id then none else sys.tasks[other]? := by
    intro other
    simp only [Std.ExtTreeMap.getElem?_erase, Std.LawfulEqCmp.compare_eq_iff_eq, eq_comm (a := id)]
  refine ⟨?_, ?_, ?_⟩
  · have same : ({ sys with tasks := sys.tasks.erase id } : System α).asked = sys.asked := by
      funext other
      by_cases own : other = id
      · rw [own, gone.asked, asked, look, if_pos rfl]
        rfl
      · rw [asked, look, if_neg own, asked]
    rw [same]
    exact stands.used
  · intro other task found
    rw [look] at found
    split at found
    · cases found
    · exact stands.climbs other task found
  · intro other unborn
    rw [look]
    split
    · exact ⟨rfl, (stands.unborn other unborn).2⟩
    · exact stands.unborn other unborn

/-- Tasks whose programs take locks in their order always stand with the locks as they should. -/
theorem Reached.stands {allowed : Program α → Prop} (climbs : ∀ p, allowed p → p.Climbs ∅)
    (reached : sys.Reached allowed) : ∃ held, sys.Stands held := by
  induction reached with
  | start world => exact ⟨_, stands_start world⟩
  | spawn context _ fits before =>
    obtain ⟨held, stands⟩ := before
    exact ⟨held, stands.spawn context (climbs _ fits)⟩
  | step _ found steps before =>
    obtain ⟨held, stands⟩ := before
    exact stands.step found steps
  | letGo _ gone granted before =>
    obtain ⟨held, stands⟩ := before
    exact ⟨_, stands.letGo gone granted⟩
  | forget _ gone before =>
    obtain ⟨held, stands⟩ := before
    exact ⟨held, stands.forget gone⟩
  | drift _ locks before =>
    obtain ⟨held, stands⟩ := before
    exact ⟨held, locks ▸ stands.used, stands.climbs, stands.unborn⟩

end System

end Containment
