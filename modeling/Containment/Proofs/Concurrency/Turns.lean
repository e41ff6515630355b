/-
Module: Containment.Proofs.Concurrency.Turns
Purpose: The turns of a task among others. A turn lasts until the task ends or comes to a lock; there it may stop
  even if the lock is free, so that all ways of taking turns are covered. A program that keeps its word leaves
  everything in order at the end of each turn.
Main exports: Program.Proceeds, Task.Goes, TaskState.Fits, TaskState.Rests, Task.Goes.spec
-/
import Containment.Proofs.Concurrency.Gate
import Containment.Proofs.Concurrency.Guards
import Containment.Schedule

namespace Containment

/-! ### What a task may do in a turn -/

/-- A program goes on until it ends, waits for a lock that it has claimed, or pauses before it claims one. -/
inductive Program.Proceeds {α : Type} (context : Context) (task : Nat) :
    Program α → Shared → TaskState α → Shared → Prop
  | done {value : α} {s : Shared} : Proceeds context task (.done value) s (.finished value) s
  | effect {request : Effect} {next : request.Answer → Program α} {s s' : Shared} {state : TaskState α} :
      Proceeds context task (next (s.ask request).1) (s.ask request).2 state s' →
        Proceeds context task (.effect request next) s state s'
  | check {next : Option Cancellation → Program α} {s s' : Shared} {state : TaskState α} :
      Proceeds context task (next (context.check s.timeline)) s state s' →
        Proceeds context task (.check next) s state s'
  | refused {lock : LockName} {mode : Mode} {next : Option Cancellation → Program α} {s s' : Shared}
      {state : TaskState α} {reason : Cancellation} : context.check s.timeline = some reason →
      Proceeds context task (next (some reason)) (s.reclaim lock) state s' →
        Proceeds context task (.acquire lock mode next) s state s'
  | granted {lock : LockName} {mode : Mode} {next : Option Cancellation → Program α} {s s' : Shared}
      {state : TaskState α} : (s.claim lock mode task).1 = true →
      Proceeds context task (next none) (s.claim lock mode task).2 state s' →
        Proceeds context task (.acquire lock mode next) s state s'
  | waits {lock : LockName} {mode : Mode} {next : Option Cancellation → Program α} {s : Shared} :
      Proceeds context task (.acquire lock mode next) s (.waiting lock next) (s.claim lock mode task).2
  | pauses {lock : LockName} {mode : Mode} {next : Option Cancellation → Program α} {s : Shared} :
      Proceeds context task (.acquire lock mode next) s (.fresh (.acquire lock mode next)) s
  | release {lock : LockName} {next : Unit → Program α} {s s' : Shared} {state : TaskState α} :
      Proceeds context task (next ()) (s.leave lock task) state s' →
        Proceeds context task (.release lock next) s state s'

/-- A turn of a task: one that waits gives up once its context is done, and goes on once it has its lock. -/
inductive Task.Goes {α : Type} (id : Nat) (s : Shared) : Task α → TaskState α → Shared → Prop
  | starts {context : Context} {p : Program α} {state : TaskState α} {s' : Shared} :
      p.Proceeds context id s state s' → Goes id s { context, state := .fresh p } state s'
  | givesUp {context : Context} {lock : LockName} {next : Option Cancellation → Program α} {reason : Cancellation}
      {state : TaskState α} {s' : Shared} : context.check s.timeline = some reason →
      (next (some reason)).Proceeds context id (s.leave lock id) state s' →
        Goes id s { context, state := .waiting lock next } state s'
  | goesOn {context : Context} {lock : LockName} {next : Option Cancellation → Program α} {state : TaskState α}
      {s' : Shared} : s.locks.isHeldBy lock id = true → (next none).Proceeds context id s state s' →
        Goes id s { context, state := .waiting lock next } state s'

/-- The turns that are run are among them. -/
theorem Program.advance_proceeds {α : Type} (context : Context) (task : Nat) (p : Program α) (s : Shared) :
    p.Proceeds context task s (p.advance context task s).1 (p.advance context task s).2 := by
  induction p generalizing s with
  | done value => exact .done
  | effect request next ih => exact .effect (ih _ _)
  | check next ih => exact .check (ih _ s)
  | acquire lock mode next ih =>
    simp only [advance]
    cases status : context.check s.timeline with
    | some reason => exact .refused status (ih _ _)
    | none =>
      by_cases free : (s.claim lock mode task).1 = true
      · simp only [if_pos free]
        exact .granted free (ih _ _)
      · simp only [if_neg free]
        exact .waits
  | release lock next ih => exact .release (ih () _)

theorem Task.resume_goes {α : Type} (task : Task α) (id : Nat) (s : Shared) :
    task.resume id s = (task, s) ∨
      ∃ state s', task.Goes id s state s' ∧ task.resume id s = ({ task with state }, s') := by
  obtain ⟨context, state⟩ := task
  cases state with
  | finished value => exact .inl rfl
  | fresh p => exact .inr ⟨_, _, .starts (p.advance_proceeds context id s), rfl⟩
  | waiting lock next =>
    simp only [Task.resume]
    cases status : context.check s.timeline with
    | some reason =>
      refine .inr ⟨_, _, .givesUp status (Program.advance_proceeds context id (next (some reason)) _), ?_⟩
      rfl
    | none =>
      by_cases free : s.locks.isHeldBy lock id = true
      · refine .inr ⟨_, _, .goesOn free (Program.advance_proceeds context id (next none) s), ?_⟩
        simp only [if_pos free]
      · apply Or.inl
        simp only [if_neg free]

/-! ### Where a task stands with the hierarchy -/

/-- The stance of a task that holds the hierarchy in this way. -/
def Stance.holding : Option Mode → Stance
  | none => .outside
  | some mode => .inside mode

/-- The stance towards the hierarchy of a task that has claimed a lock. -/
def LockName.claimed (lock : LockName) (mode : Mode) (held : Option Mode) : Stance :=
  match lock with
  | .hierarchy => .claiming mode
  | .container _ => .holding held

namespace Shared

variable {s : Shared} {lock : LockName} {held : Option Mode} {task : Nat}

/-- Claiming a lock. Who holds the hierarchy does not claim it again. -/
theorem claim_spec (mode : Mode) (free : lock = .hierarchy → held = none)
    (own : s.locks.hierarchy.Respects task (.holding held)) :
    Gate.Spares task s.locks.hierarchy (s.claim lock mode task).2.locks.hierarchy ∧
      (s.claim lock mode task).2.locks.hierarchy.Respects task (lock.claimed mode held) ∧
      ((s.claim lock mode task).1 = true →
        (s.claim lock mode task).2.locks.hierarchy.Respects task (.holding (lock.entered mode held))) := by
  cases lock with
  | hierarchy =>
    rw [free rfl] at own
    obtain ⟨claiming, inside⟩ := Gate.request_respects own mode
    exact ⟨Gate.spares_request task mode, claiming, inside⟩
  | container id => exact ⟨Gate.spares_refl task _, own, fun _ => own⟩

/-- Giving a lock back. -/
theorem leave_spec (lock : LockName) (own : s.locks.hierarchy.Respects task (.holding held)) :
    Gate.Spares task s.locks.hierarchy (s.leave lock task).locks.hierarchy ∧
      (s.leave lock task).locks.hierarchy.Respects task (.holding (lock.left held)) := by
  cases lock with
  | hierarchy => exact ⟨Gate.spares_leave task, Gate.leave_respects task⟩
  | container id => exact ⟨Gate.spares_refl task _, own⟩

/-- Giving up a claim that may have been granted by now. -/
theorem leave_claimed {mode : Mode} (free : lock = .hierarchy → held = none)
    (own : s.locks.hierarchy.Respects task (lock.claimed mode held)) :
    Gate.Spares task s.locks.hierarchy (s.leave lock task).locks.hierarchy ∧
      (s.leave lock task).locks.hierarchy.Respects task (.holding held) := by
  cases lock with
  | hierarchy =>
    rw [free rfl]
    exact ⟨Gate.spares_leave task, Gate.leave_respects task⟩
  | container id => exact ⟨Gate.spares_refl task _, own⟩

/-- Finding a claim granted. -/
theorem enter_claimed {mode : Mode} (own : s.locks.hierarchy.Respects task (lock.claimed mode held))
    (granted : s.locks.isHeldBy lock task = true) :
    s.locks.hierarchy.Respects task (.holding (lock.entered mode held)) := by
  cases lock with
  | hierarchy => exact Gate.Respects.enter own granted
  | container id => exact own

/-- Dropping the entry of an idle lock. -/
theorem reclaim_spec (lock : LockName) (own : s.locks.hierarchy.Respects task (.holding held)) :
    Gate.Spares task s.locks.hierarchy (s.reclaim lock).locks.hierarchy ∧
      (s.reclaim lock).locks.hierarchy.Respects task (.holding held) := by
  cases lock with
  | hierarchy => exact ⟨Gate.spares_refl task _, own⟩
  | container id => exact ⟨Gate.spares_refl task _, own⟩

end Shared

/-! ### What a task waits with -/

variable {α : Type} {depth : Nat} {post : α → Moment → Prop} {m : Moment} {h h' : Holdings}

/-- The program keeps its word from now on, whatever others do of what the hierarchy as it is held allows. -/
def Program.Ready (depth : Nat) (p : Program α) (held : Option Mode) (h : Holdings)
    (post : α → Moment → Prop) : Prop :=
  ∀ h', h'.Orderly depth → (Moment.resumed held h).Allows h' → p.Guards depth (.resumed held h') post

theorem Program.Ready.later {p : Program α} {held : Option Mode} (ready : p.Ready depth held h post)
    (allowed : (Moment.resumed held h).Allows h') : p.Ready depth held h' post := by
  intro h'' orderly allowed'
  apply ready h'' orderly
  exact fun alone => (allowed' alone).trans (allowed alone)

/-- Coming to a lock, a program may as well stop there. -/
theorem Program.Guards.ready {lock : LockName} {mode : Mode} {next : Option Cancellation → Program α}
    (guards : (Program.acquire lock mode next).Guards depth m post) :
    (Program.acquire lock mode next).Ready depth m.held m.now post := by
  obtain ⟨-, free, rest⟩ := guards
  intro h' orderly allowed
  refine ⟨⟨orderly, rfl⟩, free, fun h'' orderly' allowed' => ?_⟩
  apply rest h'' orderly'
  exact fun alone => (allowed' alone).trans (allowed alone)

/-- A task between two turns: it has the claims that it should have, and its program is ready to go on. -/
def TaskState.Fits (depth : Nat) (post : α → Moment → Prop) (gate : Gate) (id : Nat) (h : Holdings) :
    TaskState α → Prop
  | .fresh p => ∃ held, gate.Respects id (.holding held) ∧ p.Ready depth held h post
  | .waiting lock next => ∃ held mode, gate.Respects id (lock.claimed mode held) ∧
      (Program.acquire lock mode next).Ready depth held h post
  | .finished _ => gate.Respects id .outside

/-- A task at the end of a turn: it has not touched the store and fits, or it has ended as it should. -/
def TaskState.Rests (depth : Nat) (post : α → Moment → Prop) (gate : Gate) (id : Nat) (m : Moment)
    (state : TaskState α) : Prop :=
  match state with
  | .finished value => gate.Respects id (.holding m.held) ∧ post value m
  | .fresh _ | .waiting _ _ => m.Idle depth ∧ state.Fits depth post gate id m.now

/-! ### What a turn does -/

/-- The world holds this, no request to it fails, and nobody has the hierarchy beside one who has it alone. -/
structure Shared.Carries (s : Shared) (h : Holdings) : Prop where
  holds : s.world.Holds h
  clean : s.world.faults = []
  alone : Gate.Alone s.locks.hierarchy.granted

/-- A moment in a turn that began with `h` and `s₀`. While somebody else has the hierarchy alone, the task does not
get it. -/
structure Moment.Amid (id : Nat) (h : Holdings) (s₀ : Shared) (m : Moment) (s : Shared) : Prop where
  start : m.start = h.store
  carries : s.Carries m.now
  spares : Gate.Spares id s₀.locks.hierarchy s.locks.hierarchy
  apart : ∀ other, other ≠ id → s₀.locks.hierarchy.Respects other (.inside .exclusive) → m.guarded = false

namespace Moment

variable {id : Nat} {s₀ s s₁ : Shared}

theorem amid_start (carries : s.Carries h) : (resumed none h).Amid id h s s :=
  ⟨rfl, carries, Gate.spares_refl id _, fun _ _ _ => rfl⟩

/-- Doing something to the locks keeps what the world holds. -/
theorem Amid.carries_locks (amid : m.Amid id h s₀ s) (world : s₁.world = s.world)
    (spares : Gate.Spares id s.locks.hierarchy s₁.locks.hierarchy) : s₁.Carries m.now := by
  obtain ⟨holds, clean, alone⟩ := amid.carries
  rw [← world] at holds clean
  exact ⟨holds, clean, spares.alone alone⟩

/-- Before anything is done to the store, the turn might as well have begun here. -/
theorem Amid.resume {held : Option Mode} (amid : m.Amid id h s₀ s) (untouched : m.now.store = m.start)
    (world : s₁.world = s.world) (spares : Gate.Spares id s.locks.hierarchy s₁.locks.hierarchy)
    (own : s₁.locks.hierarchy.Respects id (.holding held)) : (resumed held m.now).Amid id h s₀ s₁ := by
  have carries := amid.carries_locks world spares
  refine ⟨untouched.trans amid.start, carries, amid.spares.trans spares, fun other ne inside => ?_⟩
  have beside := spares.others other _ ne (amid.spares.others other _ ne inside)
  cases held with
  | none => rfl
  | some mode => exact absurd own (carries.alone.excludes beside (Ne.symm ne))

/-- Giving a lock back in the middle of a turn. -/
theorem Amid.release {lock : LockName} (amid : m.Amid id h s₀ s)
    (spares : Gate.Spares id s.locks.hierarchy (s.leave lock id).locks.hierarchy) :
    ({ m with held := lock.left m.held } : Moment).Amid id h s₀ (s.leave lock id) :=
  ⟨amid.start, amid.carries_locks rfl spares, amid.spares.trans spares, amid.apart⟩

/-- Asking the world in the middle of a turn. -/
theorem Amid.ask (amid : m.Amid id h s₀ s) (request : Effect) :
    ∃ h₁, m.now.Answers request [] (s.ask request).1 h₁ ∧
      ({ m with now := h₁ } : Moment).Amid id h s₀ (s.ask request).2 := by
  obtain ⟨holds, clean, alone⟩ := amid.carries
  obtain ⟨h₁, answers, holds₁⟩ := holds.answers request
  obtain ⟨quiet, clean₁⟩ := World.failing_eq_nil clean request
  rw [quiet] at answers
  exact ⟨h₁, answers, amid.start, ⟨holds₁, clean₁, alone⟩, amid.spares, amid.apart⟩

end Moment

/-- A program that keeps its word leaves all as it should be at the end of a turn. -/
theorem Program.Proceeds.spec {context : Context} {id : Nat} {p : Program α} {s₀ s s' : Shared}
    {state : TaskState α} (goes : p.Proceeds context id s state s') (guards : p.Guards depth m post)
    (amid : m.Amid id h s₀ s)
    (own : s.locks.hierarchy.Respects id (.holding m.held)) :
    ∃ m', m'.Amid id h s₀ s' ∧ state.Rests depth post s'.locks.hierarchy id m' := by
  induction goes generalizing m with
  | done => exact ⟨m, amid, own, guards⟩
  | @effect request next s s' state _ ih =>
    obtain ⟨h₁, answers, amid₁⟩ := amid.ask request
    exact ih (guards _ h₁ answers) amid₁ own
  | check _ ih => exact ih (guards _) amid own
  | @refused lock mode next s s' state reason _ _ ih =>
    obtain ⟨idle, -, rest⟩ := guards
    obtain ⟨canceled, -⟩ := rest m.now idle.orderly fun _ => rfl
    obtain ⟨spares, still⟩ := Shared.reclaim_spec lock own
    exact ih (canceled reason) (amid.resume idle.untouched rfl spares still) still
  | @granted lock mode next s s' state free _ ih =>
    obtain ⟨idle, unheld, rest⟩ := guards
    obtain ⟨-, entered⟩ := rest m.now idle.orderly fun _ => rfl
    obtain ⟨spares, -, inside⟩ := Shared.claim_spec mode unheld own
    exact ih entered (amid.resume idle.untouched rfl spares (inside free)) (inside free)
  | @waits lock mode next s =>
    obtain ⟨spares, claimed, -⟩ := Shared.claim_spec mode guards.2.1 own
    refine ⟨m, ⟨amid.start, amid.carries_locks rfl spares, amid.spares.trans spares, amid.apart⟩, guards.1, ?_⟩
    exact ⟨m.held, mode, claimed, guards.ready⟩
  | pauses => exact ⟨m, amid, guards.1, m.held, own, guards.ready⟩
  | @release lock next s s' state _ ih =>
    obtain ⟨spares, left⟩ := Shared.leave_spec lock own
    exact ih guards (amid.release spares) left

/-- One turn of a task that fits. -/
theorem Task.Goes.spec {id : Nat} {s s' : Shared} {task : Task α} {state : TaskState α}
    (goes : task.Goes id s state s') (fits : task.state.Fits depth post s.locks.hierarchy id h)
    (orderly : h.Orderly depth) (carries : s.Carries h) :
    ∃ m, m.Amid id h s s' ∧ state.Rests depth post s'.locks.hierarchy id m := by
  have start : (Moment.resumed none h).Amid id h s s := Moment.amid_start carries
  cases goes with
  | starts proceeds =>
    obtain ⟨held, own, ready⟩ := fits
    apply proceeds.spec (ready h orderly fun _ => rfl) _ own
    exact start.resume rfl rfl (Gate.spares_refl id _) own
  | givesUp _ proceeds =>
    obtain ⟨held, mode, own, ready⟩ := fits
    obtain ⟨-, free, rest⟩ := ready h orderly fun _ => rfl
    obtain ⟨canceled, -⟩ := rest h orderly fun _ => rfl
    obtain ⟨spares, left⟩ := Shared.leave_claimed free own
    exact proceeds.spec (canceled _) (start.resume rfl rfl spares left) left
  | goesOn granted proceeds =>
    obtain ⟨held, mode, own, ready⟩ := fits
    obtain ⟨-, free, rest⟩ := ready h orderly fun _ => rfl
    obtain ⟨-, entered⟩ := rest h orderly fun _ => rfl
    have inside := Shared.enter_claimed own granted
    apply proceeds.spec entered _ inside
    exact start.resume rfl rfl (Gate.spares_refl id _) inside

end Containment
