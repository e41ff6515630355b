/-
Module: Containment.Proofs.Concurrency.Course
Purpose: Operations side by side while contexts end and requests fail at any time, and a record of what each turn
  asked for and how it ended. The running system goes through such courses only.
Main exports: Deed, Holdings.Undergoes, Context.DoneBetween, Shared.Drifts, Program.Travels, Task.Takes, Turn, Order,
  Course, System.Tells, Course.settle, Course.advance, Course.cancel
-/
import Containment.Proofs.Concurrency.Steps
import Containment.Proofs.Looking
import Mathlib.Algebra.GroupWithZero.Nat

namespace Containment

/-! ### What was asked -/

/-- A request that was made and its answer. The list names the request if a planted fault hit it. -/
structure Deed where
  request : Effect
  answer : request.Answer
  fails : List FaultPoint

/-- One if the request was answered with an error, whether a fault was planted or not. An index that has a partition
already says so, which is no failure. -/
def Effect.refusals : (request : Effect) → request.Answer → Nat
  | .index (.createPartition _), .error (.partitionExists _) => 0
  | .store _, .error _ | .index _, .error _ => 1
  | .store _, .ok _ | .index _, .ok _ | .readClock, _ | .drawId, _ | .publish _, _ => 0

/-- A request that only looks. -/
def Deed.IsQuestion (deed : Deed) : Prop :=
  deed.request.IsQuestion

/-- What is held before and after some requests. -/
def Holdings.Undergoes (h : Holdings) : List Deed → Holdings → Prop
  | [], h' => h' = h
  | deed :: rest, h' => ∃ h₁, h.Answers deed.request deed.fails deed.answer h₁ ∧ h₁.Undergoes rest h'

/-- Questions leave everything as it is. -/
theorem Holdings.Undergoes.eq_of_questions {h h' : Holdings} {deeds : List Deed} (undergoes : h.Undergoes deeds h')
    (questions : ∀ deed ∈ deeds, deed.IsQuestion) : h' = h := by
  induction deeds generalizing h with
  | nil => exact undergoes
  | cons deed rest ih =>
    obtain ⟨h₁, answers, undergoes⟩ := undergoes
    obtain ⟨same, -⟩ := Effect.answers_question (questions deed List.mem_cons_self) answers
    subst same
    exact ih undergoes fun other mem => questions other (List.mem_cons_of_mem deed mem)

/-! ### What time brings -/

/-- Time goes on, and what is cancelled stays cancelled. -/
structure Timeline.Passes (tl tl' : Timeline) : Prop where
  now : tl.now ≤ tl'.now
  cancelled : ∀ token ∈ tl.cancelled, token ∈ tl'.cancelled

theorem Timeline.Passes.refl (tl : Timeline) : tl.Passes tl :=
  ⟨Nat.le_refl _, fun _ => id⟩

theorem Timeline.Passes.trans {tl tl₁ tl' : Timeline} (first : tl.Passes tl₁) (second : tl₁.Passes tl') :
    tl.Passes tl' :=
  ⟨first.now.trans second.now, fun token mem => second.cancelled token (first.cancelled token mem)⟩

/-- A context that is done stays done. -/
theorem Context.check_of_passes {ctx : Context} {tl tl' : Timeline} {reason : Cancellation}
    (ended : ctx.check tl = some reason) (passes : tl.Passes tl') : ∃ reason', ctx.check tl' = some reason' := by
  by_cases canceled : tl'.isCancelled ctx.token = true
  · exact ⟨_, Context.check_of_isCancelled canceled⟩
  have before : ¬ tl.isCancelled ctx.token = true := by
    intro above
    obtain ⟨token, mem, leads⟩ := List.any_eq_true.1 above
    exact canceled (List.any_eq_true.2 ⟨token, passes.cancelled token mem, leads⟩)
  rw [check, if_neg before] at ended
  rw [check, if_neg canceled]
  cases limit : ctx.deadline with
  | none =>
    rw [isExpired, limit] at ended
    cases ended
  | some deadline =>
    have expired : deadline ≤ tl.now := by
      by_contra late
      rw [isExpired, limit, Option.any_some, if_neg (by simpa using late)] at ended
      cases ended
    have still : deadline ≤ tl'.now := expired.trans passes.now
    rw [isExpired, limit, Option.any_some, if_pos (by simpa using still)]
    exact ⟨_, rfl⟩

/-- At some time between the two the context was done, for this reason. -/
def Context.DoneBetween (context : Context) (tl tl' : Timeline) (reason : Cancellation) : Prop :=
  ∃ now, tl.Passes now ∧ now.Passes tl' ∧ context.check now = some reason

/-- A context that was done once is done in the end. -/
theorem Context.DoneBetween.done {context : Context} {tl tl' : Timeline} {reason : Cancellation}
    (ended : context.DoneBetween tl tl' reason) : ∃ reason', context.check tl' = some reason' := by
  obtain ⟨now, -, passes, status⟩ := ended
  exact check_of_passes status passes

/-- What may happen around a task at any time: contexts end, faults are planted or taken back, the clock runs,
reports are delivered. Locks, store and index stay as they are. -/
structure Shared.Drifts (s s' : Shared) : Prop where
  locks : s'.locks = s.locks
  store : s'.world.store = s.world.store
  index : s'.world.index = s.world.index
  passes : s.timeline.Passes s'.timeline

theorem Shared.Drifts.holds {s s' : Shared} {h : Holdings} (drifts : s.Drifts s') (holds : s.world.Holds h) :
    s'.world.Holds h :=
  ⟨drifts.store.trans holds.store, drifts.index.trans holds.index⟩

/-! ### What a task does in a turn -/

/-- A program goes on until it ends, waits for a lock that it has claimed, or pauses before it claims one. The list
names its requests in their order. -/
inductive Program.Travels {α : Type} (context : Context) (task : Nat) :
    Program α → Shared → List Deed → TaskState α → Shared → Prop
  | done {value : α} {s : Shared} : Travels context task (.done value) s [] (.finished value) s
  | effect {request : Effect} {next : request.Answer → Program α} {s s' : Shared} {deeds : List Deed}
      {state : TaskState α} :
      Travels context task (next (s.ask request).1) (s.ask request).2 deeds state s' →
        Travels context task (.effect request next) s
          ({ request, answer := (s.ask request).1, fails := s.world.failing request } :: deeds) state s'
  | check {next : Option Cancellation → Program α} {s s' : Shared} {deeds : List Deed} {state : TaskState α} :
      Travels context task (next (context.check s.timeline)) s deeds state s' →
        Travels context task (.check next) s deeds state s'
  | refused {lock : LockName} {mode : Mode} {next : Option Cancellation → Program α} {s s' : Shared}
      {deeds : List Deed} {state : TaskState α} {reason : Cancellation} : context.check s.timeline = some reason →
      Travels context task (next (some reason)) (s.reclaim lock) deeds state s' →
        Travels context task (.acquire lock mode next) s deeds state s'
  | granted {lock : LockName} {mode : Mode} {next : Option Cancellation → Program α} {s s' : Shared}
      {deeds : List Deed} {state : TaskState α} : context.check s.timeline = none →
      (s.claim lock mode task).1 = true →
      Travels context task (next none) (s.claim lock mode task).2 deeds state s' →
        Travels context task (.acquire lock mode next) s deeds state s'
  | waits {lock : LockName} {mode : Mode} {next : Option Cancellation → Program α} {s : Shared} :
      context.check s.timeline = none →
        Travels context task (.acquire lock mode next) s [] (.waiting lock next) (s.claim lock mode task).2
  | pauses {lock : LockName} {mode : Mode} {next : Option Cancellation → Program α} {s : Shared} :
      Travels context task (.acquire lock mode next) s [] (.fresh (.acquire lock mode next)) s
  | release {lock : LockName} {next : Unit → Program α} {s s' : Shared} {deeds : List Deed} {state : TaskState α} :
      Travels context task (next ()) (s.leave lock task) deeds state s' →
        Travels context task (.release lock next) s deeds state s'
  | drift {p : Program α} {s s₁ s' : Shared} {deeds : List Deed} {state : TaskState α} : s.Drifts s₁ →
      Travels context task p s₁ deeds state s' → Travels context task p s deeds state s'

/-- A turn of a task: one that waits gives up if its context is done, and goes on if it has its lock by then. -/
inductive Task.Takes {α : Type} (id : Nat) (s : Shared) : Task α → List Deed → TaskState α → Shared → Prop
  | starts {context : Context} {p : Program α} {deeds : List Deed} {state : TaskState α} {s' : Shared} :
      p.Travels context id s deeds state s' → Takes id s { context, state := .fresh p } deeds state s'
  | givesUp {context : Context} {lock : LockName} {next : Option Cancellation → Program α} {reason : Cancellation}
      {deeds : List Deed} {state : TaskState α} {s' : Shared} : context.check s.timeline = some reason →
      (next (some reason)).Travels context id (s.leave lock id) deeds state s' →
        Takes id s { context, state := .waiting lock next } deeds state s'
  | goesOn {context : Context} {lock : LockName} {next : Option Cancellation → Program α} {deeds : List Deed}
      {state : TaskState α} {s' : Shared} : context.check s.timeline = none → s.locks.isHeldBy lock id = true →
      (next none).Travels context id s deeds state s' →
        Takes id s { context, state := .waiting lock next } deeds state s'

section

variable {α : Type} {context : Context} {id : Nat} {s s' : Shared} {deeds : List Deed} {state : TaskState α}
  {h : Holdings}

theorem Shared.holds_ask (holds : s.world.Holds h) (request : Effect) :
    ∃ h₁, h.Answers request (s.world.failing request) (s.ask request).1 h₁ ∧ (s.ask request).2.world.Holds h₁ :=
  holds.answers request

theorem Program.Travels.passes {p : Program α} (travels : p.Travels context id s deeds state s') :
    s.timeline.Passes s'.timeline := by
  induction travels with
  | done | waits | pauses => exact .refl _
  | effect _ ih => exact ih
  | check _ ih => exact ih
  | refused _ _ ih => exact ih
  | granted _ _ _ ih => exact ih
  | release _ ih => exact ih
  | drift drifts _ ih => exact drifts.passes.trans ih

theorem Task.Takes.passes {task : Task α} (takes : task.Takes id s deeds state s') :
    s.timeline.Passes s'.timeline := by
  cases takes with
  | starts travels => exact travels.passes
  | givesUp _ travels => exact travels.passes
  | goesOn _ _ travels => exact travels.passes

end

/-- The turns that are run are among them. -/
theorem Program.advance_travels {α : Type} (context : Context) (task : Nat) (p : Program α) (s : Shared) :
    ∃ deeds, p.Travels context task s deeds (p.advance context task s).1 (p.advance context task s).2 := by
  induction p generalizing s with
  | done value => exact ⟨[], .done⟩
  | effect request next ih =>
    obtain ⟨deeds, travels⟩ := ih (s.ask request).1 (s.ask request).2
    exact ⟨_, .effect travels⟩
  | check next ih =>
    obtain ⟨deeds, travels⟩ := ih (context.check s.timeline) s
    exact ⟨deeds, .check travels⟩
  | acquire lock mode next ih =>
    simp only [advance]
    cases status : context.check s.timeline with
    | some reason =>
      obtain ⟨deeds, travels⟩ := ih (some reason) (s.reclaim lock)
      exact ⟨deeds, .refused status travels⟩
    | none =>
      by_cases free : (s.claim lock mode task).1 = true
      · obtain ⟨deeds, travels⟩ := ih none (s.claim lock mode task).2
        simp only [if_pos free]
        exact ⟨deeds, .granted status free travels⟩
      · simp only [if_neg free]
        exact ⟨[], .waits status⟩
  | release lock next ih =>
    obtain ⟨deeds, travels⟩ := ih () (s.leave lock task)
    exact ⟨deeds, .release travels⟩

theorem Task.resume_takes {α : Type} (task : Task α) (id : Nat) (s : Shared) :
    task.resume id s = (task, s) ∨
      ∃ deeds state s', task.Takes id s deeds state s' ∧ task.resume id s = ({ task with state }, s') := by
  obtain ⟨context, state⟩ := task
  cases state with
  | finished value => exact .inl rfl
  | fresh p =>
    obtain ⟨deeds, travels⟩ := p.advance_travels context id s
    exact .inr ⟨deeds, _, _, .starts travels, rfl⟩
  | waiting lock next =>
    simp only [Task.resume]
    cases status : context.check s.timeline with
    | some reason =>
      obtain ⟨deeds, travels⟩ := (next (some reason)).advance_travels context id (s.leave lock id)
      exact .inr ⟨deeds, _, _, .givesUp status travels, rfl⟩
    | none =>
      by_cases free : s.locks.isHeldBy lock id = true
      · obtain ⟨deeds, travels⟩ := (next none).advance_travels context id s
        refine .inr ⟨deeds, _, _, .goesOn status free travels, ?_⟩
        simp only [if_pos free]
      · apply Or.inl
        simp only [if_neg free]

/-! ### Courses -/

/-- A call that was made, its context, and the time when it was made. -/
structure Order where
  call : Call
  context : Context
  entry : Timeline

/-- What is noted of a turn: whose it was, its requests, the world around it, the time when it began and ended, and the
outcome if the task ended. -/
structure Turn where
  task : Nat
  deeds : List Deed
  before : World
  after : World
  began : Timeline
  ended : Timeline
  outcome? : Option Outcome

namespace Turn

/-- The requests that planted faults hit. -/
def fails (turn : Turn) : List FaultPoint :=
  turn.deeds.flatMap Deed.fails

/-- How many requests were refused. -/
def refusals (turn : Turn) : Nat :=
  (turn.deeds.map fun deed => deed.request.refusals deed.answer).sum

/-- The turn asked questions only. -/
def IsIdle (turn : Turn) : Prop :=
  ∀ deed ∈ turn.deeds, deed.IsQuestion

end Turn

/-- The outcome of a task that has ended. -/
def TaskState.outcome? : TaskState Outcome → Option Outcome
  | .finished outcome => some outcome
  | .fresh _ | .waiting _ _ => none

/-- What is noted of a turn of a task that leads from `s` to `s'`. -/
def Turn.noted (id : Nat) (s : Shared) (deeds : List Deed) (state : TaskState Outcome) (s' : Shared) : Turn where
  task := id
  deeds
  before := s.world
  after := s'.world
  began := s.timeline
  ended := s'.timeline
  outcome? := state.outcome?

/-- Whether a call has ended with a certain error. -/
instance (outcome? : Option Outcome) (e : RepositoryError) : Decidable (outcome? = some (.error e)) :=
  match outcome? with
  | none | some (.ok _) => isFalse nofun
  | some (.error e') => decidable_of_iff (e' = e) ⟨fun same => same ▸ rfl, fun same => by cases same; rfl⟩

/-- All ways in which calls can proceed that started on an empty repository in memory. Any call may be made at any
time, in any context; any task may take a turn at any time; and all but the store, the index and the locks may
change at any time, within turns as between them. `orders` names the call of each task, and the log lists the turns. -/
inductive Course (settings : Settings) : System Outcome → (Nat → Option Order) → List Turn → Prop
  | start {world : World} : world.Holds {} → Course settings { shared := { world } } (fun _ => none) []
  | spawn {sys : System Outcome} {orders : Nat → Option Order} {log : List Turn} (context : Context)
      (call : Call) : Course settings sys orders log →
        Course settings (sys.spawn context (call.program settings)).2
          (Function.update orders sys.made (some { call, context, entry := sys.shared.timeline })) log
  | turn {sys : System Outcome} {orders : Nat → Option Order} {log : List Turn} {id : Nat} {task : Task Outcome}
      {deeds : List Deed} {state : TaskState Outcome} {shared : Shared} :
      Course settings sys orders log → sys.tasks[id]? = some task → task.Takes id sys.shared deeds state shared →
        Course settings (sys.turned id task state shared) orders (log ++ [.noted id sys.shared deeds state shared])
  | drift {sys : System Outcome} {orders : Nat → Option Order} {log : List Turn} {shared : Shared} :
      Course settings sys orders log → sys.shared.Drifts shared → Course settings { sys with shared } orders log

/-! ### What holds of all tasks -/

/-- What holds of each task together with what is known of it, and of each number that no task has yet. -/
structure System.Tells {α : Type} (sys : System Outcome) (known : Nat → Option α)
    (tells : Nat → α → Task Outcome → Prop) (nobody : Nat → Prop) : Prop where
  tasks : ∀ id task, sys.tasks[id]? = some task → ∃ k, known id = some k ∧ tells id k task
  unborn : ∀ id, sys.made ≤ id → sys.tasks[id]? = none ∧ known id = none ∧ nobody id

namespace System.Tells

variable {α : Type} {sys : System Outcome} {known : Nat → Option α} {P P' : Nat → α → Task Outcome → Prop}
  {Q Q' : Nat → Prop}

theorem start {shared : Shared} (nobody : ∀ id, Q id) : Tells { shared } (fun _ => none) P Q := by
  have absent : ∀ id : Nat, (∅ : Std.ExtTreeMap Nat (Task Outcome))[id]? = none :=
    fun _ => Std.ExtTreeMap.getElem?_empty
  refine ⟨fun id task found => ?_, fun id _ => ⟨absent id, rfl, nobody id⟩⟩
  rw [absent id] at found
  cases found

theorem known_lt (tells : sys.Tells known P Q) {id : Nat} {k : α} (there : known id = some k) : id < sys.made := by
  by_contra later
  obtain ⟨-, unknown, -⟩ := tells.unborn id (Nat.le_of_not_lt later)
  rw [unknown] at there
  cases there

theorem spawn (tells : sys.Tells known P Q) (context : Context) (program : Program Outcome) (k : α)
    (born : Q sys.made → P sys.made k { context, state := .fresh program }) :
    (sys.spawn context program).2.Tells (Function.update known sys.made (some k)) P Q := by
  constructor
  · intro id task found
    have looked : (sys.tasks.insert sys.made _)[id]? = some task := found
    rw [System.getElem?_insert] at looked
    by_cases new : id = sys.made
    · rw [if_pos new] at looked
      cases looked
      subst new
      exact ⟨k, Function.update_self .., born (tells.unborn sys.made le_rfl).2.2⟩
    · rw [if_neg new] at looked
      rw [Function.update_of_ne new]
      exact tells.tasks id task looked
  · intro id later
    obtain ⟨absent, unknown, nobody⟩ := tells.unborn id (Nat.le_of_succ_le later)
    have ne : id ≠ sys.made := Nat.ne_of_gt later
    refine ⟨?_, by rw [Function.update_of_ne ne, unknown], nobody⟩
    change (sys.tasks.insert sys.made _)[id]? = none
    rw [System.getElem?_insert, if_neg ne]
    exact absent

/-- A turn has to be looked at for the task whose turn it is, and for the others. -/
theorem turned (tells : sys.Tells known P Q) {id : Nat} {task : Task Outcome} (found : sys.tasks[id]? = some task)
    {state : TaskState Outcome} {shared : Shared}
    (own : ∀ k, known id = some k → P id k task → P' id k { task with state })
    (others : ∀ other k t, other ≠ id → P other k t → P' other k t) (rest : ∀ other, other ≠ id → Q other → Q' other) :
    (sys.turned id task state shared).Tells known P' Q' := by
  constructor
  · intro other t there
    have looked : (sys.tasks.insert id { task with state })[other]? = some t := there
    rw [System.getElem?_insert] at looked
    by_cases same : other = id
    · rw [if_pos same] at looked
      cases looked
      subst same
      obtain ⟨k, there, holds⟩ := tells.tasks other task found
      exact ⟨k, there, own k there holds⟩
    · rw [if_neg same] at looked
      obtain ⟨k, there, holds⟩ := tells.tasks other t looked
      exact ⟨k, there, others other k t same holds⟩
  · intro other later
    obtain ⟨absent, unknown, nobody⟩ := tells.unborn other later
    have ne : other ≠ id := by
      rintro rfl
      rw [absent] at found
      cases found
    refine ⟨?_, unknown, rest other ne nobody⟩
    change (sys.tasks.insert id { task with state })[other]? = none
    rw [System.getElem?_insert, if_neg ne]
    exact absent

end System.Tells

/-! ### The running system -/

namespace Course

variable {settings : Settings} {sys : System Outcome} {orders : Nat → Option Order} {log : List Turn}

theorem step? {sys' : System Outcome} (course : Course settings sys orders log) (stepped : sys.step? = some sys') :
    ∃ more, Course settings sys' orders (log ++ more) := by
  unfold System.step? at stepped
  cases queue : sys.shared.queue with
  | nil =>
    rw [queue] at stepped
    cases stepped
  | cons id rest =>
    rw [queue] at stepped
    have drifted : Course settings { sys with shared := { sys.shared with queue := rest } } orders log :=
      course.drift ⟨rfl, rfl, rfl, .refl _⟩
    cases found : sys.tasks[id]? with
    | none =>
      simp only [found] at stepped
      cases stepped
      exact ⟨[], (List.append_nil log).symm ▸ drifted⟩
    | some task =>
      simp only [found] at stepped
      cases stepped
      rcases task.resume_takes id { sys.shared with queue := rest } with same | ⟨deeds, state, shared, takes, same⟩
      · -- The task has to go on waiting, or it has ended before.
        rw [same]
        rw [← System.turned_self found] at drifted
        exact ⟨[], (List.append_nil log).symm ▸ drifted⟩
      · rw [same]
        exact ⟨_, drifted.turn found takes⟩

theorem settleWithin (turns : Nat) (course : Course settings sys orders log) :
    ∃ more, Course settings (sys.settleWithin turns) orders (log ++ more) := by
  induction turns generalizing sys log with
  | zero => exact ⟨[], (List.append_nil log).symm ▸ course⟩
  | succ turns ih =>
    simp only [System.settleWithin]
    cases stepped : sys.step? with
    | none => exact ⟨[], (List.append_nil log).symm ▸ course⟩
    | some sys' =>
      obtain ⟨first, course'⟩ := course.step? stepped
      obtain ⟨second, settled⟩ := ih course'
      exact ⟨first ++ second, List.append_assoc log first second ▸ settled⟩

theorem settle (course : Course settings sys orders log) :
    ∃ more, Course settings sys.settle orders (log ++ more) :=
  course.settleWithin System.settleTurns

theorem advance (ms : Nat) (course : Course settings sys orders log) :
    ∃ more, Course settings (sys.advance ms) orders (log ++ more) := by
  have drifted : Course settings (sys.withTimeline (sys.shared.timeline.advance ms)).wakeExpired orders log :=
    course.drift ⟨rfl, rfl, rfl, Nat.le_add_right _ _, fun _ => id⟩
  exact drifted.settle

theorem cancel (token : Token) (course : Course settings sys orders log) :
    ∃ more, Course settings (sys.cancel token) orders (log ++ more) := by
  have drifted : Course settings ((sys.withTimeline (sys.shared.timeline.cancel token)).wake fun task =>
      token.isPrefixOf task.context.token) orders log :=
    course.drift ⟨rfl, rfl, rfl, Nat.le_refl _, fun _ => List.mem_cons_of_mem token⟩
  exact drifted.settle

end Course

end Containment
