/-
Module: Containment.Proofs.Concurrency.Cancellation
Purpose: Cancellation leaves no partial state. Contexts may end at any moment, also within a turn: an operation that
  says it was stopped has made no other requests than questions and has no lock left, and one that has written
  anything ends in the same turn, not stopped, with its whole effect or its writes taken back.
Main exports: Locks.Confines, TaskState.Confined, TaskState.Ponders, Program.Travels.ponders, Program.Travels.stopped,
  Turn.Heeds, System.Heeds, Course.heeds, Course.cancellation_leaves_nothing
-/
import Containment.Proofs.Concurrency.Chronicle
import Containment.Proofs.Concurrency.LockOrder
import Containment.Proofs.Concurrency.Standing
import Containment.Proofs.Repository.Deciding

namespace Containment

open Containment.Action

/-! ### Which locks a task has to do with -/

/-- Of all locks but these, a task is outside. -/
def Locks.Confines (locks : Locks) (held : Finset LockName) (id : Nat) : Prop :=
  ∀ lock, lock ∉ held → (locks.gate lock).Respects id .outside

namespace Locks

variable {locks locks' : Locks} {held : Finset LockName} {id other : Nat} {lock : LockName}

theorem Confines.request {claim : Claim} (confines : locks.Confines held id) :
    (locks.request lock claim).2.Confines (insert lock held) id := by
  intro l outside
  obtain ⟨apart, free⟩ := not_or.1 (fun among => outside (Finset.mem_insert.2 among))
  rw [gate_request, if_neg apart]
  exact confines l free

theorem Confines.leave (confines : locks.Confines held id) :
    (locks.leave lock id).2.Confines (held.erase lock) id := by
  intro l outside
  rw [gate_leave]
  by_cases own : l = lock
  · rw [if_pos own]
    exact Gate.leave_respects id
  · rw [if_neg own]
    exact confines l fun mem => outside (Finset.mem_erase.2 ⟨own, mem⟩)

theorem Confines.reclaim (confines : locks.Confines held id) : (locks.reclaim lock).Confines held id := by
  intro l outside
  rw [gate_reclaim]
  exact confines l outside

/-- What another task does with the locks, this one stays where it is outside. -/
def Skirts (id : Nat) (locks locks' : Locks) : Prop :=
  ∀ other, other ≠ id → ∀ held, locks.Confines held other → locks'.Confines held other

theorem Skirts.refl (id : Nat) (locks : Locks) : Skirts id locks locks :=
  fun _ _ _ confines => confines

theorem Skirts.trans {locks₁ : Locks} (first : Skirts id locks locks₁) (second : Skirts id locks₁ locks') :
    Skirts id locks locks' :=
  fun other ne held confines => second other ne held (first other ne held confines)

theorem skirts_reclaim : Skirts id locks (locks.reclaim lock) :=
  fun _ _ _ confines => confines.reclaim

theorem skirts_request (mode : Mode) : Skirts id locks (locks.request lock { holder := id, mode }).2 := by
  intro other ne held confines l outside
  rw [gate_request]
  split
  · rename_i same
    subst same
    exact (confines l outside).request (Ne.symm ne)
  · exact confines l outside

theorem skirts_leave : Skirts id locks (locks.leave lock id).2 := by
  intro other ne held confines l outside
  rw [gate_leave]
  split
  · rename_i same
    subst same
    exact (confines l outside).leave (Ne.symm ne)
  · exact confines l outside

end Locks

/-- A task has to do with no other locks than those that it has and the one it waits for; with these it takes locks in
their order, and it ends without any. -/
def TaskState.Confined (locks : Locks) (id : Nat) : TaskState Outcome → Prop
  | .fresh p => ∃ held, locks.Confines held id ∧ p.Ascends held fun _ left => left = ∅
  | .waiting lock next => ∃ held mode, locks.Confines (insert lock held) id ∧
      (Program.acquire lock mode next).Ascends held fun _ left => left = ∅
  | .finished _ => locks.Confines ∅ id

theorem TaskState.Confined.other {locks locks' : Locks} {id other : Nat} {state : TaskState Outcome}
    (confined : state.Confined locks other) (skirts : Locks.Skirts id locks locks') (ne : other ≠ id) :
    state.Confined locks' other := by
  cases state with
  | fresh p =>
    obtain ⟨held, confines, ascends⟩ := confined
    exact ⟨held, skirts other ne held confines, ascends⟩
  | waiting lock next =>
    obtain ⟨held, mode, confines, ascends⟩ := confined
    exact ⟨held, mode, skirts other ne _ confines, ascends⟩
  | finished value => exact skirts other ne ∅ confined

/-- A program that takes locks in their order has to do with no others at the end of a turn, and with none when it has
ended. -/
theorem Program.Travels.confined {context : Context} {id : Nat} {p : Program Outcome} {s s' : Shared}
    {deeds : List Deed} {state : TaskState Outcome} {held : Finset LockName}
    (travels : p.Travels context id s deeds state s') (ascends : p.Ascends held fun _ left => left = ∅)
    (confines : s.locks.Confines held id) :
    state.Confined s'.locks id ∧ Locks.Skirts id s.locks s'.locks := by
  induction travels generalizing held with
  | done =>
    rw [show held = ∅ from ascends] at confines
    exact ⟨confines, .refl id _⟩
  | effect _ ih => exact ih (ascends _) confines
  | check _ ih => exact ih (ascends _) confines
  | refused _ _ ih =>
    obtain ⟨confined, skirts⟩ := ih (ascends.2.1 _) confines.reclaim
    exact ⟨confined, Locks.skirts_reclaim.trans skirts⟩
  | granted _ _ _ ih =>
    obtain ⟨confined, skirts⟩ := ih ascends.2.2 confines.request
    exact ⟨confined, (Locks.skirts_request _).trans skirts⟩
  | @waits lock mode next s => exact ⟨⟨held, mode, confines.request, ascends⟩, Locks.skirts_request mode⟩
  | pauses => exact ⟨⟨held, confines, ascends⟩, .refl id _⟩
  | release _ ih =>
    obtain ⟨confined, skirts⟩ := ih ascends.2 confines.leave
    exact ⟨confined, Locks.skirts_leave.trans skirts⟩
  | drift drifts _ ih =>
    rw [← drifts.locks] at confines ⊢
    exact ih ascends confines

theorem Task.Takes.confined {id : Nat} {s s' : Shared} {task : Task Outcome} {deeds : List Deed}
    {state : TaskState Outcome} (takes : task.Takes id s deeds state s') (confined : task.state.Confined s.locks id) :
    state.Confined s'.locks id ∧ Locks.Skirts id s.locks s'.locks := by
  cases takes with
  | starts travels =>
    obtain ⟨held, confines, ascends⟩ := confined
    exact travels.confined ascends confines
  | @givesUp _ lock _ _ _ _ _ _ travels =>
    obtain ⟨held, mode, confines, ascends⟩ := confined
    have left : (s.leave lock id).locks.Confines held id := by
      have gone : (s.leave lock id).locks.Confines ((insert lock held).erase lock) id := confines.leave
      rw [Finset.erase_insert (System.notMem_of_above ascends.1)] at gone
      exact gone
    obtain ⟨confined, skirts⟩ := travels.confined (ascends.2.1 _) left
    exact ⟨confined, Locks.skirts_leave.trans skirts⟩
  | goesOn _ _ travels =>
    obtain ⟨held, mode, confines, ascends⟩ := confined
    exact travels.confined ascends.2.2 confines

/-! ### Where a call stands that may be stopped -/

/-- A program that has not written yet: it decides once, and not before its context was found live. -/
def Order.Ponders (order : Order) (p : Program Outcome) : Prop :=
  ∃ clear, (clear = true → order.context.check order.entry = none) ∧
    p.Decides (fun _ => True) clear Uncanceled Uncanceled Canceled

/-- A task that has not written yet, if it has not ended. -/
def TaskState.Ponders (order : Order) : TaskState Outcome → Prop
  | .fresh p => order.Ponders p
  | .waiting lock next => ∃ mode, order.Ponders (.acquire lock mode next)
  | .finished _ => True

/-- The end of a call that has written: it has not been stopped, and its context was live when it was called. -/
structure Order.Fulfils (order : Order) (outcome : Outcome) : Prop where
  uncanceled : Uncanceled outcome
  live : order.context.check order.entry = none

/-- A program that neither waits nor looks at its context comes to its end within the turn. -/
theorem Program.Travels.finishes {α : Type} {context : Context} {id : Nat} {p : Program α} {s s' : Shared}
    {deeds : List Deed} {state : TaskState α} {allowed : Effect → Prop} {good : α → Prop}
    (travels : p.Travels context id s deeds state s') (finishes : p.Finishes allowed good) :
    (∃ value, state = .finished value ∧ good value) ∧ ∀ deed ∈ deeds, allowed deed.request := by
  induction travels with
  | done => exact ⟨⟨_, rfl, finishes⟩, fun _ mem => absurd mem List.not_mem_nil⟩
  | effect _ ih =>
    obtain ⟨ended, rest⟩ := ih (finishes.2 _)
    exact ⟨ended, List.forall_mem_cons.2 ⟨finishes.1, rest⟩⟩
  | check | refused | granted | waits | pauses => exact finishes.elim
  | release _ ih => exact ih finishes
  | drift _ _ ih => exact ih finishes

/-- A context that is found live was live before. -/
theorem Order.live_of_passes {order : Order} {now : Timeline} (live : order.context.check now = none)
    (passes : order.entry.Passes now) : order.context.check order.entry = none := by
  cases status : order.context.check order.entry with
  | none => rfl
  | some reason =>
    obtain ⟨reason', ended⟩ := Context.check_of_passes status passes
    rw [live] at ended
    cases ended

/-- In a turn a call that has not written asks questions only, or it ends without having been stopped. -/
theorem Program.Travels.ponders {order : Order} {id : Nat} {p : Program Outcome} {s s' : Shared}
    {deeds : List Deed} {state : TaskState Outcome} (travels : p.Travels order.context id s deeds state s')
    (ponders : order.Ponders p) (passes : order.entry.Passes s.timeline) :
    ((∀ deed ∈ deeds, deed.IsQuestion) ∧ state.Ponders order) ∨
      ∃ outcome, state = .finished outcome ∧ order.Fulfils outcome := by
  obtain ⟨clear, live, decides⟩ := ponders
  have stopped : ∀ {next : Program Outcome} {s s' : Shared} {deeds : List Deed} {state : TaskState Outcome}
      {reason : Cancellation}, next.Travels order.context id s deeds state s' →
        next.Finishes Effect.IsQuestion (Canceled reason) →
          (∀ deed ∈ deeds, deed.IsQuestion) ∧ state.Ponders order := by
    intro next s s' deeds state reason travels finishes
    obtain ⟨⟨value, rfl, -⟩, asked⟩ := travels.finishes finishes
    exact ⟨asked, trivial⟩
  induction travels generalizing clear with
  | done => exact .inl ⟨fun _ mem => absurd mem List.not_mem_nil, trivial⟩
  | effect travels ih =>
    rcases decides with ⟨question, rest⟩ | ⟨rfl, finishes⟩
    · refine (ih passes clear live (rest _)).imp_left fun asked => ⟨?_, asked.2⟩
      exact List.forall_mem_cons.2 ⟨question, asked.1⟩
    · -- From its first write on the program is not stopped any more.
      obtain ⟨⟨outcome, rfl, uncanceled⟩, -⟩ := travels.finishes (finishes.2 _)
      exact .inr ⟨outcome, rfl, uncanceled, live rfl⟩
  | @check next s s' deeds state travels ih =>
    cases status : order.context.check s.timeline with
    | none =>
      rw [status] at ih
      exact ih passes true (fun _ => Order.live_of_passes status passes) decides.1
    | some reason =>
      rw [status] at travels
      exact .inl (stopped travels (decides.2 reason))
  | refused _ travels => exact .inl (stopped travels (decides.2 _))
  | granted status _ _ ih => exact ih passes true (fun _ => Order.live_of_passes status passes) decides.1
  | waits => exact .inl ⟨fun _ mem => absurd mem List.not_mem_nil, _, clear, live, decides⟩
  | pauses => exact .inl ⟨fun _ mem => absurd mem List.not_mem_nil, clear, live, decides⟩
  | release _ ih => exact ih passes clear live decides
  | drift drifts _ ih => exact ih (passes.trans drifts.passes) clear live decides

theorem Task.Takes.ponders {order : Order} {id : Nat} {s s' : Shared} {task : Task Outcome} {deeds : List Deed}
    {state : TaskState Outcome} (takes : task.Takes id s deeds state s') (own : task.context = order.context)
    (ponders : task.state.Ponders order) (passes : order.entry.Passes s.timeline) :
    ((∀ deed ∈ deeds, deed.IsQuestion) ∧ state.Ponders order) ∨
      ∃ outcome, state = .finished outcome ∧ order.Fulfils outcome := by
  cases takes with
  | starts travels =>
    cases own
    exact travels.ponders ponders passes
  | givesUp _ travels =>
    obtain ⟨mode, clear, live, decides⟩ := ponders
    obtain ⟨⟨value, rfl, -⟩, asked⟩ := travels.finishes (decides.2 _)
    exact .inl ⟨asked, trivial⟩
  | goesOn status _ travels =>
    cases own
    obtain ⟨mode, clear, live, decides⟩ := ponders
    exact travels.ponders ⟨true, fun _ => Order.live_of_passes status passes, decides.1⟩ passes

/-- Who has been told to stop says so, for the reason that it was told. -/
theorem Program.Travels.told {context : Context} {id : Nat} {p : Program Outcome} {tl : Timeline} {s s' : Shared}
    {deeds : List Deed} {state : TaskState Outcome} {reason reason' : Cancellation}
    (travels : p.Travels context id s deeds state s') (finishes : p.Finishes Effect.IsQuestion (Canceled reason'))
    (status : context.check tl = some reason') (passes : tl.Passes s.timeline)
    (ended : state.outcome? = some (.error (.canceled reason))) : context.DoneBetween tl s'.timeline reason := by
  obtain ⟨⟨_, rfl, rfl⟩, -⟩ := travels.finishes finishes
  cases ended
  exact ⟨tl, .refl _, passes.trans travels.passes, status⟩

/-- A call says that it was stopped only if a look at its context told it so, in the turn in which it ends. -/
theorem Program.Travels.stopped {context : Context} {id : Nat} {p : Program Outcome} {s s' : Shared}
    {deeds : List Deed} {state : TaskState Outcome} {clear : Bool} {reason : Cancellation}
    (travels : p.Travels context id s deeds state s')
    (decides : p.Decides (fun _ => True) clear Uncanceled Uncanceled Canceled)
    (ended : state.outcome? = some (.error (.canceled reason))) :
    context.DoneBetween s.timeline s'.timeline reason := by
  induction travels generalizing clear with
  | done =>
    cases ended
    exact absurd rfl (decides reason)
  | effect travels ih =>
    rcases decides with ⟨-, rest⟩ | ⟨-, finishes⟩
    · exact ih (rest _) ended
    · obtain ⟨⟨value, rfl, uncanceled⟩, -⟩ := travels.finishes (finishes.2 _)
      cases ended
      exact absurd rfl (uncanceled reason)
  | @check next s s' deeds state travels ih =>
    cases status : context.check s.timeline with
    | none =>
      rw [status] at ih
      exact ih decides.1 ended
    | some reason' =>
      rw [status] at travels
      exact travels.told (decides.2 reason') status (.refl _) ended
  | refused status travels => exact travels.told (decides.2 _) status (.refl _) ended
  | granted _ _ _ ih => exact ih decides.1 ended
  | waits | pauses => cases ended
  | release _ ih => exact ih decides ended
  | drift drifts _ ih =>
    obtain ⟨now, early, late, status⟩ := ih decides ended
    exact ⟨now, drifts.passes.trans early, late, status⟩

theorem Task.Takes.stopped {order : Order} {id : Nat} {s s' : Shared} {task : Task Outcome} {deeds : List Deed}
    {state : TaskState Outcome} {reason : Cancellation} (takes : task.Takes id s deeds state s')
    (own : task.context = order.context) (ponders : task.state.Ponders order)
    (ended : state.outcome? = some (.error (.canceled reason))) :
    order.context.DoneBetween s.timeline s'.timeline reason := by
  cases takes with
  | starts travels =>
    cases own
    obtain ⟨clear, -, decides⟩ := ponders
    exact travels.stopped decides ended
  | givesUp status travels =>
    cases own
    obtain ⟨mode, clear, -, decides⟩ := ponders
    exact travels.told (decides.2 _) status (.refl _) ended
  | goesOn _ _ travels =>
    cases own
    obtain ⟨mode, clear, -, decides⟩ := ponders
    exact travels.stopped decides.1 ended

/-! ### All turns of a course -/

/-- A task on its way: it runs in the context that it was called in, has to do with its own locks only, and has not
written if its call writes once. -/
structure Task.Heeds (task : Task Outcome) (order : Order) (now : Timeline) (locks : Locks) (id : Nat) : Prop where
  own : task.context = order.context
  passes : order.entry.Passes now
  confined : task.state.Confined locks id
  ponders : order.call.WritesOnce → task.state.Ponders order

/-- What a turn of a call that writes once has come to: it asked questions only or ended the call well, and if it ended
the call with the word that it was stopped, the context was done by then. -/
structure Turn.Heeds (turn : Turn) (order : Order) : Prop where
  fulfils : turn.IsIdle ∨ ∃ outcome ∈ turn.outcome?, order.Fulfils outcome
  stopped : ∀ reason, turn.outcome? = some (.error (.canceled reason)) →
    order.context.DoneBetween turn.began turn.ended reason

/-- The turns so far have heeded the contexts of their calls, and the tasks that are still on their way have not
written. -/
structure System.Heeds (sys : System Outcome) (orders : Nat → Option Order) (log : List Turn) : Prop where
  tells : sys.Tells orders (fun id order task => task.Heeds order sys.shared.timeline sys.shared.locks id) fun id =>
    sys.shared.locks.Confines ∅ id
  turns : ∀ turn ∈ log, ∃ order, orders turn.task = some order ∧
    (∀ outcome ∈ turn.outcome?, sys.result? turn.task = some outcome) ∧
    (order.call.WritesOnce → turn.Heeds order)

namespace System.Heeds

variable {settings : Settings} {sys : System Outcome} {orders : Nat → Option Order} {log : List Turn} {call : Call}

theorem start (world : World) : Heeds { shared := { world } } (fun _ => none) [] := by
  refine ⟨.start fun id lock _ => ?_, fun _ mem => absurd mem List.not_mem_nil⟩
  have empty : ({} : Locks).gate lock = {} := by cases lock <;> rfl
  rw [empty]
  exact fun c mem => absurd mem List.not_mem_nil

theorem drift {shared : Shared} (heeds : sys.Heeds orders log) (drifts : sys.shared.Drifts shared) :
    ({ sys with shared } : System Outcome).Heeds orders log := by
  obtain ⟨⟨tasks, unborn⟩, turns⟩ := heeds
  refine ⟨⟨fun id task found => ?_, ?_⟩, turns⟩
  · obtain ⟨order, known, own, passes, confined, ponders⟩ := tasks id task found
    rw [← drifts.locks] at confined
    exact ⟨order, known, own, passes.trans drifts.passes, confined, ponders⟩
  · rw [← drifts.locks] at unborn
    exact unborn

/-- A call that has just been made has not written. -/
theorem ponders_program (order : Order) (once : order.call.WritesOnce) :
    order.Ponders (order.call.program settings) :=
  ⟨false, fun impossible => absurd impossible Bool.false_ne_true, Call.decides once⟩

theorem spawn (context : Context) (call : Call) (heeds : sys.Heeds orders log) :
    (sys.spawn context (call.program settings)).2.Heeds
      (Function.update orders sys.made (some { call, context, entry := sys.shared.timeline })) log := by
  constructor
  · refine heeds.tells.spawn context _ { call, context, entry := sys.shared.timeline } fun outside => ?_
    exact ⟨rfl, .refl _, ⟨∅, outside, Call.ascends settings call⟩, ponders_program _⟩
  · intro turn mem
    obtain ⟨order, known, ended, rest⟩ := heeds.turns turn mem
    have ne := Nat.ne_of_lt (heeds.tells.known_lt known)
    refine ⟨order, by rw [Function.update_of_ne ne, known], fun outcome there => ?_, rest⟩
    simp only [System.spawn]
    rw [System.result?_insert, if_neg ne]
    exact ended outcome there

/-- A turn of one task. -/
theorem turn {id : Nat} {task : Task Outcome} {deeds : List Deed} {state : TaskState Outcome} {shared : Shared}
    (heeds : sys.Heeds orders log) (found : sys.tasks[id]? = some task)
    (takes : task.Takes id sys.shared deeds state shared) :
    (sys.turned id task state shared).Heeds orders (log ++ [.noted id sys.shared deeds state shared]) := by
  obtain ⟨order, known, own, passes, confined, pondering⟩ := heeds.tells.tasks id task found
  obtain ⟨confined', skirts⟩ := takes.confined confined
  have pending : sys.result? id = none := by
    simp only [System.result?]
    rw [found]
    cases takes <;> rfl
  have turned : order.call.WritesOnce → ((∀ deed ∈ deeds, deed.IsQuestion) ∧ state.Ponders order) ∨
      ∃ outcome, state = .finished outcome ∧ order.Fulfils outcome :=
    fun once => takes.ponders own (pondering once) passes
  constructor
  · refine heeds.tells.turned found ?_ ?_ fun other ne outside => skirts other ne ∅ outside
    · intro order' known' _
      rw [known] at known'
      cases known'
      refine ⟨own, passes.trans takes.passes, confined', fun once => ?_⟩
      rcases turned once with ⟨-, ponders⟩ | ⟨outcome, rfl, -⟩
      · exact ponders
      · exact trivial
    · rintro other order' t ne ⟨own', passes', confined', pondering'⟩
      exact ⟨own', passes'.trans takes.passes, confined'.other skirts ne, pondering'⟩
  · intro turn mem
    simp only [System.turned]
    rw [System.result?_insert]
    rcases List.mem_append.1 mem with old | new
    · obtain ⟨order', known', ended, rest⟩ := heeds.turns turn old
      refine ⟨order', known', fun outcome there => ?_, rest⟩
      have before := ended outcome there
      rw [if_neg]
      · exact before
      · intro same
        rw [same, pending] at before
        cases before
    · rw [List.mem_singleton.1 new]
      refine ⟨order, known, fun outcome there => ?_, fun once => ?_⟩
      · have own : (Turn.noted id sys.shared deeds state shared).task = id := rfl
        rw [if_pos own]
        cases state with
        | finished value => exact there
        | fresh p | waiting lock next => cases there
      · refine ⟨?_, fun reason => takes.stopped own (pondering once)⟩
        rcases turned once with ⟨idle, -⟩ | ⟨outcome, rfl, fulfils⟩
        · exact .inl idle
        · exact .inr ⟨outcome, rfl, fulfils⟩

end System.Heeds

variable {settings : Settings} {sys : System Outcome} {orders : Nat → Option Order} {log : List Turn}

theorem Course.heeds (course : Course settings sys orders log) : sys.Heeds orders log := by
  induction course with
  | start _ => exact .start _
  | spawn context call _ before => exact before.spawn context call
  | turn _ found takes before => exact before.turn found takes
  | drift _ drifts before => exact before.drift drifts

/-- A call that writes once says that it was stopped only if its context was done at some time during the turn. -/
theorem System.Heeds.stopped {turn : Turn} {order : Order} {reason : Cancellation} (heeds : sys.Heeds orders log)
    (mem : turn ∈ log) (known : orders turn.task = some order) (once : order.call.WritesOnce)
    (ended : turn.outcome? = some (.error (.canceled reason))) :
    order.context.DoneBetween turn.began turn.ended reason := by
  obtain ⟨order', known', -, rest⟩ := heeds.turns turn mem
  rw [known] at known'
  cases known'
  exact (rest once).stopped reason ended

/-- Who has ended has nothing to do with any lock. -/
theorem System.Heeds.free {id : Nat} {outcome : Outcome} (heeds : sys.Heeds orders log)
    (ended : sys.result? id = some outcome) (lock : LockName) :
    ∀ c ∈ (sys.shared.locks.gate lock).claims, c.holder ≠ id := by
  cases found : sys.tasks[id]? with
  | none =>
    rw [System.result?, found] at ended
    cases ended
  | some task =>
    obtain ⟨-, -, -, -, confined, -⟩ := heeds.tells.tasks id task found
    rw [System.result?, found] at ended
    obtain ⟨context, state⟩ := task
    cases state with
    | finished value => exact confined lock (Finset.notMem_empty lock)
    | fresh p | waiting wanted next => cases ended

/-- A turn that asked questions only has changed nothing. -/
theorem Turn.IsIdle.unchanged {turn : Turn} {call : Call} {h h' : Holdings} (idle : turn.IsIdle)
    (does : turn.Does settings call h h') :
    turn.after.store = turn.before.store ∧ turn.after.index = turn.before.index := by
  obtain rfl := does.undergoes.eq_of_questions idle
  exact ⟨does.after.store.trans does.before.store.symm, does.after.index.trans does.before.index.symm⟩

/-- Operations go on side by side while their contexts end and requests fail at any moment. Take one that writes, be it
a creation, a deletion, a change of members or properties, a move, or rows written anew.

If it says that it was stopped, then in all its turns it has asked questions only, so that it has changed neither store
nor index and handed no report on, and it holds no lock and waits for none. A turn in which it does anything else is
its last: in it the call ends, not stopped, and has its whole effect on what it found or has kept it. And if its
context was done when it was called, it asks questions only. -/
theorem Course.cancellation_leaves_nothing {id : Nat} {order : Order} (course : Course settings sys orders log)
    (known : orders id = some order) (once : order.call.WritesOnce) :
    (∀ reason, sys.result? id = some (.error (.canceled reason)) →
      (∀ turn ∈ log, turn.task = id → turn.IsIdle ∧ turn.after.store = turn.before.store ∧
        turn.after.index = turn.before.index) ∧
      ∀ lock, ∀ c ∈ (sys.shared.locks.gate lock).claims, c.holder ≠ id) ∧
    (∀ turn ∈ log, turn.task = id → turn.IsIdle ∨ ∃ outcome ∈ turn.outcome?, Uncanceled outcome ∧
      sys.result? id = some outcome ∧ ∃ h h', turn.before.Holds h ∧ turn.after.Holds h' ∧ h.Undergoes turn.deeds h' ∧
        order.call.Concludes settings h turn.fails outcome h') ∧
    ∀ reason, order.context.check order.entry = some reason → ∀ turn ∈ log, turn.task = id → turn.IsIdle := by
  have heeds := course.heeds
  obtain ⟨h, chronicled⟩ := course.chronicled
  have turns : ∀ turn ∈ log, turn.task = id → (∀ outcome ∈ turn.outcome?, sys.result? id = some outcome) ∧
      (turn.IsIdle ∨ ∃ outcome ∈ turn.outcome?, order.Fulfils outcome) := by
    rintro turn mem rfl
    obtain ⟨order', known', ended, rest⟩ := heeds.turns turn mem
    rw [known] at known'
    cases known'
    exact ⟨ended, (rest once).fulfils⟩
  refine ⟨fun reason stopped => ⟨fun turn mem own => ?_, heeds.free stopped⟩, fun turn mem own => ?_, ?_⟩
  · obtain ⟨ended, asks⟩ := turns turn mem own
    have idle : turn.IsIdle := by
      refine asks.resolve_right ?_
      rintro ⟨outcome, there, fulfils⟩
      have same := (ended outcome there).symm.trans stopped
      exact fulfils.uncanceled reason (Option.some.inj same)
    obtain ⟨order₁, h₁, h₂, -, -, does⟩ := chronicled.mem mem
    exact ⟨idle, idle.unchanged does⟩
  · obtain ⟨ended, asks⟩ := turns turn mem own
    refine asks.imp_right ?_
    rintro ⟨outcome, there, fulfils⟩
    obtain ⟨order', h₁, h₂, known', -, does⟩ := chronicled.mem mem
    rw [own, known] at known'
    cases known'
    exact ⟨outcome, there, fulfils.uncanceled, ended outcome there, h₁, h₂, does.before, does.after, does.undergoes,
      does.concludes outcome there⟩
  · intro reason dead turn mem own
    obtain ⟨-, asks⟩ := turns turn mem own
    refine asks.resolve_right ?_
    rintro ⟨outcome, -, fulfils⟩
    rw [fulfils.live] at dead
    cases dead

/-- A creation has the hierarchy and waits for its parent, which another task has, when it is stopped. -/
theorem creation_stopped_between_locks : ∃ sys orders log id order, Course {} sys orders log ∧
    orders id = some order ∧ order.call = .create (.new "b" "a" .basic none) ∧
    sys.result? id = some (.error (.canceled .cancelled)) ∧
    (∀ turn ∈ log, turn.task = id → turn.IsIdle ∧ turn.after.store = turn.before.store ∧
      turn.after.index = turn.before.index) ∧
    ∀ lock, ∀ c ∈ (sys.shared.locks.gate lock).claims, c.holder ≠ id := by
  have empty : Course {} { shared := { world := default } } (fun _ => none) [] := .start ⟨rfl, rfl⟩
  obtain ⟨log, settled⟩ := (empty.spawn { token := [0] } (.create (.new "a" "" .basic none))).settle
  have removing := settled.spawn { token := [1] } (.removeMember "a" "b.txt")
  have claimed := removing.turn Std.ExtTreeMap.getElem?_insert_self (.starts (.waits rfl))
  have creating := claimed.spawn { token := [2] } (.create (.new "b" "a" .basic none))
  obtain ⟨deeds, travels⟩ := Program.advance_travels _ _ _ _
  have waiting := creating.turn Std.ExtTreeMap.getElem?_insert_self (.starts travels)
  obtain ⟨more, stopped⟩ := waiting.cancel [2]
  have kept := (stopped.cancellation_leaves_nothing (Function.update_self ..) trivial).1 .cancelled
  refine ⟨_, _, _, _, _, stopped, Function.update_self .., rfl, (fun ended => ⟨ended, kept ended⟩) ?_⟩
  decide +kernel

end Containment
