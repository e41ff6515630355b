/-
Module: Containment.Proofs.Undisturbed
Purpose: Programs that run alone, in a world without planted faults and in a context that goes on. Nothing refuses
  them then, so what they do can be told step by step, together with the fact that they come to an end.
Main exports: Action.Succeeds, Action.Succeeds.bind, Action.Succeeds.withContainers, Action.succeeds_store,
  Action.succeeds_store_bind, Action.succeeds_tryIndex_bind, Action.succeeds_index, Action.succeeds_index_bind,
  Action.Fails, Action.Fails.bind, Action.Succeeds.fails_bind, Action.Declines, Action.Succeeds.declines_bind
-/
import Containment.World

namespace Containment

/-- Without faults the store is asked. -/
theorem World.answer_store {w : World} (clean : w.faults = []) {call : StoreCall}
    {answer : Except StoreError call.Answer} {s : Store} (served : w.store.perform call = (answer, s)) :
    w.answer (.store call) = (answer, { w with store := s }) := by
  rcases w with ⟨store, ix, clock, ids, dispatcher, faults⟩
  subst clean
  simp only [World.answer, World.askStore, Fault.strike, served]

/-- Without faults the index is asked. -/
theorem World.answer_index {w : World} (clean : w.faults = []) {call : IndexCall}
    {answer : Except IndexError call.Answer} {ix : Index} (served : w.index.perform call = (answer, ix)) :
    w.answer (.index call) = (answer, { w with index := ix }) := by
  rcases w with ⟨store, ix, clock, ids, dispatcher, faults⟩
  subst clean
  simp only [World.answer, World.askIndex, Fault.strike, served]

/-! ### Outcomes that are known in part -/

section Outcomes

variable {ε α β : Type} {outcome : Except ε α} {f : α → β}

theorem exists_ok_of_map {b : β} (mapped : outcome.map f = .ok b) : ∃ a, outcome = .ok a ∧ f a = b := by
  cases outcome with
  | ok a => exact ⟨a, rfl, Except.ok.inj mapped⟩
  | error e => cases mapped

theorem eq_error_of_map {e : ε} (mapped : outcome.map f = .error e) : outcome = .error e := by
  cases outcome with
  | ok a => cases mapped
  | error e' =>
    cases mapped
    rfl

end Outcomes

namespace Action

variable {α β : Type} {w : World}

/-- Undisturbed, the program ends well from `w`, and its answer and the world are then as `P` says. -/
def Succeeds (x : Action α) (w : World) (P : α → World → Prop) : Prop :=
  ∃ a w', x.run.run none w = (.ok a, w') ∧ P a w'

theorem Succeeds.mono {x : Action α} {P Q : α → World → Prop} (succeeds : x.Succeeds w P)
    (imp : ∀ a w', P a w' → Q a w') : x.Succeeds w Q := by
  obtain ⟨a, w', ended, good⟩ := succeeds
  exact ⟨a, w', ended, imp a w' good⟩

theorem succeeds_pure {a : α} {P : α → World → Prop} (good : P a w) : (pure a : Action α).Succeeds w P :=
  ⟨a, w, rfl, good⟩

/-- One program after another. -/
theorem Succeeds.bind {x : Action α} {f : α → Action β} {P : α → World → Prop} {Q : β → World → Prop}
    (first : x.Succeeds w P) (second : ∀ a w₁, P a w₁ → (f a).Succeeds w₁ Q) : (x >>= f).Succeeds w Q := by
  obtain ⟨a, w₁, ended, good⟩ := first
  obtain ⟨b, w', ended', better⟩ := second a w₁ good
  have split : (x >>= f).run.run none w = (f a).run.run none w₁ := by
    change (x.run.bind (ExceptT.bindCont f)).run none w = _
    rw [Program.run_bind, ended]
    rfl
  exact ⟨b, w', split.trans ended', better⟩

theorem Succeeds.map {x : Action α} {f : α → β} {P : β → World → Prop}
    (succeeds : x.Succeeds w fun a => P (f a)) : (f <$> x).Succeeds w P := by
  rw [map_eq_pure_bind]
  apply succeeds.bind
  intro a w' good
  exact succeeds_pure good

/-- What ends well needs no handler. -/
theorem Succeeds.tryCatch {x : Action α} {handler : RepositoryError → Action α} {P : α → World → Prop}
    (succeeds : x.Succeeds w P) : (tryCatch x handler : Action α).Succeeds w P := by
  obtain ⟨a, w', ended, good⟩ := succeeds
  have same : (MonadExcept.tryCatch x handler : Action α).run.run none w = (.ok a, w') := by
    apply (Program.run_bind none x.run _ w).trans
    rw [ended]
    rfl
  exact ⟨a, w', same, good⟩

/-- Alone, a program gets the lock that it wants. -/
theorem run_withLock (lock : LockName) (mode : Mode) (body : Action α) (w : World) :
    (withLock lock mode body).run.run none w = body.run.run none w :=
  Program.run_bind none body.run _ w

theorem Succeeds.withLock {lock : LockName} {mode : Mode} {body : Action α} {P : α → World → Prop}
    (succeeds : body.Succeeds w P) : (withLock lock mode body).Succeeds w P := by
  obtain ⟨a, w', ended, good⟩ := succeeds
  exact ⟨a, w', (run_withLock lock mode body w).trans ended, good⟩

theorem run_releaseAll (status : Option Cancellation) (locks : List LockName) (w : World) :
    (releaseAll locks).run status w = ((), w) := by
  induction locks with
  | nil => rfl
  | cons lock rest ih => exact ih

/-- Alone, a program gets all the locks that it wants. -/
theorem run_acquireAll (taken locks : List LockName) (w : World) :
    (acquireAll taken locks).run none w = (none, w) := by
  induction locks generalizing taken with
  | nil => rfl
  | cons lock rest ih => exact ih _

theorem run_withContainers (ids : List String) (body : Action α) (w : World) :
    (withContainers ids body).run.run none w = body.run.run none w := by
  change Program.run none (Program.bind (acquireAll [] _) _) w = _
  rw [Program.run_bind, run_acquireAll]
  change Program.run none (Program.bind body.run _) w = _
  rw [Program.run_bind, Program.run_bind, run_releaseAll]
  rfl

theorem Succeeds.withContainers {ids : List String} {body : Action α} {P : α → World → Prop}
    (succeeds : body.Succeeds w P) : (withContainers ids body).Succeeds w P := by
  obtain ⟨a, w', ended, good⟩ := succeeds
  exact ⟨a, w', (run_withContainers ids body w).trans ended, good⟩

theorem succeeds_checkContext_bind {f : Unit → Action β} {P : β → World → Prop}
    (next : (f ()).Succeeds w P) : (checkContext >>= f).Succeeds w P :=
  next

/-! ### Requests that are answered -/

/-- A request to the index, and what is done with its outcome. -/
theorem succeeds_tryIndex_bind (clean : w.faults = []) {call : IndexCall} {answer : Except IndexError call.Answer}
    {ix : Index} {f : Except IndexError call.Answer → Action β} {P : β → World → Prop}
    (served : w.index.perform call = (answer, ix)) (next : (f answer).Succeeds { w with index := ix } P) :
    (tryIndex call >>= f).Succeeds w P := by
  obtain ⟨b, w', ended, good⟩ := next
  refine ⟨b, w', ?_, good⟩
  change (f (w.answer (.index call)).1).run.run none (w.answer (.index call)).2 = _
  rw [World.answer_index clean served]
  exact ended

theorem succeeds_now_bind {f : Time.Instant → Action β} {P : β → World → Prop}
    (next : ∀ time clock, (f time).Succeeds { w with clock } P) : (now >>= f).Succeeds w P :=
  next w.clock.read.1 w.clock.read.2

theorem succeeds_publish {events : List Event} {P : Unit → World → Prop}
    (good : ∀ dispatcher, P () { w with dispatcher }) : (publish events).Succeeds w P := by
  unfold publish
  split
  · exact succeeds_pure (good w.dispatcher)
  · exact ⟨(), { w with dispatcher := w.dispatcher.dispatch events }, rfl, good _⟩

/-- A question that the store answers. -/
theorem succeeds_store (clean : w.faults = []) {call : StoreCall} {answer : call.Answer}
    (served : w.store.perform call = (.ok answer, w.store)) :
    (store call).Succeeds w fun a w' => a = answer ∧ w' = w := by
  refine ⟨answer, w, ?_, rfl, rfl⟩
  change Program.run none (ExceptT.run (match (w.answer (.store call)).1 with
    | .ok a => pure a
    | .error e => throw (RepositoryError.store e) : Action call.Answer)) (w.answer (.store call)).2 = _
  rw [World.answer_store clean served]
  rfl

/-- A question to the store, and what is done with the answer. -/
theorem succeeds_store_bind (clean : w.faults = []) {call : StoreCall} {answer : call.Answer}
    {f : call.Answer → Action β} {P : β → World → Prop} (served : w.store.perform call = (.ok answer, w.store))
    (next : (f answer).Succeeds w P) : (store call >>= f).Succeeds w P := by
  apply (succeeds_store clean served).bind
  intro _ _ given
  rcases given with ⟨rfl, rfl⟩
  exact next

/-- A request that the index answers. -/
theorem succeeds_index (clean : w.faults = []) {call : IndexCall} {answer : call.Answer} {ix : Index}
    {P : call.Answer → World → Prop} (served : w.index.perform call = (.ok answer, ix))
    (good : P answer { w with index := ix }) : (index call).Succeeds w P := by
  refine ⟨answer, { w with index := ix }, ?_, good⟩
  change Program.run none (ExceptT.run (match (w.answer (.index call)).1 with
    | .ok a => pure a
    | .error e => throw (RepositoryError.index e) : Action call.Answer)) (w.answer (.index call)).2 = _
  rw [World.answer_index clean served]
  rfl

/-- A question to the index, and what is done with the answer. -/
theorem succeeds_index_bind (clean : w.faults = []) {call : IndexCall} {answer : call.Answer}
    {f : call.Answer → Action β} {P : β → World → Prop} (served : w.index.perform call = (.ok answer, w.index))
    (next : (f answer).Succeeds w P) : (index call >>= f).Succeeds w P := by
  have asked : (index call).Succeeds w fun a w' => a = answer ∧ w' = w := succeeds_index clean served ⟨rfl, rfl⟩
  apply asked.bind
  intro _ _ given
  rcases given with ⟨rfl, rfl⟩
  exact next

/-! ### Refusals -/

/-- Undisturbed, the program ends with this error from `w`. -/
def Fails (x : Action α) (w : World) (e : RepositoryError) : Prop :=
  ∃ w', x.run.run none w = (.error e, w')

variable {e : RepositoryError}

theorem fails_throw (e : RepositoryError) : (throw e : Action α).Fails w e :=
  ⟨w, rfl⟩

/-- An error ends the programs that come after as well. -/
theorem Fails.bind {x : Action α} {f : α → Action β} (fails : x.Fails w e) : (x >>= f).Fails w e := by
  obtain ⟨w', ended⟩ := fails
  refine ⟨w', ?_⟩
  change (x.run.bind (ExceptT.bindCont f)).run none w = _
  rw [Program.run_bind, ended]
  rfl

theorem Succeeds.fails_bind {x : Action α} {f : α → Action β} {P : α → World → Prop} (first : x.Succeeds w P)
    (second : ∀ a w₁, P a w₁ → (f a).Fails w₁ e) : (x >>= f).Fails w e := by
  obtain ⟨a, w₁, ended, good⟩ := first
  obtain ⟨w', failed⟩ := second a w₁ good
  refine ⟨w', ?_⟩
  change (x.run.bind (ExceptT.bindCont f)).run none w = _
  rw [Program.run_bind, ended]
  exact failed

theorem Fails.map {x : Action α} {f : α → β} (fails : x.Fails w e) : (f <$> x).Fails w e := by
  rw [map_eq_pure_bind]
  exact fails.bind

theorem Fails.mapError {x : Action α} {change : RepositoryError → RepositoryError} (fails : x.Fails w e) :
    (mapError x change).Fails w (change e) := by
  obtain ⟨w', ended⟩ := fails
  refine ⟨w', (Program.run_bind none x.run _ w).trans ?_⟩
  rw [ended]
  rfl

/-- An error that its handler passes on. -/
theorem Fails.rethrown {x : Action α} {handler : RepositoryError → Action α} (fails : x.Fails w e)
    (passed : handler e = throw e) : (tryCatch x handler : Action α).Fails w e := by
  obtain ⟨w', ended⟩ := fails
  refine ⟨w', (Program.run_bind none x.run _ w).trans ?_⟩
  rw [ended]
  exact congrArg (fun action : Action α => action.run.run none w') passed

theorem Fails.withLock {lock : LockName} {mode : Mode} {body : Action α} (fails : body.Fails w e) :
    (withLock lock mode body).Fails w e := by
  obtain ⟨w', ended⟩ := fails
  exact ⟨w', (run_withLock lock mode body w).trans ended⟩

theorem Fails.withContainers {ids : List String} {body : Action α} (fails : body.Fails w e) :
    (withContainers ids body).Fails w e := by
  obtain ⟨w', ended⟩ := fails
  exact ⟨w', (run_withContainers ids body w).trans ended⟩

theorem fails_checkContext_bind {f : Unit → Action β} (next : (f ()).Fails w e) : (checkContext >>= f).Fails w e :=
  next

theorem fails_now_bind {f : Time.Instant → Action β} (next : ∀ time clock, (f time).Fails { w with clock } e) :
    (now >>= f).Fails w e :=
  next w.clock.read.1 w.clock.read.2

/-! ### Refusals that leave everything as it was -/

/-- Undisturbed, the program ends with this error, and everything is as before. -/
def Declines (x : Action α) (w : World) (e : RepositoryError) : Prop :=
  x.run.run none w = (.error e, w)

theorem Declines.bind {x : Action α} {f : α → Action β} (declines : x.Declines w e) : (x >>= f).Declines w e := by
  change (x.run.bind (ExceptT.bindCont f)).run none w = _
  rw [Program.run_bind, declines]
  rfl

theorem Succeeds.declines_bind {x : Action α} {f : α → Action β} {P : α → World → Prop} (first : x.Succeeds w P)
    (second : ∀ a w₁, P a w₁ → w₁ = w ∧ (f a).Declines w e) : (x >>= f).Declines w e := by
  obtain ⟨a, w₁, ended, good⟩ := first
  obtain ⟨rfl, declines⟩ := second a w₁ good
  change (x.run.bind (ExceptT.bindCont f)).run none w₁ = _
  rw [Program.run_bind, ended]
  exact declines

theorem Declines.withLock {lock : LockName} {mode : Mode} {body : Action α} (declines : body.Declines w e) :
    (withLock lock mode body).Declines w e :=
  (run_withLock lock mode body w).trans declines

theorem Declines.fails {x : Action α} (declines : x.Declines w e) : x.Fails w e :=
  ⟨w, declines⟩

/-- A request that the index cannot meet. -/
theorem declines_index (clean : w.faults = []) {call : IndexCall} {error : IndexError}
    (served : w.index.perform call = (.error error, w.index)) : (index call).Declines w (.index error) := by
  change Program.run none (ExceptT.run (match (w.answer (.index call)).1 with
    | .ok a => pure a
    | .error e => throw (RepositoryError.index e) : Action call.Answer)) (w.answer (.index call)).2 = _
  rw [World.answer_index clean served]
  rfl

end Action

end Containment
