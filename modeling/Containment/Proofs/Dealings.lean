/-
Module: Containment.Proofs.Dealings
Purpose: What a program that runs alone asks its collaborators and is told by them, in order. Programs that do nothing
  but ask are told by their requests and their outcome.
Main exports: Dealing, Program.dealings, Program.requests, Action.Inquires, Action.Inquires.bind
-/
import Containment.Proofs.Undisturbed

namespace Containment

/-- A request and the answer to it. -/
abbrev Dealing := (request : Effect) × request.Answer

namespace Program

variable {α β : Type}

/-- What a program that runs alone asks, and what it is told. -/
def dealings (status : Option Cancellation) : Program α → World → List Dealing
  | .done _, _ => []
  | .effect r k, w => ⟨r, (w.answer r).1⟩ :: (k (w.answer r).1).dealings status (w.answer r).2
  | .check k, w => (k status).dealings status w
  | .acquire _ _ k, w => (k status).dealings status w
  | .release _ k, w => (k ()).dealings status w

/-- The requests of a program that runs alone. -/
def requests (status : Option Cancellation) (p : Program α) (w : World) : List Effect :=
  (p.dealings status w).map Sigma.fst

@[simp]
theorem dealings_bind (status : Option Cancellation) (p : Program α) (f : α → Program β) (w : World) :
    (p.bind f).dealings status w =
      p.dealings status w ++ (f (p.run status w).1).dealings status (p.run status w).2 := by
  induction p generalizing w with
  | done => rfl
  | effect r k ih =>
    simp only [bind, dealings, run, List.cons_append]
    exact congrArg _ (ih _ _)
  | check k ih => exact ih _ _
  | acquire l m k ih => exact ih _ _
  | release l k ih => exact ih _ _

theorem requests_bind (status : Option Cancellation) (p : Program α) (f : α → Program β) (w : World) :
    (p.bind f).requests status w =
      p.requests status w ++ (f (p.run status w).1).requests status (p.run status w).2 := by
  rw [requests, dealings_bind, List.map_append]
  rfl

end Program

namespace Action

variable {α β : Type} {w : World} {asked later : List Effect}

/-- Undisturbed, the program makes just these requests, ends so, and leaves the world as it is. -/
structure Inquires (x : Action α) (w : World) (asked : List Effect) (outcome : Except RepositoryError α) : Prop where
  ends : x.run.run none w = (outcome, w)
  requests : x.run.requests none w = asked

theorem inquires_pure (a : α) : (pure a : Action α).Inquires w [] (.ok a) :=
  ⟨rfl, rfl⟩

theorem inquires_throw (e : RepositoryError) : (throw e : Action α).Inquires w [] (.error e) :=
  ⟨rfl, rfl⟩

/-- One program after another. -/
theorem Inquires.bind {x : Action α} {f : α → Action β} {a : α} {outcome : Except RepositoryError β}
    (first : x.Inquires w asked (.ok a)) (second : (f a).Inquires w later outcome) :
    (x >>= f).Inquires w (asked ++ later) outcome := by
  constructor
  · change (x.run.bind (ExceptT.bindCont f)).run none w = _
    rw [Program.run_bind, first.ends]
    exact second.ends
  · change (x.run.bind (ExceptT.bindCont f)).requests none w = _
    rw [Program.requests_bind, first.ends, first.requests]
    exact congrArg (asked ++ ·) second.requests

/-- An error ends the programs that come after as well. -/
theorem Inquires.stops {x : Action α} {f : α → Action β} {e : RepositoryError} (first : x.Inquires w asked (.error e)) :
    (x >>= f).Inquires w asked (.error e) := by
  constructor
  · change (x.run.bind (ExceptT.bindCont f)).run none w = _
    rw [Program.run_bind, first.ends]
    rfl
  · change (x.run.bind (ExceptT.bindCont f)).requests none w = _
    rw [Program.requests_bind, first.ends, first.requests]
    exact List.append_nil asked

theorem Inquires.map {x : Action α} {f : α → β} {outcome : Except RepositoryError α}
    (inquires : x.Inquires w asked outcome) : (f <$> x).Inquires w asked (outcome.map f) := by
  rw [map_eq_pure_bind]
  cases outcome with
  | ok a => exact List.append_nil asked ▸ inquires.bind (inquires_pure (f a))
  | error e => exact inquires.stops

/-- Alone, a program gets the lock that it wants without asking anybody. -/
theorem Inquires.withLock {lock : LockName} {mode : Mode} {body : Action α} {outcome : Except RepositoryError α}
    (inquires : body.Inquires w asked outcome) : (withLock lock mode body).Inquires w asked outcome := by
  constructor
  · exact (run_withLock lock mode body w).trans inquires.ends
  · apply (Program.requests_bind none body.run _ w).trans
    rw [inquires.requests]
    exact List.append_nil asked

/-- A question to the store. -/
theorem inquires_store (clean : w.faults = []) {call : StoreCall} {answer : call.Answer}
    (served : w.store.perform call = (.ok answer, w.store)) : (store call).Inquires w [.store call] (.ok answer) := by
  have told : w.answer (.store call) = (.ok answer, w) := World.answer_store clean served
  have asked : (tryStore call).Inquires w [.store call] (.ok (.ok answer)) := by
    refine ⟨?_, rfl⟩
    change ((Except.ok (w.answer (.store call)).1 : Except RepositoryError _), (w.answer (.store call)).2) = _
    rw [told]
  exact asked.bind (inquires_pure answer)

end Action

end Containment
