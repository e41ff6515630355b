/-
Module: Containment.Proofs.Runs
Purpose: All the ways in which a program can go while its surroundings do as they like. The clock and the source
  of identifiers answer anything, the context may end at every look, and any request to the store or the
  index may fail; a request that fails changes nothing. `Program.run` is one of these ways.
Main exports: Holdings, Holdings.Answers, Program.Runs, Program.failing, Program.run_runs, Program.run_undisturbed
-/
import Containment.World
import Mathlib.Data.List.Basic

namespace Containment

open Time

/-- What lasts when calls come and go: the records, the index, and the reports handed on so far. -/
structure Holdings where
  store : MemoryStore := {}
  index : Index := .empty
  published : List Event := []

/-- Whether a request to the index is meant. -/
def FaultPoint.isIndex : FaultPoint → Bool
  | .index _ => true
  | .store _ => false

/-- How a request may be answered. The list names the request if it fails and is empty otherwise. -/
def Holdings.Answers (h : Holdings) :
    (request : Effect) → List FaultPoint → request.Answer → Holdings → Prop
  | .store call, fails, answer, h' =>
      (fails = [] ∧ answer = (h.store.perform call).1 ∧
          h' = { h with store := (h.store.perform call).2 }) ∨
        ∃ e, fails = [.store call.kind] ∧ answer = .error e ∧ h' = h
  | .index call, fails, answer, h' =>
      (fails = [] ∧ answer = (h.index.perform call).1 ∧
          h' = { h with index := (h.index.perform call).2 }) ∨
        ∃ e, fails = [.index call.kind] ∧ answer = .error e ∧ h' = h
  | .readClock, fails, _, h' => fails = [] ∧ h' = h
  | .drawId, fails, _, h' => fails = [] ∧ h' = h
  | .publish events, fails, _, h' =>
      fails = [] ∧ h' = { h with published := h.published ++ events }

/-- A program can go from `h` to `h'` and end in a value. The list names the requests that failed on the way,
in their order. -/
def Program.Runs {α : Type} : Program α → Holdings → List FaultPoint → α → Holdings → Prop
  | .done a, h, fails, value, h' => value = a ∧ fails = [] ∧ h' = h
  | .effect request next, h, fails, value, h' =>
      ∃ now later answer h₁, h.Answers request now answer h₁ ∧
        (next answer).Runs h₁ later value h' ∧ fails = now ++ later
  | .check next, h, fails, value, h' => ∃ status, (next status).Runs h fails value h'
  | .acquire _ _ next, h, fails, value, h' => ∃ status, (next status).Runs h fails value h'
  | .release _ next, h, fails, value, h' => (next ()).Runs h fails value h'

namespace Program

variable {α β : Type}

/-- A run of two programs one after the other is a run of each. -/
theorem runs_bind {p : Program α} {f : α → Program β} {h h' : Holdings} {fails : List FaultPoint}
    {value : β} :
    (p.bind f).Runs h fails value h' ↔
      ∃ a early late h₁, p.Runs h early a h₁ ∧ (f a).Runs h₁ late value h' ∧ fails = early ++ late := by
  induction p generalizing h fails with
  | done a =>
    constructor
    · intro run
      exact ⟨a, [], fails, h, ⟨rfl, rfl, rfl⟩, run, rfl⟩
    · intro given
      rcases given with ⟨_, _, late, _, ⟨rfl, rfl, rfl⟩, run, rfl⟩
      exact run
  | effect request next ih =>
    constructor
    · intro given
      rcases given with ⟨now, later, answer, h₁, answers, run, rfl⟩
      obtain ⟨a, early, late, h₂, first, second, rfl⟩ := (ih answer).1 run
      exact ⟨a, now ++ early, late, h₂, ⟨now, early, answer, h₁, answers, first, rfl⟩, second,
        (List.append_assoc ..).symm⟩
    · intro given
      rcases given with ⟨a, _, late, h₂, ⟨now, early, answer, h₁, answers, first, rfl⟩, second, rfl⟩
      exact ⟨now, early ++ late, answer, h₁, answers, (ih answer).2 ⟨a, early, late, h₂, first, second, rfl⟩,
        List.append_assoc ..⟩
  | check next ih =>
    constructor
    · intro given
      rcases given with ⟨status, run⟩
      obtain ⟨a, early, late, h₁, first, second, rfl⟩ := (ih status).1 run
      exact ⟨a, early, late, h₁, ⟨status, first⟩, second, rfl⟩
    · intro given
      rcases given with ⟨a, early, late, h₁, ⟨status, first⟩, second, rfl⟩
      exact ⟨status, (ih status).2 ⟨a, early, late, h₁, first, second, rfl⟩⟩
  | acquire lock mode next ih =>
    constructor
    · intro given
      rcases given with ⟨status, run⟩
      obtain ⟨a, early, late, h₁, first, second, rfl⟩ := (ih status).1 run
      exact ⟨a, early, late, h₁, ⟨status, first⟩, second, rfl⟩
    · intro given
      rcases given with ⟨a, early, late, h₁, ⟨status, first⟩, second, rfl⟩
      exact ⟨status, (ih status).2 ⟨a, early, late, h₁, first, second, rfl⟩⟩
  | release lock next ih => exact ih ()

end Program

/-! ### The world is one such surrounding -/

/-- The records are kept in memory, and the holdings are what the world holds. -/
structure World.Holds (w : World) (h : Holdings) : Prop where
  store : w.store = .memory h.store
  index : w.index = h.index

/-- The request itself if a planted fault hits it. -/
def World.failing (w : World) : Effect → List FaultPoint
  | .store call =>
    if (Fault.strike (.store call.kind) call.id w.faults).1.isSome then [.store call.kind] else []
  | .index call =>
    if (Fault.strike (.index call.kind) call.container w.faults).1.isSome then [.index call.kind] else []
  | .readClock | .drawId | .publish _ => []

/-- The requests that planted faults hit when a program runs alone, in their order. -/
def Program.failing {α : Type} (status : Option Cancellation) : Program α → World → List FaultPoint
  | .done _, _ => []
  | .effect request next, w =>
    w.failing request ++ (next (w.answer request).1).failing status (w.answer request).2
  | .check next, w => (next status).failing status w
  | .acquire _ _ next, w => (next status).failing status w
  | .release _ next, w => (next ()).failing status w

/-- A world answers as surroundings may. -/
theorem World.Holds.answers {w : World} {h : Holdings} (holds : w.Holds h) (request : Effect) :
    ∃ h', h.Answers request (w.failing request) (w.answer request).1 h' ∧ (w.answer request).2.Holds h' := by
  obtain ⟨storeEq, indexEq⟩ := holds
  cases request with
  | store call =>
    simp only [World.answer, World.askStore, World.failing, storeEq, Store.perform]
    rcases Fault.strike (.store call.kind) call.id w.faults with ⟨_ | outcome, faults⟩
    · exact ⟨_, .inl ⟨rfl, rfl, rfl⟩, ⟨rfl, indexEq⟩⟩
    · exact ⟨h, .inr ⟨_, rfl, rfl, rfl⟩, ⟨rfl, indexEq⟩⟩
  | index call =>
    simp only [World.answer, World.askIndex, World.failing, indexEq]
    rcases Fault.strike (.index call.kind) call.container w.faults with ⟨_ | outcome, faults⟩
    · exact ⟨_, .inl ⟨rfl, rfl, rfl⟩, ⟨storeEq, rfl⟩⟩
    · exact ⟨h, .inr ⟨_, rfl, rfl, rfl⟩, ⟨storeEq, rfl⟩⟩
  | readClock => exact ⟨h, ⟨rfl, rfl⟩, ⟨storeEq, indexEq⟩⟩
  | drawId => exact ⟨h, ⟨rfl, rfl⟩, ⟨storeEq, indexEq⟩⟩
  | publish events => exact ⟨_, ⟨rfl, rfl⟩, ⟨storeEq, indexEq⟩⟩

/-- A run of a program alone is one of its runs. -/
theorem Program.run_runs {α : Type} (status : Option Cancellation) (p : Program α) {w : World}
    {h : Holdings} (holds : w.Holds h) :
    ∃ h', p.Runs h (p.failing status w) (p.run status w).1 h' ∧ (p.run status w).2.Holds h' := by
  induction p generalizing w h with
  | done a => exact ⟨h, ⟨rfl, rfl, rfl⟩, holds⟩
  | effect request next ih =>
    obtain ⟨h₁, answers, holds₁⟩ := holds.answers request
    obtain ⟨h', run, holds'⟩ := ih _ holds₁
    exact ⟨h', ⟨_, _, _, h₁, answers, run, rfl⟩, holds'⟩
  | check next ih =>
    obtain ⟨h', run, holds'⟩ := ih status holds
    exact ⟨h', ⟨status, run⟩, holds'⟩
  | acquire lock mode next ih =>
    obtain ⟨h', run, holds'⟩ := ih status holds
    exact ⟨h', ⟨status, run⟩, holds'⟩
  | release lock next ih => exact ih () holds

/-! ### Without planted faults no request fails -/

theorem World.failing_eq_nil {w : World} (clean : w.faults = []) (request : Effect) :
    w.failing request = [] ∧ (w.answer request).2.faults = [] := by
  cases request with
  | store call => simp [World.failing, World.answer, World.askStore, clean, Fault.strike]
  | index call => simp [World.failing, World.answer, World.askIndex, clean, Fault.strike]
  | readClock => exact ⟨rfl, clean⟩
  | drawId => exact ⟨rfl, clean⟩
  | publish events => exact ⟨rfl, clean⟩

theorem Program.failing_eq_nil {α : Type} (status : Option Cancellation) (p : Program α) {w : World}
    (clean : w.faults = []) : p.failing status w = [] ∧ (p.run status w).2.faults = [] := by
  induction p generalizing w with
  | done a => exact ⟨rfl, clean⟩
  | effect request next ih =>
    obtain ⟨quiet, clean₁⟩ := World.failing_eq_nil clean request
    obtain ⟨rest, clean'⟩ := ih (w.answer request).1 clean₁
    refine ⟨?_, clean'⟩
    rw [Program.failing, quiet, rest, List.append_nil]
  | check next ih => exact ih status clean
  | acquire lock mode next ih => exact ih status clean
  | release lock next ih => exact ih () clean

/-- So a program that runs in such a world leads to another one. -/
theorem Program.run_undisturbed {α : Type} (status : Option Cancellation) (p : Program α) {w : World} {h : Holdings}
    (holds : w.Holds h) (clean : w.faults = []) :
    ∃ h', p.Runs h [] (p.run status w).1 h' ∧ (p.run status w).2.Holds h' ∧ (p.run status w).2.faults = [] := by
  obtain ⟨h', run, holds'⟩ := run_runs status p holds
  obtain ⟨quiet, clean'⟩ := failing_eq_nil status p clean
  rw [quiet] at run
  exact ⟨h', run, holds', clean'⟩

end Containment
