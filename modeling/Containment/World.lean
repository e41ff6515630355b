/-
Module: Containment.World
Purpose: The collaborators of a repository and their state: store, index, clock, source of identifiers and
  dispatcher. Requests to store and index can be made to fail on purpose, for trying out how calls cope.
Main exports: World, World.answer, Fault, Program.run
-/
import Containment.Program
import Containment.Time.Clock

namespace Containment

open Time

/-- The requests that a fault hits. -/
inductive FaultPoint where
  | store (kind : StoreCall.Kind)
  | index (kind : IndexCall.Kind)
deriving Repr, DecidableEq

namespace FaultPoint

/-- The name: the collaborator and the request. -/
def name : FaultPoint → String
  | .store kind => "store." ++ kind.name
  | .index kind => "index." ++ kind.name

/-- All points. -/
def all : List FaultPoint :=
  StoreCall.Kind.all.map .store ++ IndexCall.Kind.all.map .index

/-- The point with a name. -/
def ofName? (name : String) : Option FaultPoint :=
  all.find? fun point => point.name == name

end FaultPoint

/-- How a faulty request fails. -/
inductive FaultOutcome where
  | backend
  | alreadyExists
  | notFound
  | partitionNotFound
deriving Repr, DecidableEq, Inhabited

/-- A fault: of the requests it matches, the next `skip` pass and the `times` after them fail without
reaching the collaborator. -/
structure Fault where
  point : FaultPoint
  container : Option String := none
  skip : Nat := 0
  times : Nat := 1
  outcome : FaultOutcome := .backend
deriving Repr, DecidableEq

/-- Whether a fault matches a request about a container. -/
def Fault.hits (fault : Fault) (point : FaultPoint) (container : String) : Bool :=
  fault.point == point && fault.container.all (· == container)

/-- Let a request pass all faults in their order. The answer is how it fails, if it does. -/
def Fault.strike (point : FaultPoint) (container : String) :
    List Fault → Option FaultOutcome × List Fault
  | [] => (none, [])
  | fault :: rest =>
    if fault.hits point container then
      match fault.skip, fault.times with
      | 0, times + 1 => (some fault.outcome, { fault with times } :: rest)
      | skip + 1, _ =>
        let (outcome, rest) := strike point container rest
        (outcome, { fault with skip } :: rest)
      | 0, 0 =>
        let (outcome, rest) := strike point container rest
        (outcome, fault :: rest)
    else
      let (outcome, rest) := strike point container rest
      (outcome, fault :: rest)

/-- The error of a store that fails on purpose. -/
def FaultOutcome.storeError (id : String) : FaultOutcome → StoreError
  | .alreadyExists => .alreadyExists id
  | .notFound => .notFound id
  | .backend | .partitionNotFound => .backend "injected"

/-- The error of an index that fails on purpose. -/
def FaultOutcome.indexError (container : String) : FaultOutcome → IndexError
  | .partitionNotFound => .partitionNotFound container
  | .backend | .alreadyExists | .notFound => .backend "injected"

/-- A source of fresh identifiers: how many were drawn, and what the next ones look like. -/
structure IdSource where
  drawn : Nat := 0
  render : Nat → String

instance : Inhabited IdSource := ⟨{ render := fun n => s!"id-{n}" }⟩

/-- The collaborators of a repository. -/
structure World where
  store : Store := .empty
  index : Index := .empty
  clock : Clock
  ids : IdSource := default
  dispatcher : Dispatcher
  faults : List Fault := []
deriving Inhabited

namespace World

/-- Ask the store. -/
def askStore (w : World) (call : StoreCall) : Except StoreError call.Answer × World :=
  match Fault.strike (.store call.kind) call.id w.faults with
  | (some outcome, faults) => (.error (outcome.storeError call.id), { w with faults })
  | (none, faults) =>
    let (answer, store) := w.store.perform call
    (answer, { w with store, faults })

/-- Ask the index. -/
def askIndex (w : World) (call : IndexCall) : Except IndexError call.Answer × World :=
  match Fault.strike (.index call.kind) call.container w.faults with
  | (some outcome, faults) => (.error (outcome.indexError call.container), { w with faults })
  | (none, faults) =>
    let (answer, index) := w.index.perform call
    (answer, { w with index, faults })

/-- Answer a request. -/
def answer (w : World) : (request : Effect) → request.Answer × World
  | .store call => w.askStore call
  | .index call => w.askIndex call
  | .readClock =>
    let (now, clock) := w.clock.read
    (now, { w with clock })
  | .drawId =>
    (w.ids.render (w.ids.drawn + 1), { w with ids := { w.ids with drawn := w.ids.drawn + 1 } })
  | .publish events => ((), { w with dispatcher := w.dispatcher.dispatch events })

end World

/-- Run a program alone, in a context that stays as it is: `status` is the reason to give up, if there is
one. No lock is ever contended. -/
def Program.run {α : Type} (status : Option Cancellation) : Program α → World → α × World
  | .done a, w => (a, w)
  | .effect r k, w =>
    let (x, w) := w.answer r
    (k x).run status w
  | .check k, w => (k status).run status w
  | .acquire _ _ k, w => (k status).run status w
  | .release _ k, w => (k ()).run status w

@[simp] theorem Program.run_bind {α β : Type} (status : Option Cancellation) (p : Program α)
    (f : α → Program β) (w : World) :
    (p.bind f).run status w = (f (p.run status w).1).run status (p.run status w).2 := by
  induction p generalizing w with
  | done => rfl
  | effect r k ih => simp only [bind, run]; exact ih _ _
  | check k ih => simp only [bind, run]; exact ih _ _
  | acquire l m k ih => simp only [bind, run]; exact ih _ _
  | release l k ih => simp only [bind, run]; exact ih _ _

end Containment
