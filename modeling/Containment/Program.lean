/-
Module: Containment.Program
Purpose: Calls to the repository as programs. A program asks the store, the index, the clock and the other
  collaborators, takes and gives back locks, and looks at its context; everything between two requests
  is plain computation. What a program means is left to those who run it: alone (`Program.run`) or
  among other programs (`Containment.Schedule`).
Main exports: Effect, Effect.Answer, Program, Action, withLock, withContainers
-/
import Containment.Dispatch.Dispatcher
import Containment.Index.Basic
import Containment.Lock.Table
import Containment.Repository.Error
import Containment.Store.Basic

namespace Containment

open Time

/-- A request to a collaborator of the repository. -/
inductive Effect where
  | store (call : StoreCall)
  | index (call : IndexCall)
  | readClock
  | drawId
  | publish (events : List Event)

/-- What a collaborator answers. -/
abbrev Effect.Answer : Effect → Type
  | .store call => Except StoreError call.Answer
  | .index call => Except IndexError call.Answer
  | .readClock => Instant
  | .drawId => String
  | .publish _ => Unit

/-- A program that ends in an `α`. `check` and `acquire` continue with the reason to give up, if there is
one. -/
inductive Program (α : Type) where
  | done (value : α)
  | effect (request : Effect) (next : request.Answer → Program α)
  | check (next : Option Cancellation → Program α)
  | acquire (lock : LockName) (mode : Mode) (next : Option Cancellation → Program α)
  | release (lock : LockName) (next : Unit → Program α)

namespace Program

/-- Go on with another program at the end. -/
def bind {α β : Type} : Program α → (α → Program β) → Program β
  | .done a, f => f a
  | .effect r k, f => .effect r fun x => (k x).bind f
  | .check k, f => .check fun x => (k x).bind f
  | .acquire l m k, f => .acquire l m fun x => (k x).bind f
  | .release l k, f => .release l fun x => (k x).bind f

instance : Monad Program where
  pure := .done
  bind := bind

/-- Make a request. -/
def perform (request : Effect) : Program request.Answer :=
  .effect request .done

theorem bind_done {α : Type} (p : Program α) : p.bind .done = p := by
  induction p with
  | done => rfl
  | effect r k ih => simp only [bind]; congr; funext x; exact ih x
  | check k ih => simp only [bind]; congr; funext x; exact ih x
  | acquire l m k ih => simp only [bind]; congr; funext x; exact ih x
  | release l k ih => simp only [bind]; congr; funext x; exact ih x

theorem bind_assoc {α β γ : Type} (p : Program α) (f : α → Program β) (g : β → Program γ) :
    (p.bind f).bind g = p.bind fun a => (f a).bind g := by
  induction p with
  | done => rfl
  | effect r k ih => simp only [bind]; congr; funext x; exact ih x
  | check k ih => simp only [bind]; congr; funext x; exact ih x
  | acquire l m k ih => simp only [bind]; congr; funext x; exact ih x
  | release l k ih => simp only [bind]; congr; funext x; exact ih x

instance : LawfulMonad Program :=
  LawfulMonad.mk' Program (fun p => bind_done p) (fun _ _ => rfl) (fun p f g => bind_assoc p f g)

end Program

/-- A program that may fail. -/
abbrev Action := ExceptT RepositoryError Program

namespace Action

/-- Ask the store and look at the outcome. -/
def tryStore (call : StoreCall) : Action (Except StoreError call.Answer) :=
  ExceptT.lift (Program.perform (.store call))

/-- Ask the store; its errors end the program. -/
def store (call : StoreCall) : Action call.Answer := do
  match ← tryStore call with
  | .ok answer => pure answer
  | .error e => throw (.store e)

/-- Ask the index and look at the outcome. -/
def tryIndex (call : IndexCall) : Action (Except IndexError call.Answer) :=
  ExceptT.lift (Program.perform (.index call))

/-- Ask the index; its errors end the program. -/
def index (call : IndexCall) : Action call.Answer := do
  match ← tryIndex call with
  | .ok answer => pure answer
  | .error e => throw (.index e)

/-- Read the clock. -/
def now : Action Instant :=
  ExceptT.lift (Program.perform .readClock)

/-- Draw a fresh identifier. -/
def freshId : Action String :=
  ExceptT.lift (Program.perform .drawId)

/-- Hand reports on, if there are any. -/
def publish (events : List Event) : Action Unit :=
  if events.isEmpty then pure () else ExceptT.lift (Program.perform (.publish events))

/-- Give up if the context is done. -/
def checkContext : Action Unit :=
  ExceptT.mk (.check fun
    | some reason => .done (.error (.canceled reason))
    | none => .done (.ok ()))

/-- A step of a container; its refusal ends the program. -/
def ofContainer {α : Type} (outcome : Except ContainerError α) : Action α :=
  match outcome with
  | .ok a => pure a
  | .error e => throw (.invalid e)

/-- The container of a record; a record that breaks the rules of containers ends the program. -/
def hydrate (record : Record) : Action Container :=
  match record.hydrate with
  | .ok c => pure c
  | .error e => throw (.store e)

/-- Do something about an error and pass it on. -/
def onError {α : Type} (action : Action α) (handler : RepositoryError → Action Unit) : Action α :=
  tryCatch action fun e => do
    handler e
    throw e

/-- Change the wording of an error. -/
def mapError {α : Type} (action : Action α) (change : RepositoryError → RepositoryError) : Action α :=
  tryCatch action fun e => throw (change e)

/-- Give some locks back in order. -/
def releaseAll : List LockName → Program Unit
  | [] => .done ()
  | lock :: rest => .release lock fun _ => releaseAll rest

/-- Take some locks alone, in order. If the context ends on the way, those taken so far are given back. -/
def acquireAll (taken : List LockName) : List LockName → Program (Option Cancellation)
  | [] => .done none
  | lock :: rest =>
    .acquire lock .exclusive fun
      | none => acquireAll (taken ++ [lock]) rest
      | some reason => (releaseAll taken).bind fun _ => .done (some reason)

/-- Do something while holding a lock. The lock is given back however it ends. -/
def withLock {α : Type} (lock : LockName) (mode : Mode) (body : Action α) : Action α :=
  ExceptT.mk (.acquire lock mode fun
    | some reason => .done (.error (.canceled reason))
    | none => body.run.bind fun outcome => .release lock fun _ => .done outcome)

/-- Do something while holding several containers alone. -/
def withContainers {α : Type} (ids : List String) (body : Action α) : Action α :=
  let locks := (lockOrder ids).map LockName.container
  ExceptT.mk ((acquireAll [] locks).bind fun
    | some reason => .done (.error (.canceled reason))
    | none => body.run.bind fun outcome => (releaseAll locks).bind fun _ => .done outcome)

/-- Do something while sharing a container. -/
def reading {α : Type} (id : String) (body : Action α) : Action α :=
  withLock (.container id) .shared body

/-- Do something while holding a container alone. -/
def writing {α : Type} (id : String) (body : Action α) : Action α :=
  withLock (.container id) .exclusive body

end Action

end Containment
