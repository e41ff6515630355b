/-
Module: Containment.Proofs.Store.Equivalence
Purpose: The store in memory and the store in a directory cannot be told apart by asking, even if the directory is
  written back and opened again whenever one likes. What is asked includes the questions that take several requests.
Main exports: StoreQuestion, Store.answer, StoreStep, StoreSession, StoreSession.exchanges, Directory.Shows.answer,
  StoreSession.onFiles_equivalent_inMemory
-/
import Containment.Proofs.Store.Directory
import Containment.Proofs.Store.Reopening
import Containment.Store.Basic

namespace Containment

open Cli Text

/-- What a store is asked: one request, the records of several identifiers, or the number of records. -/
inductive StoreQuestion where
  | call (call : StoreCall)
  | batch (ids : List String)
  | size

namespace StoreQuestion

/-- What a store answers to a question. -/
abbrev Answer : StoreQuestion → Type
  | .call c => c.Answer
  | .batch _ => List (Option Record)
  | .size => Nat

/-- The record that a question brings, if it brings one. -/
def record? : StoreQuestion → Option Record
  | .call c => c.record?
  | _ => none

end StoreQuestion

/-- The answer to a question, and the store after it. -/
def Store.answer (s : Store) : (question : StoreQuestion) → Except StoreError question.Answer × Store
  | .call c => s.perform c
  | .batch ids => (s.readBatch ids, s)
  | .size => (s.size, s)

/-- A question with its answer. -/
structure StoreExchange where
  question : StoreQuestion
  answer : Except StoreError question.Answer

/-- A step of a session: the store is asked something, or closed and opened again. -/
inductive StoreStep where
  | ask (question : StoreQuestion)
  | reopen

/-- The record that a step brings, if it brings one. -/
def StoreStep.record? : StoreStep → Option Record
  | .ask question => question.record?
  | .reopen => none

/-- A store at work, and the workspace that it was opened in. -/
structure StoreSession where
  workspace : Workspace
  store : Store

namespace StoreSession

/-- A session with the directory that the workspace has at a path. -/
def onFiles (ws : Workspace) (dir : String) : StoreSession :=
  { workspace := ws, store := .directory (ws.directory dir) }

/-- A session with a store in memory. -/
def inMemory (ws : Workspace) (m : MemoryStore) : StoreSession :=
  { workspace := ws, store := .memory m }

/-- Write the files of a directory back and open it again. A store in memory would be lost, so it is kept. -/
def reopen (s : StoreSession) : StoreSession :=
  match s.store with
  | .memory _ => s
  | .directory d => onFiles (s.workspace.setDirectory d) d.path

/-- What is answered in a session. -/
def exchanges : StoreSession → List StoreStep → List StoreExchange
  | _, [] => []
  | s, .ask question :: rest =>
    { question, answer := (s.store.answer question).1 } ::
      exchanges { s with store := (s.store.answer question).2 } rest
  | s, .reopen :: rest => exchanges s.reopen rest

end StoreSession

/-! ### Equal answers -/

section Answers

variable {d : Directory} {m : MemoryStore}

theorem Directory.Shows.isPlain (shows : d.Shows m) (name : String) (present : d.files.contains name = true) :
    Path.IsPlain name := by
  obtain ⟨id, rfl | rfl⟩ := shows.files name present
  · exact isPlain_recordFile id
  · exact isPlain_markerFile id

/-- A directory that is closed and opened again is what it was. -/
theorem Directory.Shows.reopen (shows : d.Shows m) (ws : Workspace) :
    (StoreSession.mk ws (.directory d)).reopen = ⟨ws.setDirectory d, .directory d⟩ := by
  change StoreSession.mk (ws.setDirectory d) (.directory ((ws.setDirectory d).directory d.path)) = _
  rw [ws.directory_setDirectory shows.isPlain]

/-- A directory answers as the store in memory whose records it shows, and goes on showing them. -/
theorem Directory.Shows.answer (shows : d.Shows m) {question : StoreQuestion}
    (storable : ∀ r ∈ question.record?, r.Storable) :
    ((Store.directory d).answer question).1 = ((Store.memory m).answer question).1 ∧
      ∃ d' m', ((Store.directory d).answer question).2 = .directory d' ∧
        ((Store.memory m).answer question).2 = .memory m' ∧ d'.Shows m' := by
  cases question with
  | call c =>
    have same := shows.perform storable
    exact ⟨same.1, _, _, rfl, rfl, same.2⟩
  | batch ids =>
    have read : (Store.directory d).read = (Store.memory m).read := funext fun id => shows.readFile id
    refine ⟨?_, d, m, rfl, rfl, shows⟩
    change (Store.directory d).readBatch ids = (Store.memory m).readBatch ids
    rw [Store.readBatch, Store.readBatch, read]
  | size =>
    refine ⟨?_, d, m, rfl, rfl, shows⟩
    exact congrArg (fun ids => Except.ok ids.length) shows.ids_eq

end Answers

/-- Sessions that begin with a directory and what it shows go on with equal answers. -/
theorem StoreSession.exchanges_eq {d : Directory} {m : MemoryStore} (shows : d.Shows m) (ws ws' : Workspace)
    {steps : List StoreStep} (storable : ∀ step ∈ steps, ∀ r ∈ step.record?, r.Storable) :
    (StoreSession.mk ws (.directory d)).exchanges steps = (StoreSession.mk ws' (.memory m)).exchanges steps := by
  induction steps generalizing ws d m with
  | nil => rfl
  | cons step rest ih =>
    have storableRest : ∀ other ∈ rest, ∀ r ∈ other.record?, r.Storable :=
      fun other mem => storable other (List.mem_cons_of_mem step mem)
    cases step with
    | ask question =>
      obtain ⟨same, d', m', left, right, showsNext⟩ := shows.answer (storable _ List.mem_cons_self)
      rw [exchanges, exchanges, same]
      simp only [left, right]
      rw [ih showsNext ws storableRest]
    | reopen =>
      rw [exchanges, exchanges, shows.reopen ws]
      exact ih shows (ws.setDirectory d) storableRest

/-- **The two kinds of store are equivalent.** Begin with an empty directory of any workspace and with an empty store in
memory, ask both the same questions in any order, with records that fit into files, and close and open the directory
between the questions as often as you like: the answers are equal, errors included. -/
theorem StoreSession.onFiles_equivalent_inMemory (ws ws' : Workspace) (dir : String)
    (fresh : (ws.directory dir).files = ∅) (steps : List StoreStep)
    (storable : ∀ step ∈ steps, ∀ r ∈ step.record?, r.Storable) :
    (onFiles ws dir).exchanges steps = (inMemory ws' {}).exchanges steps := by
  have empty : ws.directory dir = { path := dir } := congrArg (fun files => Directory.mk dir files) fresh
  rw [onFiles, inMemory, empty]
  exact exchanges_eq (Directory.shows_empty dir) ws ws' storable

/-- A record of an empty container. -/
def plainRecord (id : String) (revision : Nat) : Record where
  revision := revision
  container :=
    { id, parentId := "", type := .basic, members := [], metadata := ∅, createdAt := ⟨0, 0⟩, updatedAt := ⟨1, 500⟩ }

/-- Requests that are granted and requests that are refused, for one reason or another, with the directory closed and
opened again on the way. -/
def sampleSteps : List StoreStep :=
  [.ask (.call (.insert (plainRecord "b" 7))), .reopen, .ask (.call (.insert (plainRecord "b" 8))),
    .ask (.call (.insert (plainRecord "ä/.." 1))), .ask (.call (.update (plainRecord "b" 3) 6)), .reopen,
    .ask (.call (.update (plainRecord "b" 3) 7)), .ask (.call (.update (plainRecord "c" 3) 1)),
    .ask (.call (.retire "ä/..")), .ask (.call (.retire "")), .ask (.call .ids), .reopen,
    .ask (.call (.insert (plainRecord "ä/.." 1))), .ask (.batch ["b", "", "ä/.."]), .ask (.call (.delete "b")),
    .ask (.call (.insert (plainRecord "b" 2))), .ask (.call (.isRetired "b")), .ask (.call (.exists "b")), .ask .size]

theorem sampleSteps_equivalent :
    ((({} : Workspace).directory "store").files = ∅) ∧
      (∀ step ∈ sampleSteps, ∀ r ∈ step.record?, r.Storable) ∧
      (StoreSession.onFiles {} "store").exchanges sampleSteps = (StoreSession.inMemory {} {}).exchanges sampleSteps := by
  have fresh : (({} : Workspace).directory "store").files = ∅ := by rfl
  have storable : ∀ step ∈ sampleSteps, ∀ r ∈ step.record?, r.Storable := by decide +kernel
  exact ⟨fresh, storable, StoreSession.onFiles_equivalent_inMemory {} {} "store" fresh sampleSteps storable⟩

end Containment
