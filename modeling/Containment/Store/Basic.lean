/-
Module: Containment.Store.Basic
Purpose: A store of records of either kind, and the questions that are answered by several requests.
Main exports: Store, Store.perform, Store.readBatch, Store.size
-/
import Containment.Store.Directory
import Containment.Store.Memory

namespace Containment

/-- A store of records. -/
inductive Store where
  | memory (store : MemoryStore)
  | directory (files : Directory)

namespace Store

/-- A store without records, in memory. -/
def empty : Store := .memory {}

instance : Inhabited Store := ⟨empty⟩

/-- Answer a request. -/
def perform (s : Store) (call : StoreCall) : Except StoreError call.Answer × Store :=
  match s with
  | .memory m => let (answer, m) := m.perform call; (answer, .memory m)
  | .directory d => let (answer, d) := d.perform call; (answer, .directory d)

/-- The record of an identifier. -/
def read (s : Store) (id : String) : Except StoreError (Option Record) :=
  (s.perform (.read id)).1

/-- All identifiers with a record, in order. -/
def ids (s : Store) : Except StoreError (List String) :=
  (s.perform .ids).1

/-- The records of several identifiers; the first that cannot be read is reported. -/
def readBatch (s : Store) (ids : List String) : Except StoreError (List (Option Record)) :=
  ids.mapM s.read

/-- The number of records. -/
def size (s : Store) : Except StoreError Nat :=
  s.ids.map List.length

end Store

end Containment
