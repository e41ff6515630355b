/-
Module: Containment.Store.Memory
Purpose: A store that keeps its records in memory.
Main exports: MemoryStore, MemoryStore.perform
-/
import Containment.Store.Call

namespace Containment

/-- Records by identifier, and the identifiers that are reserved for ever. -/
structure MemoryStore where
  records : Std.ExtTreeMap String Record := ∅
  retired : Std.ExtTreeSet String := ∅
deriving Inhabited

namespace MemoryStore

/-- Store the first record of an identifier that is neither taken nor reserved. -/
def insert (s : MemoryStore) (record : Record) : Except StoreError Unit × MemoryStore :=
  if s.records.contains record.id || s.retired.contains record.id then
    (.error (.alreadyExists record.id), s)
  else (.ok (), { s with records := s.records.insert record.id record })

/-- Replace a record whose revision is the expected one. -/
def update (s : MemoryStore) (record : Record) (expected : Nat) :
    Except StoreError Unit × MemoryStore :=
  match s.records[record.id]? with
  | none => (.error (.notFound record.id), s)
  | some current =>
    if current.revision ≠ expected then
      (.error (.revisionMismatch record.id expected current.revision), s)
    else (.ok (), { s with records := s.records.insert record.id record })

/-- Remove a record; its identifier is free again. -/
def delete (s : MemoryStore) (id : String) : Bool × MemoryStore :=
  (s.records.contains id, { s with records := s.records.erase id })

/-- Remove a record and reserve its identifier. -/
def retire (s : MemoryStore) (id : String) : Bool × MemoryStore :=
  (s.records.contains id,
    { records := s.records.erase id, retired := s.retired.insert id })

/-- Answer a request. -/
def perform (s : MemoryStore) : (call : StoreCall) → Except StoreError call.Answer × MemoryStore
  | .read id => (.ok s.records[id]?, s)
  | .insert record => s.insert record
  | .update record expected => s.update record expected
  | .delete id => let (existed, s) := s.delete id; (.ok existed, s)
  | .retire id => let (existed, s) := s.retire id; (.ok existed, s)
  | .isRetired id => (.ok (s.retired.contains id), s)
  | .ids => (.ok s.records.keys, s)
  | .exists id => (.ok (s.records.contains id), s)

end MemoryStore

end Containment
