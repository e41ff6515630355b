/-
Module: Containment.Proofs.Store.Contents
Purpose: What the store in memory holds, without revisions: the lasting state of each stored container. Calls
  that fail half-way may use up revisions, so this is what they have to leave as it was.
Main exports: Contents, Contents.Sane, MemoryStore.contents, MemoryStore.put, MemoryStore.SameContents
-/
import Containment.Proofs.Container.Rules
import Containment.Proofs.Index.Listing
import Containment.Store.Memory

namespace Containment

open Function (update update_apply update_self update_of_ne)

/-- The lasting state of each stored container. -/
abbrev Contents := String → Option Snapshot

/-- The parent of each stored container; roots have the empty identifier for one. -/
abbrev Shape := String → Option String

namespace Contents

/-- The membership list of each stored container. -/
def listing (C : Contents) : Listing :=
  fun id => (C id).map Snapshot.members

/-- The parent of each stored container. -/
def shape (C : Contents) : Shape :=
  fun id => (C id).map Snapshot.parentId

/-- Every container is stored under its own identifier and keeps the rules of containers. -/
def Sane (C : Contents) : Prop :=
  ∀ id s, C id = some s → s.id = id ∧ s.Valid

variable {C : Contents}

@[simp]
theorem listing_update (id : String) (s : Option Snapshot) :
    listing (update C id s) = update C.listing id (s.map Snapshot.members) := by
  funext other
  simp only [listing, update_apply]
  split <;> rfl

@[simp]
theorem shape_update (id : String) (s : Option Snapshot) :
    shape (update C id s) = update C.shape id (s.map Snapshot.parentId) := by
  funext other
  simp only [shape, update_apply]
  split <;> rfl

theorem Sane.put (sane : C.Sane) {s : Snapshot} (valid : s.Valid) : Sane (update C s.id (some s)) := by
  intro id t found
  rw [update_apply] at found
  split at found
  · rename_i same
    cases found
    exact ⟨same.symm, valid⟩
  · exact sane id t found

theorem Sane.drop (sane : C.Sane) (id : String) : Sane (update C id none) := by
  intro other t found
  rw [update_apply] at found
  split at found
  · cases found
  · exact sane other t found

end Contents

namespace MemoryStore

variable {S : MemoryStore}

/-- The lasting state of each stored container. -/
def contents (S : MemoryStore) : Contents :=
  fun id => S.records[id]?.map Record.container

/-- The store with another record under its own identifier. -/
def put (S : MemoryStore) (r : Record) : MemoryStore :=
  { S with records := S.records.insert r.id r }

/-- The store without the record of an identifier that is never used again. -/
def retiring (S : MemoryStore) (id : String) : MemoryStore :=
  { records := S.records.erase id, retired := S.retired.insert id }

/-- Two stores that differ in revisions at most. -/
structure SameContents (S S' : MemoryStore) : Prop where
  contents : S'.contents = S.contents
  retired : S'.retired = S.retired

theorem SameContents.refl (S : MemoryStore) : S.SameContents S :=
  ⟨rfl, rfl⟩

theorem contents_eq_some {id : String} {r : Record} (found : S.records[id]? = some r) :
    S.contents id = some r.container := by
  rw [contents, found]
  rfl

theorem isSome_contents {id : String} {r : Record} (found : S.records[id]? = some r) : (S.contents id).isSome :=
  Option.isSome_of_mem (contents_eq_some found)

theorem shape_eq_some {id : String} {r : Record} (found : S.records[id]? = some r) :
    S.contents.shape id = some r.container.parentId := by
  rw [Contents.shape, contents_eq_some found]
  rfl

theorem contents_eq_none {id : String} (absent : S.records[id]? = none) : S.contents id = none := by
  rw [contents, absent]
  rfl

theorem contents_eq_some_iff {id : String} {s : Snapshot} :
    S.contents id = some s ↔ ∃ r, S.records[id]? = some r ∧ r.container = s :=
  Option.map_eq_some_iff

theorem contents_empty : ({} : MemoryStore).contents = fun _ => none := by
  funext id
  simp [contents]

theorem sane_empty : ({} : MemoryStore).contents.Sane := by
  rw [contents_empty]
  intro id s found
  cases found

theorem records_put (r : Record) (id : String) :
    (S.put r).records[id]? = if r.id = id then some r else S.records[id]? := by
  simp only [put, Std.ExtTreeMap.getElem?_insert, Std.LawfulEqCmp.compare_eq_iff_eq]

theorem records_put_self (r : Record) : (S.put r).records[r.id]? = some r := by
  rw [records_put, if_pos rfl]

theorem records_put_of_ne {r : Record} {id : String} (ne : r.id ≠ id) :
    (S.put r).records[id]? = S.records[id]? := by
  rw [records_put, if_neg ne]

@[simp]
theorem contents_put (r : Record) : (S.put r).contents = Function.update S.contents r.id (some r.container) := by
  funext id
  rw [contents, records_put, update_apply]
  by_cases same : r.id = id
  · rw [if_pos same, if_pos same.symm]
    rfl
  · rw [if_neg same, if_neg (Ne.symm same)]
    rfl

theorem records_retiring (gone id : String) :
    (S.retiring gone).records[id]? = if gone = id then none else S.records[id]? := by
  simp only [retiring, Std.ExtTreeMap.getElem?_erase, Std.LawfulEqCmp.compare_eq_iff_eq]

@[simp]
theorem contents_retiring (gone : String) :
    (S.retiring gone).contents = Function.update S.contents gone none := by
  funext id
  rw [contents, records_retiring, update_apply]
  by_cases same : gone = id
  · rw [if_pos same, if_pos same.symm]
    rfl
  · rw [if_neg same, if_neg (Ne.symm same)]
    rfl

theorem contains_records {id : String} : S.records.contains id = (S.contents id).isSome := by
  rw [Std.ExtTreeMap.contains_eq_isSome_getElem?, contents, Option.isSome_map]

/-! ### Requests -/

/-- A writer who knows the current revision is never refused. -/
theorem perform_update {next current : Record} {expected : Nat}
    (found : S.records[next.id]? = some current) (revision : current.revision = expected) :
    S.perform (.update next expected) = (.ok (), S.put next) := by
  change S.update next expected = _
  rw [update, found]
  simp only [revision, ne_eq, not_true_eq_false, if_false]
  rfl

/-- A first record is taken if its identifier is neither in use nor reserved. -/
theorem perform_insert {r : Record} (absent : S.contents r.id = none) (fresh : S.retired.contains r.id = false) :
    S.perform (.insert r) = (.ok (), S.put r) := by
  change S.insert r = _
  rw [insert, contains_records, absent, fresh]
  rfl

/-- A first record is taken if its identifier is free, and refused without any change otherwise. -/
theorem insert_cases (S : MemoryStore) (r : Record) :
    (S.records[r.id]? = none ∧ S.retired.contains r.id = false ∧ S.perform (.insert r) = (.ok (), S.put r)) ∨
      ∃ e, S.perform (.insert r) = (.error e, S) := by
  change _ ∨ ∃ e, S.insert r = (.error e, S)
  by_cases taken : (S.records.contains r.id || S.retired.contains r.id) = true
  · exact .inr ⟨_, if_pos taken⟩
  · rw [Bool.or_eq_true, not_or] at taken
    have absent : S.records[r.id]? = none :=
      Std.ExtTreeMap.getElem?_eq_none fun mem => taken.1 (Std.ExtTreeMap.mem_iff_contains.1 mem)
    have alive : S.retired.contains r.id = false := Bool.eq_false_of_not_eq_true taken.2
    exact .inl ⟨absent, alive, perform_insert (contents_eq_none absent) alive⟩

/-- A record is replaced if the one that is stored has the expected revision, and kept as it is otherwise. -/
theorem update_cases (S : MemoryStore) (r : Record) (expected : Nat) :
    (∃ current, S.records[r.id]? = some current ∧ current.revision = expected ∧
        S.perform (.update r expected) = (.ok (), S.put r)) ∨
      (∀ current, S.records[r.id]? = some current → current.revision ≠ expected) ∧
        ∃ e, S.perform (.update r expected) = (.error e, S) := by
  change _ ∨ _ ∧ ∃ e, S.update r expected = (.error e, S)
  cases found : S.records[r.id]? with
  | none =>
    refine .inr ⟨nofun, .notFound r.id, ?_⟩
    rw [MemoryStore.update, found]
  | some current =>
    by_cases same : current.revision = expected
    · exact .inl ⟨current, rfl, same, perform_update found same⟩
    · refine .inr ⟨fun _ h => Option.some.inj h ▸ same, .revisionMismatch r.id expected current.revision, ?_⟩
      rw [MemoryStore.update, found]
      exact if_pos same

/-- A store that refuses a request stays as it is. -/
theorem perform_error {call : StoreCall} {e : StoreError} (refused : (S.perform call).1 = .error e) :
    (S.perform call).2 = S := by
  cases call with
  | read | isRetired | ids | «exists» => rfl
  | delete | retire => cases refused
  | insert record =>
    rcases S.insert_cases record with ⟨-, -, done⟩ | ⟨e', kept⟩
    · rw [done] at refused
      cases refused
    · rw [kept]
  | update record expected =>
    rcases S.update_cases record expected with ⟨-, -, -, done⟩ | ⟨-, e', kept⟩
    · rw [done] at refused
      cases refused
    · rw [kept]

theorem perform_retire (id : String) :
    S.perform (.retire id) = (.ok (S.contents id).isSome, S.retiring id) := by
  change (Except.ok (S.records.contains id), _) = _
  rw [contains_records]
  rfl

/-- What was put under an unused identifier can be taken away again without a trace. -/
theorem sameContents_delete_put {r : Record} (absent : S.contents r.id = none) :
    S.SameContents ((S.put r).perform (.delete r.id)).2 := by
  refine ⟨?_, rfl⟩
  funext id
  change ((S.records.insert r.id r).erase r.id)[id]?.map Record.container = S.contents id
  rw [Std.ExtTreeMap.getElem?_erase, Std.ExtTreeMap.getElem?_insert]
  simp only [Std.LawfulEqCmp.compare_eq_iff_eq]
  split
  · rename_i same
    rw [← same, absent]
    rfl
  · rfl

end MemoryStore

/-- In a sane store a record is found under its own identifier, and its container keeps the rules. -/
theorem Contents.Sane.record {S : MemoryStore} (sane : S.contents.Sane) {id : String} {r : Record}
    (found : S.records[id]? = some r) : r.id = id ∧ r.container.Valid :=
  sane id r.container (MemoryStore.contents_eq_some found)

end Containment
