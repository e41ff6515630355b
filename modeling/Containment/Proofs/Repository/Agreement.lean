/-
Module: Containment.Proofs.Repository.Agreement
Purpose: The agreement of index and store as an onlooker sees it, by asking both. Behind it stands the contract of
  the index in memory: an index that agrees with the store is one that mirrors its membership lists.
Main exports: Holdings.Agrees, Index.SameRows, Holdings.Mirrored.agrees, Holdings.Agrees.mirrored
-/
import Containment.Proofs.Repository.IndexWrites

namespace Containment

/-- The same partitions, with the same members in the same order. The numbers of rows may differ. -/
structure Index.SameRows (ix ix' : Index) : Prop where
  partitions : ix'.partitions = ix.partitions
  rows : ∀ c, (ix'.rows c).map (List.map IndexEntry.toMember) = (ix.rows c).map (List.map IndexEntry.toMember)

namespace Holdings

/-- Index and store agree. The partitions belong to the stored containers, and the rows of each, in the order of
their numbers, repeat its membership list entry by entry. -/
structure Agrees (h : Holdings) : Prop where
  partitions : h.index.partitions = .ok h.store.records.keys
  rows : ∀ id r, h.store.records[id]? = some r → ∃ rows, h.index.rows id = .ok rows ∧
    (rows.Pairwise fun a b => a.seq < b.seq) ∧ rows.map IndexEntry.toMember = r.container.members

/-- The index is kept in memory and is in order, whatever it lists. -/
def Indexed (h : Holdings) : Prop :=
  ∃ lists, h.Lists lists

end Holdings

/-! ### What the lists of an index show -/

namespace Index

variable {ix ix' : Index} {lists : Listing}

theorem Lists.rows_missing (known : ix.Lists lists) {c : String} (absent : lists c = none) :
    ix.rows c = .error (.partitionNotFound c) := by
  obtain ⟨m, rfl, wf, rfl⟩ := known
  have missing : m.partitions[c]? = none := Option.map_eq_none_iff.1 absent
  change m.ask c (·.select {}) = _
  rw [MemoryIndex.ask, missing]

theorem Lists.rows_present (known : ix.Lists lists) {c : String} {members : List Member}
    (listed : lists c = some members) : ∃ rows, ix.rows c = .ok rows ∧
      (rows.Pairwise fun a b => a.seq < b.seq) ∧ rows.map IndexEntry.toMember = members := by
  obtain ⟨rows, asked, ordered, repeated⟩ := known.select listed
  exact ⟨rows, congrArg Prod.fst asked, ordered, repeated⟩

theorem Lists.partitions_shown (known : ix.Lists lists) :
    ∃ names, ix.partitions = .ok names ∧ names.Pairwise (compare · · = .lt) ∧ ∀ c, c ∈ names ↔ (lists c).isSome := by
  obtain ⟨names, asked, ordered, named⟩ := Lists.partitions known
  exact ⟨names, congrArg Prod.fst asked, ordered, named⟩

/-- Indexes with the same lists look the same. -/
theorem Lists.sameRows (known : ix.Lists lists) (known' : ix'.Lists lists) : ix.SameRows ix' := by
  constructor
  · obtain ⟨names, shown, ordered, mem⟩ := known.partitions_shown
    obtain ⟨names', shown', ordered', mem'⟩ := known'.partitions_shown
    have same : names' = names := eq_of_ordered id ordered' ordered fun id => (mem' id).trans (mem id).symm
    rw [shown, shown', same]
  · intro c
    cases listed : lists c with
    | none => rw [known.rows_missing listed, known'.rows_missing listed]
    | some members =>
      obtain ⟨rows, shown, -, repeated⟩ := known.rows_present listed
      obtain ⟨rows', shown', -, repeated'⟩ := known'.rows_present listed
      rw [shown, shown']
      change Except.ok (rows'.map IndexEntry.toMember) = Except.ok (rows.map IndexEntry.toMember)
      rw [repeated, repeated']

end Index

namespace Holdings

variable {h h' : Holdings}

theorem indexed_empty : Indexed {} :=
  ⟨_, Index.lists_empty⟩

theorem mirrored_empty : Mirrored {} := by
  change Index.empty.Lists ({} : MemoryStore).contents.listing
  rw [MemoryStore.contents_empty]
  exact Index.lists_empty

/-- The listing of a store is defined just where the store has a record. -/
theorem mem_keys_iff (S : MemoryStore) (id : String) : id ∈ S.records.keys ↔ (S.contents.listing id).isSome := by
  rw [Std.ExtTreeMap.mem_keys, ← Std.ExtTreeMap.contains_iff_mem, MemoryStore.contains_records, Contents.listing,
    Option.isSome_map]

/-- An index that mirrors the store agrees with it. -/
theorem Mirrored.agrees (mirrored : h.Mirrored) : h.Agrees := by
  constructor
  · obtain ⟨names, shown, ordered, mem⟩ := Index.Lists.partitions_shown mirrored
    have same : names = h.store.records.keys :=
      eq_of_ordered id ordered h.store.records.ordered_keys fun id => (mem id).trans (mem_keys_iff h.store id).symm
    rw [shown, same]
  · intro id r found
    have listed : h.store.contents.listing id = some r.container.members := by
      rw [Contents.listing, MemoryStore.contents_eq_some found]
      rfl
    exact Index.Lists.rows_present mirrored listed

/-- An index in order that agrees with the store mirrors it. -/
theorem Agrees.mirrored (agrees : h.Agrees) (indexed : h.Indexed) : h.Mirrored := by
  obtain ⟨lists, known⟩ := indexed
  apply known.congr
  funext id
  obtain ⟨names, shown, -, mem⟩ := Index.Lists.partitions_shown known
  have named : names = h.store.records.keys := Except.ok.inj (shown.symm.trans agrees.partitions)
  cases stored : h.store.records[id]? with
  | none =>
    have absent : h.store.contents.listing id = none := by
      rw [Contents.listing, MemoryStore.contents_eq_none stored]
      rfl
    rw [absent, ← Option.not_isSome_iff_eq_none]
    intro listed
    have key := (mem id).2 listed
    rw [named, mem_keys_iff, absent] at key
    cases key
  | some r =>
    have held : h.store.contents.listing id = some r.container.members := by
      rw [Contents.listing, MemoryStore.contents_eq_some stored]
      rfl
    have key : (lists id).isSome := by
      apply (mem id).1
      rw [named, mem_keys_iff, held]
      rfl
    obtain ⟨members, listed⟩ := Option.isSome_iff_exists.1 key
    obtain ⟨rows, shown, -, repeated⟩ := agrees.rows id r stored
    obtain ⟨rows', shown', -, repeated'⟩ := Index.Lists.rows_present known listed
    rw [shown'] at shown
    cases shown
    rw [listed, held, ← repeated, repeated']

/-! ### An index in memory stays in order, whatever is done -/

theorem Indexed.answers (indexed : h.Indexed) {request : Effect} {fails : List FaultPoint}
    {answer : request.Answer} (answers : h.Answers request fails answer h') : h'.Indexed := by
  cases request with
  | store call =>
    rcases answers with ⟨-, -, rfl⟩ | ⟨e, -, -, rfl⟩
    · exact indexed
    · exact indexed
  | index call =>
    rcases answers with ⟨-, -, rfl⟩ | ⟨e, -, -, rfl⟩
    · obtain ⟨lists, known⟩ := indexed
      exact Index.Lists.perform known call
    · exact indexed
  | readClock =>
    obtain ⟨-, rfl⟩ := answers
    exact indexed
  | drawId =>
    obtain ⟨-, rfl⟩ := answers
    exact indexed
  | publish events =>
    obtain ⟨-, rfl⟩ := answers
    exact indexed

theorem Indexed.runs {α : Type} {p : Program α} {fails : List FaultPoint} {value : α} (indexed : h.Indexed)
    (run : p.Runs h fails value h') : h'.Indexed := by
  induction p generalizing h fails with
  | done a =>
    obtain ⟨-, -, rfl⟩ := run
    exact indexed
  | effect request next ih =>
    obtain ⟨now, later, answer, h₁, answers, run, -⟩ := run
    exact ih answer (indexed.answers answers) run
  | check next ih =>
    obtain ⟨status, run⟩ := run
    exact ih status indexed run
  | acquire lock mode next ih =>
    obtain ⟨status, run⟩ := run
    exact ih status indexed run
  | release lock next ih => exact ih () indexed run

end Holdings

end Containment
