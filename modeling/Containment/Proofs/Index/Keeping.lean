/-
Module: Containment.Proofs.Index.Keeping
Purpose: What an index of either kind keeps for each container with a partition: rows in the order of their
  numbers. Both kinds answer questions about these rows in the same way, and insertions and removals leave every
  partition in place, also those that fail for want of a number or of a time that a database can hold.
Main exports: Index.Keeps, Index.Keeps.ordered, Index.Keeps.select, Index.Keeps.selectAfter, Index.Keeps.count,
  Index.Keeps.insert, Index.Keeps.remove
-/
import Containment.Index.Basic
import Containment.Proofs.Index.MemoryCatalogue
import Containment.Proofs.Index.TableCatalogue

namespace Containment

open Time

namespace Catalogue

variable {held : Catalogue} {last : Nat}

/-- Insertions and removals neither start partitions nor drop them. -/
theorem contains_insert_of_present {c : String} {rows rows' : List IndexEntry} (found : held[c]? = some rows)
    (d : String) : (held.insert c rows' : Catalogue).contains d = held.contains d := by
  rw [Std.ExtTreeMap.contains_insert]
  by_cases same : c = d
  · rw [← same, Std.ExtTreeMap.contains_eq_isSome_getElem?, found, Option.isSome_some, Bool.or_true]
  · simp [same]

theorem contains_perform_insert (held : Catalogue) (last : Nat) (c : String) (m : Member) (d : String) :
    (held.perform last (.insert c m)).2.contains d = held.contains d := by
  simp only [perform]
  cases found : held[c]? with
  | none => rfl
  | some rows =>
    by_cases listed : m.id ∈ rows.map IndexEntry.memberId
    · simp only [if_pos listed]
    · simp only [if_neg listed]
      exact contains_insert_of_present found d

theorem contains_perform_remove (held : Catalogue) (last : Nat) (c id d : String) :
    (held.perform last (.remove c id)).2.contains d = held.contains d := by
  simp only [perform]
  cases found : held[c]? with
  | none => rfl
  | some rows => exact contains_insert_of_present found d

end Catalogue

/-! ### Rows in a database -/

namespace TableIndex

variable {t : TableIndex} {last : Nat} {held : Catalogue} {c : String} {m : Member}

theorem Shows.ordered (known : t.Shows last held) {rows : List IndexEntry} (found : held[c]? = some rows) :
    rows.Pairwise fun a b => a.seq < b.seq := by
  have values : t.rows.values.Pairwise fun a b => a.seq < b.seq := by
    rw [values_eq_map_snd_toList, List.pairwise_map]
    apply t.rows.ordered_keys_toList.imp_of_mem
    intro a b memA memB less
    rw [(known.row a.1 a.2 (Std.ExtTreeMap.mem_toList_iff_getElem?_eq_some.1 memA)).1,
      (known.row b.1 b.2 (Std.ExtTreeMap.mem_toList_iff_getElem?_eq_some.1 memB)).1]
    exact compare_lt_iff_lt.1 less
  have own : (t.rowsOf c).Pairwise fun a b => a.seq < b.seq := List.Pairwise.filter _ values
  rw [known.listed, found, Option.getD_some, List.pairwise_map] at own
  apply own.imp
  intro a b less
  exact Int.ofNat_lt.1 less

/-- A transaction that fails leaves the database as it was. -/
theorem commit_snd_of_error {α : Type} {outcome : Except IndexError (α × TableIndex)} {e : IndexError}
    (failed : (t.commit outcome).1 = .error e) : (t.commit outcome).2 = t := by
  cases outcome with
  | ok done => cases failed
  | error e' => rfl

/-- A database keeps the time of a member in whole milliseconds. -/
theorem insertRow_floorMillis (t : TableIndex) (c : String) (m : Member) :
    t.insertRow c m = t.insertRow c { m with addedAt := m.addedAt.floorMillis } := by
  have row : ∀ seq, TableRow.ofMember c m seq =
      TableRow.ofMember c { m with addedAt := m.addedAt.floorMillis } seq := by
    intro seq
    simp only [TableRow.ofMember, Instant.floorMillis, Instant.toMillis_ofMillis]
  simp only [insertRow, row]

theorem perform_insert_floorMillis (t : TableIndex) (c : String) (m : Member) :
    t.perform (.insert c m) = t.perform (.insert c { m with addedAt := m.addedAt.floorMillis }) := by
  simp only [perform, insertRow_floorMillis t c m]

/-- A time out of the supported range is refused when its row is read back. -/
theorem insertRow_of_out_of_range (t : TableIndex) (c : String)
    (far : Instant.ofMillis? m.addedAt.toMillis = none) : ∃ e, t.insertRow c m = .error e := by
  have unreadable : ∃ e, (TableRow.ofMember c m t.nextSeq).decode = .error e := by
    simp only [TableRow.decode, TableRow.ofMember, MemberType.parse_name, far]
    exact ⟨_, rfl⟩
  obtain ⟨e, unreadable⟩ := unreadable
  simp only [insertRow, unreadable]
  split
  · exact ⟨_, rfl⟩
  · split
    · exact ⟨_, rfl⟩
    · exact ⟨_, rfl⟩

theorem perform_insert_of_out_of_range (t : TableIndex) (c : String)
    (far : Instant.ofMillis? m.addedAt.toMillis = none) : ∃ e, (t.perform (.insert c m)).1 = .error e := by
  obtain ⟨e, refused⟩ := t.insertRow_of_out_of_range c far
  simp only [perform, ask, refused]
  split
  · exact ⟨_, rfl⟩
  · exact ⟨_, rfl⟩

end TableIndex

/-! ### An index of either kind -/

/-- The rows that an index keeps for each container with a partition. -/
inductive Index.Keeps : Index → Catalogue → Prop where
  | memory {m : MemoryIndex} (wellFormed : m.WellFormed) : Keeps (.memory m) m.catalogue
  | table {t : TableIndex} {last : Nat} {held : Catalogue} (shows : t.Shows last held)
      (fits : held.Fits (fun member => member.addedAt.IsWhole) last) : Keeps (.table t) held

namespace Index

variable {ix : Index} {held : Catalogue} {c : String}

theorem Keeps.ordered (keeps : ix.Keeps held) {rows : List IndexEntry} (found : held[c]? = some rows) :
    rows.Pairwise fun a b => a.seq < b.seq := by
  cases keeps with
  | memory wf =>
    rw [MemoryIndex.getElem?_catalogue] at found
    obtain ⟨p, there, rfl⟩ := Option.map_eq_some_iff.1 found
    exact (wf c p there).entries_sorted
  | table shows fits => exact shows.ordered found

theorem Keeps.select (keeps : ix.Keeps held) {rows : List IndexEntry} (found : held[c]? = some rows)
    (query : IndexQuery) : ix.perform (.select c query) = (.ok (query.answer rows), ix) := by
  cases keeps with
  | @memory m wf =>
    have asked := MemoryIndex.perform_catalogue wf (.select c query)
    have answer := congrArg Prod.fst asked
    simp only [Catalogue.perform, Catalogue.ask, found] at answer
    exact Prod.ext answer.symm rfl
  | table shows fits =>
    rw [Index.perform, shows.select fits]
    simp only [Catalogue.perform, Catalogue.ask, found]

theorem Keeps.selectAfter (keeps : ix.Keeps held) {rows : List IndexEntry} (found : held[c]? = some rows)
    (after limit : Nat) (type : Option MemberType) :
    ix.perform (.selectAfter c after limit type) = (.ok (IndexEntry.following after limit type rows), ix) := by
  cases keeps with
  | @memory m wf =>
    have asked := MemoryIndex.perform_catalogue wf (.selectAfter c after limit type)
    have answer := congrArg Prod.fst asked
    simp only [Catalogue.perform, Catalogue.ask, found] at answer
    exact Prod.ext answer.symm rfl
  | table shows fits =>
    rw [Index.perform, shows.selectAfter fits]
    simp only [Catalogue.perform, Catalogue.ask, found]

theorem Keeps.count (keeps : ix.Keeps held) {rows : List IndexEntry} (found : held[c]? = some rows)
    (type : Option MemberType) :
    ix.perform (.count c type) = (.ok (rows.countP fun row => typePasses type row.type), ix) := by
  cases keeps with
  | @memory m wf =>
    have answer := congrArg Prod.fst (MemoryIndex.perform_catalogue wf (.count c type))
    simp only [Catalogue.perform, Catalogue.ask, found] at answer
    exact Prod.ext answer.symm rfl
  | table shows fits =>
    rw [Index.perform, shows.count]
    simp only [Catalogue.perform, Catalogue.ask, found]

/-- All rows of a container, asked for at once. -/
theorem Keeps.rows (keeps : ix.Keeps held) {rows : List IndexEntry} (found : held[c]? = some rows) :
    ix.rows c = .ok rows := by
  have all : ({} : IndexQuery).answer rows = rows := by
    simp [IndexQuery.answer, IndexQuery.window, SortOrder.arrange, IndexQuery.accepts, typePasses]
  rw [Index.rows, keeps.select found, all]

theorem Keeps.insert (keeps : ix.Keeps held) (c : String) (m : Member) :
    ∃ held', (ix.perform (.insert c m)).2.Keeps held' ∧ ∀ d, held'.contains d = held.contains d := by
  cases keeps with
  | @memory mem wf =>
    have performed := congrArg Prod.snd (MemoryIndex.perform_catalogue wf (.insert c m))
    refine ⟨(mem.perform (.insert c m)).2.catalogue, ?_, ?_⟩
    · exact Keeps.memory (MemoryIndex.perform_wellFormed wf (.insert c m))
    · intro d
      exact (congrArg (·.contains d) performed).symm.trans (mem.catalogue.contains_perform_insert mem.lastSeq c m d)
  | @table t last _ shows fits =>
    have unchanged : ∀ e, (t.perform (.insert c m)).1 = .error e →
        ∃ held', ((Index.table t).perform (.insert c m)).2.Keeps held' ∧ ∀ d, held'.contains d = held.contains d := by
      intro e failed
      have same : (t.perform (.insert c m)).2 = t := TableIndex.commit_snd_of_error failed
      refine ⟨held, ?_, fun d => rfl⟩
      change (Index.table (t.perform (.insert c m)).2).Keeps held
      rw [same]
      exact Keeps.table shows fits
    cases far : Instant.ofMillis? m.addedAt.toMillis with
    | none =>
      obtain ⟨e, failed⟩ := TableIndex.perform_insert_of_out_of_range t c far
      exact unchanged e failed
    | some time =>
      have floor : time = m.addedAt.floorMillis := by
        rw [Instant.ofMillis?] at far
        split at far
        · exact (Option.some.inj far).symm
        · cases far
      have whole : m.addedAt.floorMillis.IsWhole := ⟨m.addedAt.toMillis, floor ▸ far⟩
      rcases shows.insert c (m := { m with addedAt := m.addedAt.floorMillis }) whole with exhausts | meets
      · apply unchanged (.database .full)
        rw [TableIndex.perform_insert_floorMillis]
        exact exhausts.refused
      · rw [Index.perform, TableIndex.perform_insert_floorMillis]
        refine ⟨_, Keeps.table meets.shows (fits.perform _ ?_), held.contains_perform_insert last c _⟩
        intro member mem
        rw [List.mem_singleton.1 mem]
        exact whole

theorem Keeps.remove (keeps : ix.Keeps held) (c id : String) :
    ∃ held', (ix.perform (.remove c id)).2.Keeps held' ∧ ∀ d, held'.contains d = held.contains d := by
  cases keeps with
  | @memory mem wf =>
    have performed := congrArg Prod.snd (MemoryIndex.perform_catalogue wf (.remove c id))
    refine ⟨(mem.perform (.remove c id)).2.catalogue, ?_, ?_⟩
    · exact Keeps.memory (MemoryIndex.perform_wellFormed wf (.remove c id))
    · intro d
      exact (congrArg (·.contains d) performed).symm.trans (mem.catalogue.contains_perform_remove mem.lastSeq c id d)
  | @table t last _ shows fits =>
    refine ⟨_, Keeps.table (shows.remove c id).shows (fits.perform _ ?_), held.contains_perform_remove last c id⟩
    intro member impossible
    cases impossible

end Index

end Containment
