/-
Module: Containment.Proofs.Repository.Restoring
Purpose: A damaged table among stored containers. Writing the index anew puts it right, whatever its rows were, because no
  row is read on the way. A comparison does read: it comes to an end just if every row of a stored container stands for an
  entry, and otherwise it fails at one that does not and leaves everything as it was.
Main exports: Index.RepeatsFloored, Repository.exists_restored, Repository.exists_fails_rebuildAll,
  Repository.succeeds_verify_table, Repository.exists_declines_verify
-/
import Containment.Proofs.Index.Damage
import Containment.Proofs.Repository.Rewriting

namespace Containment

open Time

/-- The partitions belong to the stored containers, and the rows of each, in the order of their numbers, repeat its members,
with their times in whole milliseconds. -/
structure Index.RepeatsFloored (ix : Index) (S : MemoryStore) : Prop where
  partitions : ix.partitions = .ok S.records.keys
  rows : ∀ id r, S.records[id]? = some r → ∃ rows, ix.rows id = .ok rows ∧
    (rows.Pairwise fun a b => a.seq < b.seq) ∧ rows.map IndexEntry.toMember = r.container.members.map Member.floored

theorem Index.RepeatsFloored.repeatsKinds {ix : Index} {S : MemoryStore} (repeats : ix.RepeatsFloored S) :
    ix.RepeatsKinds S := by
  constructor
  · exact repeats.partitions
  · intro id r stored
    obtain ⟨rows, shown, ordered, repeated⟩ := repeats.rows id r stored
    have kinds := congrArg (List.map Member.kind) repeated
    rw [List.map_map, List.map_map] at kinds
    exact ⟨rows, shown, ordered, kinds⟩

namespace TableIndex

variable {S : MemoryStore} {t : TableIndex} {last : Nat} {c : String}

/-! ### What the index shows -/

theorem perform_select (t : TableIndex) (c : String) :
    t.perform (.select c {}) = (t.ask c ((t.rowsOf c).mapM TableRow.decode), t) := by
  have all : (t.rowsOf c).filter (TableRow.hasType none) = t.rowsOf c :=
    List.filter_eq_self.2 fun _ _ => rfl
  simp only [perform, sorted, all, IndexQuery.window, List.drop_zero]

theorem select_of_present (there : t.partitions.contains c = true) :
    (Index.table t).perform (.select c {}) = ((t.rowsOf c).mapM TableRow.decode, .table t) := by
  simp only [Index.perform, perform_select, ask, if_pos there]

theorem rows_of_present (there : t.partitions.contains c = true) :
    (Index.table t).rows c = (t.rowsOf c).mapM TableRow.decode :=
  congrArg Prod.fst (select_of_present there)

theorem rows_of_absent (absent : t.partitions.contains c = false) :
    (Index.table t).rows c = .error (.partitionNotFound c) := by
  change (t.perform (.select c {})).1 = _
  rw [perform_select, ask, absent]
  rfl

theorem hasPartition_table (t : TableIndex) (c : String) :
    (Index.table t).perform (.hasPartition c) = (.ok (t.partitions.contains c), .table t) :=
  rfl

/-- The index has the partitions of the stored containers if it has them one by one. -/
theorem partitions_eq_keys (same : ∀ c, t.partitions.contains c = S.records.contains c) :
    (Index.table t).partitions = .ok S.records.keys := by
  apply congrArg Except.ok
  apply eq_of_ordered id t.partitions.ordered_toList S.records.ordered_keys
  intro c
  rw [Std.ExtTreeSet.mem_toList, Std.ExtTreeMap.mem_keys, ← Std.ExtTreeSet.contains_iff_mem,
    ← Std.ExtTreeMap.contains_iff_mem, same]

/-! ### Writing the index anew -/

/-- New partitions for stored containers are granted, as long as there are numbers for their members. -/
theorem Numbered.exists_renews (valid : ∀ (id : String) (r : Record), S.records[id]? = some r → r.container.Valid)
    (told : ∀ (id : String) (r : Record), S.records[id]? = some r →
      ∀ m ∈ r.container.members, m.IsTellable)
    (numbered : t.Numbered last) (ids : List String) (stored : ∀ id ∈ ids, id ∈ S.records)
    (room : ((last + (ids.map fun id => (S.contents.listing id).elim 0 List.length).sum : Nat) : Int) ≤ maxSeq) :
    ∃ (t' : TableIndex) (last' : Nat), (Index.table t).Renews S ids (.table t') ∧ t'.Numbered last' ∧
      t.Rewritten S.contents.listing ids t' := by
  -- By induction on the containers, each of which takes as many of the numbers as it has members.
  induction ids generalizing t last with
  | nil => exact ⟨t, last, .done _, numbered, .refl t _⟩
  | cons id rest ih =>
    have here := stored id List.mem_cons_self
    rw [Std.ExtTreeMap.mem_iff_isSome_getElem?, Option.isSome_iff_exists] at here
    obtain ⟨r, found⟩ := here
    have meant := Repository.listing_of_stored found
    rw [List.map_cons, List.sum_cons, meant, Option.elim_some] at room
    obtain ⟨t₁, replaced, numbered₁, first⟩ := numbered.exists_replacePartition (valid id r found).nodup
      (told id r found) (by omega) meant
    have granted : (Index.table t).perform (.replacePartition id r.container.members) = (.ok (), .table t₁) := by
      simp only [Index.perform, replaced]
    obtain ⟨t', last', renews, numbered', others⟩ := ih numbered₁
      (fun other mem => stored other (List.mem_cons_of_mem id mem)) (by omega)
    exact ⟨t', last', .next found granted renews, numbered', first.cons others⟩

/-- Partitions without a container are there until they are dropped. -/
theorem Numbered.exists_sheds (numbered : t.Numbered last) {partitions : List String}
    (absent : ∀ id ∈ partitions, S.records[id]? = none) (there : ∀ id ∈ partitions, t.partitions.contains id = true)
    (nodup : partitions.Nodup) :
    ∃ t' : TableIndex, (Index.table t).Sheds S partitions (.table t') ∧ t'.Numbered last ∧
      t.Rewritten S.contents.listing partitions t' := by
  induction partitions generalizing t with
  | nil => exact ⟨t, .done _, numbered, .refl t _⟩
  | cons id rest ih =>
    obtain ⟨outside, nodup⟩ := List.nodup_cons.1 nodup
    have unknown := absent id List.mem_cons_self
    obtain ⟨t₁, dropped, numbered₁, first⟩ :=
      numbered.exists_dropPartition (there id List.mem_cons_self) (Repository.listing_of_absent unknown)
    have granted : (Index.table t).perform (.dropPartition id) = (.ok true, .table t₁) := by
      simp only [Index.perform, dropped]
    have still : ∀ other ∈ rest, t₁.partitions.contains other = true := by
      intro other mem
      rw [first.partitions other fun same => outside (List.mem_singleton.1 same ▸ mem)]
      exact there other (List.mem_cons_of_mem id mem)
    obtain ⟨t', sheds, numbered', others⟩ :=
      ih numbered₁ (fun other mem => absent other (List.mem_cons_of_mem id mem)) still nodup
    exact ⟨t', .next unknown granted sheds, numbered', first.cons others⟩

/-- A table that carries what is stored repeats it. -/
theorem Numbered.repeats (numbered : t.Numbered last) (carries : ∀ c, t.Carries c (S.contents.listing c)) :
    (Index.table t).RepeatsFloored S := by
  constructor
  · apply partitions_eq_keys
    intro c
    have carried := carries c
    rw [Std.ExtTreeMap.contains_eq_isSome_getElem?]
    cases stored : S.records[c]? with
    | none =>
      rw [Repository.listing_of_absent stored] at carried
      exact carried
    | some r =>
      rw [Repository.listing_of_stored stored] at carried
      exact carried.1
  · intro id r stored
    have carried := carries id
    rw [Repository.listing_of_stored stored] at carried
    obtain ⟨there, entries, held, whole, repeated⟩ := carried
    have ordered := numbered.ordered id
    rw [held, List.pairwise_map] at ordered
    refine ⟨entries, ?_, ordered.imp Int.ofNat_lt.1, repeated⟩
    rw [rows_of_present there, held, TableRow.mapM_decode whole]

/-! ### Reading the rows of stored containers -/

theorem legible (stand : ∀ row ∈ t.rowsOf c, row.Stands) : (Index.table t).Legible c := by
  by_cases there : t.partitions.contains c = true
  · rcases TableRow.mapM_decode_cases (t.rowsOf c) with ⟨row, mem, fault, failed, -⟩ | ⟨-, entries, read, -, -⟩
    · have stands := stand row mem
      rw [TableRow.Stands, failed] at stands
      cases stands
    · refine .inl ⟨entries, ?_, ?_⟩
      · rw [hasPartition_table, there]
      · rw [select_of_present there, read]
  · have absent := Bool.not_eq_true _ ▸ there
    exact .inr ⟨by rw [hasPartition_table, absent], _, rows_of_absent absent⟩

/-- Rows that can be read are in the order of their numbers, and no member has two of them. -/
theorem Permitted.of_rows (permitted : t.Permitted last) {entries : List IndexEntry}
    (shown : (Index.table t).rows c = .ok entries) : t.partitions.contains c = true ∧
      (entries.map IndexEntry.memberId).Nodup ∧ entries.Pairwise fun a b => a.seq < b.seq := by
  by_cases there : t.partitions.contains c = true
  · rw [rows_of_present there] at shown
    rcases TableRow.mapM_decode_cases (t.rowsOf c) with ⟨_, -, _, -, failed⟩ | ⟨-, read, told, members, numbers⟩
    · rw [failed] at shown
      cases shown
    · rw [shown] at told
      cases told
      have distinct := permitted.unique c
      have ordered := List.pairwise_map.2 (permitted.ordered c)
      rw [← members] at distinct
      rw [← numbers, List.pairwise_map] at ordered
      exact ⟨there, distinct, ordered.imp Int.ofNat_lt.1⟩
  · rw [rows_of_absent (Bool.not_eq_true _ ▸ there)] at shown
    cases shown

/-- Nothing is found only if the table repeats what is stored. -/
theorem Permitted.repeats_of_silent (permitted : t.Permitted last)
    (silent : ∀ id ∈ S.records.keys, Repository.findings S (.table t) id = [])
    (housed : ∀ c, t.partitions.contains c = true → S.records.contains c = true) : (Index.table t).RepeatsKinds S := by
  have present : ∀ (id : String) (r : Record), S.records[id]? = some r → ∃ rows, (Index.table t).rows id = .ok rows ∧
      Repository.compareRows id r.container.members rows = [] := by
    intro id r stored
    have key : id ∈ S.records.keys := by
      rw [Std.ExtTreeMap.mem_keys, Std.ExtTreeMap.mem_iff_isSome_getElem?, stored]
      rfl
    have nothing := silent id key
    rw [Repository.findings, stored] at nothing
    cases shown : (Index.table t).rows id with
    | error e =>
      rw [shown] at nothing
      cases nothing
    | ok rows =>
      rw [shown] at nothing
      exact ⟨rows, rfl, nothing⟩
  constructor
  · apply partitions_eq_keys
    intro c
    rw [Bool.eq_iff_iff]
    refine ⟨housed c, fun stored => ?_⟩
    rw [Std.ExtTreeMap.contains_eq_isSome_getElem?, Option.isSome_iff_exists] at stored
    obtain ⟨r, stored⟩ := stored
    obtain ⟨rows, shown, -⟩ := present c r stored
    exact (permitted.of_rows shown).1
  · intro id r stored
    obtain ⟨rows, shown, nothing⟩ := present id r stored
    obtain ⟨-, distinct, ordered⟩ := permitted.of_rows shown
    exact ⟨rows, shown, ordered, (Repository.compareRows_eq_nil_iff distinct).1 nothing⟩

end TableIndex

namespace Repository

open Containment.Action

variable {w : World} {S : MemoryStore} {t : TableIndex} {last : Nat}

/-- Writing the index anew ends well, and the index then repeats what is stored. -/
theorem exists_restored (readable : w.store.ReadsAs S) (clean : w.faults = []) (kept : w.index = .table t)
    (valid : ∀ (id : String) (r : Record), S.records[id]? = some r → r.container.Valid)
    (told : ∀ (id : String) (r : Record), S.records[id]? = some r →
      ∀ m ∈ r.container.members, m.IsTellable)
    (numbered : t.Numbered last)
    (room : ((last + (S.records.values.map fun r => r.container.members.length).sum : Nat) : Int) ≤ TableIndex.maxSeq) :
    ∃ ix : Index, ix.RepeatsFloored S ∧ rebuildAll.Succeeds w fun _ w' => w' = { w with index := ix } := by
  have stored : ∀ id ∈ S.records.keys, id ∈ S.records := fun id => Std.ExtTreeMap.mem_keys.1
  rw [← sum_lengths] at room
  obtain ⟨t₁, last', renews, numbered₁, first⟩ := numbered.exists_renews valid told S.records.keys stored room
  have orphan : ∀ p, p ∈ (t₁.partitions.toList.filter fun p => !S.records.contains p) ↔
      t₁.partitions.contains p = true ∧ S.records[p]? = none := by
    intro p
    rw [List.mem_filter, Std.ExtTreeSet.mem_toList, ← Std.ExtTreeSet.contains_iff_mem,
      Std.ExtTreeMap.contains_eq_isSome_getElem?, Bool.not_eq_true', Option.isSome_eq_false_iff,
      Option.isNone_iff_eq_none]
  have nodup : (t₁.partitions.toList.filter fun p => !S.records.contains p).Nodup := by
    apply List.Nodup.sublist List.filter_sublist
    exact t₁.partitions.ordered_toList.imp fun less same => by simp [same] at less
  obtain ⟨t', sheds, numbered', gone⟩ := numbered₁.exists_sheds (fun id mem => ((orphan id).1 mem).2)
    (fun id mem => ((orphan id).1 mem).1) nodup
  have carries : ∀ c, t'.Carries c (S.contents.listing c) := by
    intro c
    by_cases dropped : c ∈ t₁.partitions.toList.filter fun p => !S.records.contains p
    · exact gone.carries c dropped
    · by_cases listed : c ∈ S.records.keys
      · exact (first.carries c listed).congr (gone.partitions c dropped) (gone.rows c dropped)
      · have absent : S.records[c]? = none := by
          rwa [Std.ExtTreeMap.mem_keys, Std.ExtTreeMap.mem_iff_isSome_getElem?, Option.not_isSome_iff_eq_none] at listed
        rw [listing_of_absent absent, TableIndex.Carries, gone.partitions c dropped]
        exact Bool.not_eq_true _ ▸ fun there => dropped ((orphan c).2 ⟨there, absent⟩)
  refine ⟨.table t', numbered'.repeats carries, ?_⟩
  rw [← kept] at renews
  apply (succeeds_rewriting readable clean valid renews rfl sheds).mono
  exact fun _ w' done => done.2

theorem fails_rebuild (readable : w.store.ReadsAs S) (clean : w.faults = []) (kept : w.index = .table t) {id : String}
    {r : Record} (stored : S.records[id]? = some r) (valid : r.container.Valid)
    (far : ∃ m ∈ r.container.members, ¬ m.IsTellable) :
    ∃ e, (rebuild id).Fails w (.index e) := by
  obtain ⟨e, refused⟩ := t.exists_replacePartition_error id far
  have served : w.index.perform (.replacePartition id r.container.members) = (.error e, w.index) := by
    simp only [kept, Index.perform, refused]
  refine ⟨e, Fails.withLock ?_⟩
  apply (succeeds_load_valid readable clean stored valid).fails_bind
  rintro ⟨_, c⟩ _ ⟨⟨rfl, -⟩, rfl⟩
  apply fails_checkContext_bind
  exact (declines_index clean served).fails.bind

/-- The first container with a member whose time no row can tell ends it. -/
theorem exists_fails_rebuildEach (readable : w.store.ReadsAs S) (clean : w.faults = []) (kept : w.index = .table t)
    (valid : ∀ (id : String) (r : Record), S.records[id]? = some r → r.container.Valid) {ids : List String}
    (stored : ∀ id ∈ ids, id ∈ S.records)
    (far : ∃ id ∈ ids, ∃ r, S.records[id]? = some r ∧
      ∃ m ∈ r.container.members, ¬ m.IsTellable)
    (numbered : t.Numbered last)
    (room : ((last + (ids.map fun id => (S.contents.listing id).elim 0 List.length).sum : Nat) : Int) ≤ TableIndex.maxSeq)
    (summary : RebuildSummary) : ∃ e, (rebuildEach ids summary).Fails w (.index e) := by
  induction ids generalizing w t last summary with
  | nil =>
    obtain ⟨id, impossible, -⟩ := far
    cases impossible
  | cons id rest ih =>
    have here := stored id List.mem_cons_self
    rw [Std.ExtTreeMap.mem_iff_isSome_getElem?, Option.isSome_iff_exists] at here
    obtain ⟨r, found⟩ := here
    have meant := listing_of_stored found
    rw [List.map_cons, List.sum_cons, meant, Option.elim_some] at room
    simp only [rebuildEach]
    by_cases own : ∃ m ∈ r.container.members, ¬ m.IsTellable
    · obtain ⟨e, refused⟩ := fails_rebuild readable clean kept found (valid id r found) own
      refine ⟨e, Fails.bind (Fails.rethrown refused.map ?_)⟩
      rfl
    · have told : ∀ m ∈ r.container.members, m.IsTellable := by
        intro m mem
        by_contra far
        exact own ⟨m, mem, far⟩
      obtain ⟨t₁, replaced, numbered₁, -⟩ :=
        numbered.exists_replacePartition (valid id r found).nodup told (by omega) meant
      have granted : w.index.perform (.replacePartition id r.container.members) = (.ok (), .table t₁) := by
        simp only [kept, Index.perform, replaced]
      have rebuilt := succeeds_some_rebuild readable clean found (valid id r found) granted
      have later : ∃ id ∈ rest, ∃ r, S.records[id]? = some r ∧
          ∃ m ∈ r.container.members, ¬ m.IsTellable := by
        obtain ⟨other, mem, r', found', far⟩ := far
        rcases List.mem_cons.1 mem with rfl | mem
        · rw [found] at found'
          cases found'
          exact absurd far own
        · exact ⟨other, mem, r', found', far⟩
      obtain ⟨e, refused⟩ := ih (w := { w with index := .table t₁ }) readable clean rfl
        (fun other mem => stored other (List.mem_cons_of_mem id mem)) later numbered₁ (by omega)
        { summary with
          partitionsRebuilt := summary.partitionsRebuilt + 1
          rowsWritten := summary.rowsWritten + r.container.members.length }
      refine ⟨e, rebuilt.tryCatch.fails_bind ?_⟩
      rintro _ _ ⟨rfl, rfl⟩
      exact refused

theorem exists_fails_rebuildAll (readable : w.store.ReadsAs S) (clean : w.faults = []) (kept : w.index = .table t)
    (valid : ∀ (id : String) (r : Record), S.records[id]? = some r → r.container.Valid)
    (far : ∃ (id : String) (r : Record), S.records[id]? = some r ∧ ∃ m ∈ r.container.members, ¬ m.IsTellable)
    (numbered : t.Numbered last)
    (room : ((last + (S.records.values.map fun r => r.container.members.length).sum : Nat) : Int) ≤ TableIndex.maxSeq) :
    ∃ e, rebuildAll.Fails w (.index e) := by
  have listed : ∃ id ∈ S.records.keys, ∃ r, S.records[id]? = some r ∧
      ∃ m ∈ r.container.members, ¬ m.IsTellable := by
    obtain ⟨id, r, found, far⟩ := far
    refine ⟨id, ?_, r, found, far⟩
    rw [Std.ExtTreeMap.mem_keys, Std.ExtTreeMap.mem_iff_isSome_getElem?, found]
    rfl
  rw [← sum_lengths] at room
  obtain ⟨e, refused⟩ := exists_fails_rebuildEach readable clean kept valid
    (fun id => Std.ExtTreeMap.mem_keys.1) listed numbered room {}
  refine ⟨e, (succeeds_store clean readable.ids).fails_bind ?_⟩
  rintro _ _ ⟨rfl, rfl⟩
  exact refused.bind

/-- A comparison that can read the rows of the stored containers ends well, and it finds nothing only if the table repeats
what is stored. -/
theorem succeeds_verify_table (readable : w.store.ReadsAs S) (clean : w.faults = []) (kept : w.index = .table t)
    (permitted : t.Permitted last)
    (stand : ∀ id ∈ S.records, ∀ row ∈ t.rowsOf id, row.Stands) :
    verify.Succeeds w fun report w' => w' = w ∧ (report.divergences = [] → w.index.RepeatsKinds S) := by
  have legible : ∀ id ∈ S.records.keys, w.index.Legible id := by
    intro id key
    rw [kept]
    exact TableIndex.legible (stand id (Std.ExtTreeMap.mem_keys.1 key))
  have asked : w.index.perform .partitions = (.ok t.partitions.toList, w.index) := by
    rw [kept]
    rfl
  apply (succeeds_verify_legible readable clean legible asked).mono
  intro report w' given
  rcases given with ⟨rfl, found⟩
  refine ⟨rfl, fun nothing => ?_⟩
  rw [nothing, eq_comm, List.append_eq_nil_iff, List.flatMap_eq_nil_iff, List.map_eq_nil_iff, List.filter_filter,
    List.filter_eq_nil_iff] at found
  obtain ⟨silent, housed⟩ := found
  rw [kept] at silent ⊢
  apply permitted.repeats_of_silent silent
  intro c there
  by_contra unstored
  apply housed c (Std.ExtTreeSet.mem_toList.2 (Std.ExtTreeSet.contains_iff_mem.1 there))
  have unlisted : ¬ S.records.keys.contains c = true := by
    rwa [List.contains_iff_mem, Std.ExtTreeMap.mem_keys, ← Std.ExtTreeMap.contains_iff_mem]
  rw [Bool.not_eq_true] at unstored unlisted
  rw [unstored, unlisted]
  rfl

/-- A row of a stored container that stands for no entry. -/
def Spoils (S : MemoryStore) (t : TableIndex) (id : String) (row : TableRow) (fault : RowFault) : Prop :=
  id ∈ S.records ∧ row ∈ t.rowsOf id ∧ row.decode = .error (.corrupt fault)

theorem declines_verifyHeld (readable : w.store.ReadsAs S) (clean : w.faults = []) (kept : w.index = .table t)
    (permitted : t.Permitted last) {id : String} (stored : id ∈ S.records) {fault : RowFault}
    (failed : (t.rowsOf id).mapM TableRow.decode = .error (.corrupt fault)) :
    (verifyHeld id).Declines w (.index (.corrupt fault)) := by
  rw [Std.ExtTreeMap.mem_iff_isSome_getElem?, Option.isSome_iff_exists] at stored
  obtain ⟨r, stored⟩ := stored
  have there : t.partitions.contains id = true := by
    apply permitted.housed
    intro none
    rw [none] at failed
    cases failed
  have present : w.index.perform (.hasPartition id) = (.ok true, w.index) := by
    rw [kept, TableIndex.hasPartition_table, there]
  have selected : w.index.perform (.select id {}) = (.error (.corrupt fault), w.index) := by
    rw [kept, TableIndex.select_of_present there, failed]
  have asked : (index (.hasPartition id)).Succeeds w fun answer w' => answer = true ∧ w' = w :=
    succeeds_index clean present ⟨rfl, rfl⟩
  apply (succeeds_store clean (readable.read id)).declines_bind
  rintro _ _ ⟨rfl, rfl⟩
  rw [stored]
  refine ⟨rfl, asked.declines_bind ?_⟩
  rintro _ _ ⟨rfl, rfl⟩
  exact ⟨rfl, (declines_index clean selected).bind⟩

/-- The first container with such a row ends the comparison. -/
theorem exists_declines_verifyEach (readable : w.store.ReadsAs S) (clean : w.faults = []) (kept : w.index = .table t)
    (permitted : t.Permitted last) {ids : List String} (stored : ∀ id ∈ ids, id ∈ S.records)
    (bad : ∃ id ∈ ids, ∃ row ∈ t.rowsOf id, ¬ row.Stands) (report : ConsistencyReport) :
    ∃ id row fault, Spoils S t id row fault ∧ (verifyEach ids report).Declines w (.index (.corrupt fault)) := by
  -- By induction on the containers: either the first of them has such a row, or one of the others does.
  induction ids generalizing report with
  | nil =>
    obtain ⟨id, impossible, -⟩ := bad
    cases impossible
  | cons id rest ih =>
    have here := stored id List.mem_cons_self
    simp only [verifyEach]
    rcases TableRow.mapM_decode_cases (t.rowsOf id) with ⟨row, mem, fault, failed, ended⟩ | ⟨stand, -⟩
    · refine ⟨id, row, fault, ⟨here, mem, failed⟩, ?_⟩
      exact (declines_verifyHeld readable clean kept permitted here ended).withLock.bind
    · have legible : w.index.Legible id := by
        rw [kept]
        exact TableIndex.legible stand
      have later : ∃ id ∈ rest, ∃ row ∈ t.rowsOf id, ¬ row.Stands := by
        obtain ⟨other, mem, row, listed, fallen⟩ := bad
        rcases List.mem_cons.1 mem with rfl | mem
        · exact absurd (stand row listed) fallen
        · exact ⟨other, mem, row, listed, fallen⟩
      rw [Std.ExtTreeMap.mem_iff_isSome_getElem?, Option.isSome_iff_exists] at here
      obtain ⟨r, found⟩ := here
      have others := ih (fun other mem => stored other (List.mem_cons_of_mem id mem)) later
        { containersChecked := report.containersChecked + 1
          membersChecked := report.membersChecked + r.container.members.length
          divergences := report.divergences ++ findings S w.index id }
      obtain ⟨other, row, fault, spoils, declines⟩ := others
      refine ⟨other, row, fault, spoils, ?_⟩
      apply (succeeds_verifyHeld readable clean legible).withLock.declines_bind
      rintro _ _ ⟨rfl, rfl⟩
      rw [found]
      exact ⟨rfl, declines⟩

/-- A comparison that meets a row that stands for no entry fails, and everything is as before. -/
theorem exists_declines_verify (readable : w.store.ReadsAs S) (clean : w.faults = []) (kept : w.index = .table t)
    (permitted : t.Permitted last) (bad : ∃ id ∈ S.records, ∃ row ∈ t.rowsOf id, ¬ row.Stands) :
    ∃ id row fault, Spoils S t id row fault ∧ verify.Declines w (.index (.corrupt fault)) := by
  have listed : ∃ id ∈ S.records.keys, ∃ row ∈ t.rowsOf id, ¬ row.Stands := by
    obtain ⟨id, stored, spoilt⟩ := bad
    exact ⟨id, Std.ExtTreeMap.mem_keys.2 stored, spoilt⟩
  obtain ⟨id, row, fault, spoils, declines⟩ := exists_declines_verifyEach readable clean kept permitted
    (fun id => Std.ExtTreeMap.mem_keys.1) listed {}
  refine ⟨id, row, fault, spoils, ?_⟩
  apply (succeeds_store clean readable.ids).declines_bind
  rintro _ _ ⟨rfl, rfl⟩
  exact ⟨rfl, declines.bind⟩

end Repository

end Containment
