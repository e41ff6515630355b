/-
Module: Containment.Proofs.Index.Contract
Purpose: What each request makes of the lists that the index in memory holds. Nothing after this module looks
  at rows or their numbers.
Main exports: MemoryIndex.WellFormed, MemoryIndex.perform_wellFormed, Index.Lists, Index.Lists.insert,
  Index.Lists.remove, Index.Lists.replacePartition, Index.Lists.select
-/
import Containment.Index.Basic
import Containment.Proofs.Index.Listing

namespace Containment

open Function (update update_apply)

namespace MemoryIndex

/-- Every partition fits the number that was given out last. -/
def WellFormed (ix : MemoryIndex) : Prop :=
  ∀ (c : String) (p : Partition), ix.partitions[c]? = some p → p.WellFormed c ix.lastSeq

/-- The members of each container that has a partition. -/
def listed (ix : MemoryIndex) : Listing :=
  fun c => ix.partitions[c]?.map Partition.members

variable {ix : MemoryIndex} {c : String}

theorem wellFormed_empty : ({} : MemoryIndex).WellFormed := by
  intro c p found
  simp at found

/-- Writing one partition, with as many numbers given out as it needs. -/
theorem WellFormed.write (wf : ix.WellFormed) {p : Partition} {last : Nat} (le : ix.lastSeq ≤ last)
    (own : p.WellFormed c last) :
    ({ partitions := ix.partitions.insert c p, lastSeq := last } : MemoryIndex).WellFormed := by
  intro d q found
  rw [Std.ExtTreeMap.getElem?_insert] at found
  split at found
  · rename_i same
    cases found
    rw [← Std.LawfulEqCmp.compare_eq_iff_eq.1 same]
    exact own
  · exact (wf d q found).mono le

theorem listed_write (p : Partition) (last : Nat) :
    ({ partitions := ix.partitions.insert c p, lastSeq := last } : MemoryIndex).listed =
      update ix.listed c (some p.members) := by
  funext d
  simp only [listed, Std.ExtTreeMap.getElem?_insert, Std.LawfulEqCmp.compare_eq_iff_eq, update_apply]
  by_cases same : c = d
  · rw [if_pos same, if_pos same.symm]
    rfl
  · rw [if_neg same, if_neg (Ne.symm same)]

theorem WellFormed.erase (wf : ix.WellFormed) :
    ({ ix with partitions := ix.partitions.erase c } : MemoryIndex).WellFormed := by
  intro d q found
  rw [Std.ExtTreeMap.getElem?_erase] at found
  split at found
  · cases found
  · exact wf d q found

theorem listed_erase :
    ({ ix with partitions := ix.partitions.erase c } : MemoryIndex).listed = update ix.listed c none := by
  funext d
  simp only [listed, Std.ExtTreeMap.getElem?_erase, Std.LawfulEqCmp.compare_eq_iff_eq, update_apply]
  by_cases same : c = d
  · rw [if_pos same, if_pos same.symm]
    rfl
  · rw [if_neg same, if_neg (Ne.symm same)]

theorem nextEntry_toMember (m : Member) : (ix.nextEntry c m).toMember = m :=
  rfl

/-- Numbering members touches no partition that is there already and gives numbers out upwards only. -/
theorem fill_spec (ix : MemoryIndex) (members : List Member) {p : Partition} (own : p.WellFormed c ix.lastSeq) :
    (fill c members p ix).2.partitions = ix.partitions ∧ ix.lastSeq ≤ (fill c members p ix).2.lastSeq ∧
      ∀ q, (fill c members p ix).1 = .ok q →
        q.WellFormed c (fill c members p ix).2.lastSeq ∧ q.members = p.members ++ members := by
  induction members generalizing p ix with
  | nil =>
    refine ⟨rfl, le_rfl, ?_⟩
    intro q given
    cases given
    exact ⟨own, (List.append_nil _).symm⟩
  | cons m rest ih =>
    rw [fill]
    split
    · exact ⟨rfl, le_rfl, fun q impossible => by cases impossible⟩
    · rename_i fresh
      have fresh := Bool.eq_false_of_not_eq_true fresh
      have grown := own.add (ix.nextEntry c m) rfl rfl fresh
      obtain ⟨same, le, ok⟩ := ih { ix with lastSeq := ix.lastSeq + 1 } grown
      refine ⟨same, (Nat.le_succ _).trans le, fun q filled => ?_⟩
      obtain ⟨wf, members⟩ := ok q filled
      refine ⟨wf, members.trans ?_⟩
      rw [own.members_add _ rfl rfl fresh, nextEntry_toMember, List.append_assoc]
      rfl

/-- Members with distinct identifiers can always be numbered. -/
theorem fill_ok (ix : MemoryIndex) {members : List Member} {p : Partition} (own : p.WellFormed c ix.lastSeq)
    (fresh : ∀ m ∈ members, ∀ n ∈ p.members, n.id ≠ m.id) (nodup : (members.map Member.id).Nodup) :
    ∃ q, (fill c members p ix).1 = .ok q := by
  induction members generalizing p ix with
  | nil => exact ⟨p, rfl⟩
  | cons m rest ih =>
    rw [List.map_cons, List.nodup_cons] at nodup
    have unlisted : p.seqOf.contains m.id = false := by
      apply Bool.eq_false_of_not_eq_true
      intro known
      obtain ⟨n, mem, same⟩ := own.contains_seqOf_iff.1 known
      exact fresh m List.mem_cons_self n mem same
    rw [fill, if_neg (by rw [unlisted]; exact Bool.false_ne_true)]
    refine ih { ix with lastSeq := ix.lastSeq + 1 }
      (own.add (ix.nextEntry c m) rfl rfl unlisted) ?_ nodup.2
    intro m' mem n listed
    rw [own.members_add _ rfl rfl unlisted, nextEntry_toMember] at listed
    rcases List.mem_append.1 listed with old | new
    · exact fresh m' (List.mem_cons_of_mem m mem) n old
    · rw [List.mem_singleton.1 new]
      exact fun same => nodup.1 (List.mem_map.2 ⟨m', mem, same.symm⟩)

/-! ### What a request can do -/

/-- An empty partition is started, or nothing happens. -/
theorem createPartition_cases (ix : MemoryIndex) (c : String) :
    (ix.partitions.contains c = true ∧ ix.createPartition c = (.error (.partitionExists c), ix)) ∨
      (ix.partitions.contains c = false ∧ ix.createPartition c = (.ok (), ix.put c {})) := by
  rw [createPartition]
  cases known : ix.partitions.contains c with
  | true => exact .inl ⟨rfl, if_pos rfl⟩
  | false => exact .inr ⟨rfl, if_neg Bool.false_ne_true⟩

/-- A row is added under the next number, or nothing happens. -/
theorem insert_cases (ix : MemoryIndex) (c : String) (m : Member) :
    (∃ e, ix.insert c m = (.error e, ix)) ∨
      ∃ p, ix.partitions[c]? = some p ∧ p.seqOf.contains m.id = false ∧
        ix.insert c m = (.ok (ix.nextEntry c m),
          { partitions := ix.partitions.insert c (p.add (ix.nextEntry c m)), lastSeq := ix.lastSeq + 1 }) := by
  rw [MemoryIndex.insert]
  cases found : ix.partitions[c]? with
  | none => exact .inl ⟨_, rfl⟩
  | some p =>
    cases listed : p.seqOf.contains m.id with
    | true => exact .inl ⟨_, if_pos listed⟩
    | false => exact .inr ⟨p, rfl, listed, if_neg (by rw [listed]; exact Bool.false_ne_true)⟩

/-- A partition loses the row of a member if it has one, or there is no partition and nothing happens. -/
theorem remove_cases (ix : MemoryIndex) (c id : String) :
    (ix.partitions[c]? = none ∧ ix.remove c id = (.error (.partitionNotFound c), ix)) ∨
      ∃ p, ix.partitions[c]? = some p ∧ ix.remove c id = (.ok (p.remove id).1, ix.put c (p.remove id).2) := by
  rw [MemoryIndex.remove]
  cases found : ix.partitions[c]? with
  | none => exact .inl ⟨rfl, rfl⟩
  | some p => exact .inr ⟨p, rfl, rfl⟩

/-- A new partition lists just the members, under new numbers, or nothing happens but that numbers are used up. -/
theorem replacePartition_cases (ix : MemoryIndex) (c : String) (members : List Member) :
    (∃ e last, ix.lastSeq ≤ last ∧ ix.replacePartition c members = (.error e, { ix with lastSeq := last })) ∨
      ∃ q last, ix.lastSeq ≤ last ∧ ix.replacePartition c members =
          (.ok (), { partitions := ix.partitions.insert c q, lastSeq := last }) ∧
        q.WellFormed c last ∧ q.members = members := by
  obtain ⟨same, le, ok⟩ := fill_spec (c := c) ix members Partition.wellFormed_empty
  rw [MemoryIndex.replacePartition]
  rcases filled : fill c members {} ix with ⟨e | q, ix'⟩
  · rw [filled] at same le
    refine .inl ⟨e, ix'.lastSeq, le, ?_⟩
    rw [← same]
  · rw [filled] at same le ok
    obtain ⟨own, members_eq⟩ := ok q rfl
    refine .inr ⟨q, ix'.lastSeq, le, ?_, own, members_eq⟩
    rw [← same]
    rfl

/-- Members with distinct identifiers get a new partition, whatever there was before. -/
theorem replacePartition_ok (ix : MemoryIndex) (c : String) {members : List Member}
    (nodup : (members.map Member.id).Nodup) :
    ∃ q last, ix.replacePartition c members =
        (.ok (), { partitions := ix.partitions.insert c q, lastSeq := last }) ∧
      ix.lastSeq ≤ last ∧ q.WellFormed c last ∧ q.members = members := by
  have fresh : ∀ m ∈ members, ∀ n ∈ ({} : Partition).members, n.id ≠ m.id := fun _ _ _ impossible => nomatch impossible
  obtain ⟨p, filled⟩ := fill_ok (c := c) ix Partition.wellFormed_empty fresh nodup
  rcases ix.replacePartition_cases c members with ⟨e, last, -, refused⟩ | ⟨q, last, le, done, own, listed⟩
  · rw [MemoryIndex.replacePartition] at refused
    rcases outcome : fill c members {} ix with ⟨out, ix'⟩
    rw [outcome] at filled refused
    cases filled
    cases refused
  · exact ⟨q, last, done, le, own, listed⟩

/-- A request that fails leaves all partitions as they are. -/
theorem partitions_of_error {call : IndexCall} {e : IndexError} (failed : (ix.perform call).1 = .error e) :
    (ix.perform call).2.partitions = ix.partitions := by
  cases call with
  | createPartition c =>
    simp only [MemoryIndex.perform] at failed ⊢
    rcases ix.createPartition_cases c with ⟨-, refused⟩ | ⟨-, done⟩
    · rw [refused]
    · rw [done] at failed
      cases failed
  | dropPartition c => cases failed
  | insert c m =>
    simp only [MemoryIndex.perform] at failed ⊢
    rcases ix.insert_cases c m with ⟨e', refused⟩ | ⟨p, -, -, done⟩
    · rw [refused]
    · rw [done] at failed
      cases failed
  | remove c id =>
    simp only [MemoryIndex.perform] at failed ⊢
    rcases ix.remove_cases c id with ⟨-, refused⟩ | ⟨p, -, done⟩
    · rw [refused]
    · rw [done] at failed
      cases failed
  | replacePartition c members =>
    simp only [MemoryIndex.perform] at failed ⊢
    rcases ix.replacePartition_cases c members with ⟨e', last, -, refused⟩ | ⟨q, last, -, done, -⟩
    · rw [refused]
    · rw [done] at failed
      cases failed
  | hasPartition | partitions | contains | count | select | selectAfter => rfl

/-- No request spoils the order of rows. -/
theorem perform_wellFormed (wf : ix.WellFormed) (call : IndexCall) : (ix.perform call).2.WellFormed := by
  cases call with
  | createPartition c =>
    simp only [MemoryIndex.perform]
    rcases ix.createPartition_cases c with ⟨-, refused⟩ | ⟨-, done⟩
    · rw [refused]
      exact wf
    · rw [done]
      exact wf.write le_rfl Partition.wellFormed_empty
  | dropPartition c => exact wf.erase
  | insert c m =>
    simp only [MemoryIndex.perform]
    rcases ix.insert_cases c m with ⟨e, refused⟩ | ⟨p, found, fresh, done⟩
    · rw [refused]
      exact wf
    · rw [done]
      exact wf.write (Nat.le_succ _) ((wf c p found).add _ rfl rfl fresh)
  | remove c id =>
    simp only [MemoryIndex.perform]
    rcases ix.remove_cases c id with ⟨-, refused⟩ | ⟨p, found, done⟩
    · rw [refused]
      exact wf
    · rw [done]
      exact wf.write le_rfl ((wf c p found).remove id)
  | replacePartition c members =>
    simp only [MemoryIndex.perform]
    rcases ix.replacePartition_cases c members with ⟨e, last, le, refused⟩ | ⟨q, last, le, done, own, -⟩
    · rw [refused]
      exact fun d p found => (wf d p found).mono le
    · rw [done]
      exact wf.write le own
  | hasPartition | partitions | contains | count | select | selectAfter => exact wf

end MemoryIndex

/-! ### The lists behind a well-formed index in memory -/

/-- The index is kept in memory, is in order, and lists these members. -/
def Index.Lists (ix : Index) (lists : Listing) : Prop :=
  ∃ m : MemoryIndex, ix = .memory m ∧ m.WellFormed ∧ m.listed = lists

namespace Index

variable {ix : Index} {lists : Listing} {c : String} {members : List Member}

theorem lists_empty : Index.empty.Lists fun _ => none := by
  refine ⟨{}, rfl, MemoryIndex.wellFormed_empty, ?_⟩
  funext c
  simp [MemoryIndex.listed]

/-- Whatever is asked, an index in memory stays in order. -/
theorem Lists.perform (known : ix.Lists lists) (call : IndexCall) :
    ∃ lists', (ix.perform call).2.Lists lists' := by
  obtain ⟨m, rfl, wf, -⟩ := known
  exact ⟨_, (m.perform call).2, rfl, MemoryIndex.perform_wellFormed wf call, rfl⟩

/-- The index after requests made one after the other. -/
def after (ix : Index) (calls : List IndexCall) : Index :=
  calls.foldl (fun ix call => (ix.perform call).2) ix

theorem Lists.after (known : ix.Lists lists) (calls : List IndexCall) : ∃ lists', (ix.after calls).Lists lists' := by
  induction calls generalizing ix lists with
  | nil => exact ⟨lists, known⟩
  | cons call rest ih =>
    obtain ⟨lists', known'⟩ := known.perform call
    exact ih known'

theorem Lists.createPartition (known : ix.Lists lists) (absent : lists c = none) :
    (ix.perform (.createPartition c)).1 = .ok () ∧
      (ix.perform (.createPartition c)).2.Lists (update lists c (some [])) := by
  obtain ⟨m, rfl, wf, rfl⟩ := known
  have free : m.partitions.contains c = false := by
    rw [Std.ExtTreeMap.contains_eq_isSome_getElem?, Option.map_eq_none_iff.1 absent]
    rfl
  have created : m.createPartition c = (.ok (), m.put c {}) := by
    rw [MemoryIndex.createPartition, if_neg (by rw [free]; exact Bool.false_ne_true)]
  simp only [Index.perform, MemoryIndex.perform, created]
  refine ⟨trivial, _, rfl, wf.write le_rfl Partition.wellFormed_empty, ?_⟩
  exact MemoryIndex.listed_write {} m.lastSeq

/-- A partition is not made a second time. -/
theorem Lists.createPartition_again (known : ix.Lists lists) (listed : lists c = some members) :
    ix.perform (.createPartition c) = (.error (.partitionExists c), ix) := by
  obtain ⟨m, rfl, -, rfl⟩ := known
  obtain ⟨p, found, -⟩ := Option.map_eq_some_iff.1 listed
  have there : m.partitions.contains c = true := by
    rw [Std.ExtTreeMap.contains_eq_isSome_getElem?, found]
    rfl
  simp only [Index.perform, MemoryIndex.perform, MemoryIndex.createPartition, if_pos there]

theorem Lists.dropPartition (known : ix.Lists lists) (c : String) :
    (ix.perform (.dropPartition c)).1 = .ok (lists c).isSome ∧
      (ix.perform (.dropPartition c)).2.Lists (update lists c none) := by
  obtain ⟨m, rfl, wf, rfl⟩ := known
  refine ⟨?_, _, rfl, wf.erase, MemoryIndex.listed_erase⟩
  change Except.ok (m.partitions.contains c) = _
  rw [Std.ExtTreeMap.contains_eq_isSome_getElem?]
  simp [MemoryIndex.listed]

theorem Lists.insert (known : ix.Lists lists) (listed : lists c = some members) {m : Member}
    (fresh : ∀ n ∈ members, n.id ≠ m.id) :
    (∃ row, (ix.perform (.insert c m)).1 = .ok row) ∧
      (ix.perform (.insert c m)).2.Lists (update lists c (some (members ++ [m]))) := by
  obtain ⟨mem, rfl, wf, rfl⟩ := known
  obtain ⟨p, found, rfl⟩ := Option.map_eq_some_iff.1 listed
  have own := wf c p found
  have unlisted : p.seqOf.contains m.id = false := by
    apply Bool.eq_false_of_not_eq_true
    intro known
    obtain ⟨n, there, same⟩ := own.contains_seqOf_iff.1 known
    exact fresh n there same
  have inserted : mem.insert c m =
      (.ok (mem.nextEntry c m),
        { partitions := mem.partitions.insert c (p.add (mem.nextEntry c m)), lastSeq := mem.lastSeq + 1 }) := by
    rw [MemoryIndex.insert, found]
    simp only [unlisted, Bool.false_eq_true, if_false]
    rfl
  simp only [Index.perform, MemoryIndex.perform, inserted]
  refine ⟨⟨_, rfl⟩, _, rfl, wf.write (Nat.le_succ _) (own.add _ rfl rfl unlisted), ?_⟩
  rw [MemoryIndex.listed_write, own.members_add _ rfl rfl unlisted, MemoryIndex.nextEntry_toMember]

theorem Lists.remove (known : ix.Lists lists) (listed : lists c = some members) (id : String) :
    (∃ existed, (ix.perform (.remove c id)).1 = .ok existed) ∧
      (ix.perform (.remove c id)).2.Lists (update lists c (some (members.filter (·.id ≠ id)))) := by
  obtain ⟨mem, rfl, wf, rfl⟩ := known
  obtain ⟨p, found, rfl⟩ := Option.map_eq_some_iff.1 listed
  have own := wf c p found
  have removed : mem.remove c id = (.ok (p.remove id).1, mem.put c (p.remove id).2) := by
    rw [MemoryIndex.remove, found]
  simp only [Index.perform, MemoryIndex.perform, removed]
  refine ⟨⟨_, rfl⟩, _, rfl, wf.write le_rfl (own.remove id), ?_⟩
  rw [← own.members_remove]
  exact MemoryIndex.listed_write _ mem.lastSeq

theorem Lists.replacePartition (known : ix.Lists lists) (nodup : (members.map Member.id).Nodup) :
    (ix.perform (.replacePartition c members)).1 = .ok () ∧
      (ix.perform (.replacePartition c members)).2.Lists (update lists c (some members)) := by
  obtain ⟨m, rfl, wf, rfl⟩ := known
  obtain ⟨q, last, replaced, le, own, members_eq⟩ := m.replacePartition_ok c nodup
  simp only [Index.perform, MemoryIndex.perform, replaced]
  refine ⟨trivial, _, rfl, wf.write le own, ?_⟩
  rw [MemoryIndex.listed_write, members_eq]

/-! ### Questions -/

theorem Lists.hasPartition (known : ix.Lists lists) (c : String) :
    ix.perform (.hasPartition c) = (.ok (lists c).isSome, ix) := by
  obtain ⟨m, rfl, wf, rfl⟩ := known
  change (Except.ok (m.partitions.contains c), Index.memory m) = _
  rw [Std.ExtTreeMap.contains_eq_isSome_getElem?]
  simp [MemoryIndex.listed]

theorem Lists.partitions (known : ix.Lists lists) :
    ∃ keys, ix.perform .partitions = (.ok keys, ix) ∧ keys.Pairwise (compare · · = .lt) ∧
      ∀ c, c ∈ keys ↔ (lists c).isSome := by
  obtain ⟨m, rfl, wf, rfl⟩ := known
  refine ⟨m.partitions.keys, rfl, m.partitions.ordered_keys, fun c => ?_⟩
  rw [Std.ExtTreeMap.mem_keys, ← Std.ExtTreeMap.contains_iff_mem, Std.ExtTreeMap.contains_eq_isSome_getElem?]
  simp [MemoryIndex.listed]

theorem Lists.distinct (known : ix.Lists lists) (listed : lists c = some members) :
    (members.map Member.id).Nodup := by
  obtain ⟨m, rfl, wf, rfl⟩ := known
  obtain ⟨p, found, rfl⟩ := Option.map_eq_some_iff.1 listed
  rw [Partition.members, List.map_map]
  exact (wf c p found).distinct

/-- All rows of a container come in the order of their numbers and repeat its members. -/
theorem Lists.select (known : ix.Lists lists) (listed : lists c = some members) :
    ∃ rows, ix.perform (.select c {}) = (.ok rows, ix) ∧ (rows.Pairwise fun a b => a.seq < b.seq) ∧
      rows.map IndexEntry.toMember = members := by
  obtain ⟨m, rfl, wf, rfl⟩ := known
  obtain ⟨p, found, rfl⟩ := Option.map_eq_some_iff.1 listed
  have all : p.select {} = p.entries := by
    simp [Partition.select, IndexQuery.window, Partition.sorted, IndexQuery.accepts, typePasses]
  have asked : m.ask c (·.select {}) = .ok p.entries := by
    rw [MemoryIndex.ask, found]
    exact congrArg Except.ok all
  refine ⟨p.entries, ?_, (wf c p found).entries_sorted, rfl⟩
  change (m.ask c (·.select {}), Index.memory m) = _
  rw [asked]

end Index

end Containment
