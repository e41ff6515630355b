/-
Module: Containment.Proofs.Index.MemoryCatalogue
Purpose: The index in memory does what is meant of an index: its answers are those of the catalogue of its rows,
  and so is the catalogue that it has afterwards. A request that fails may use numbers up all the same.
Main exports: MemoryIndex.catalogue, MemoryIndex.fill_catalogue, MemoryIndex.perform_catalogue
-/
import Containment.Proofs.Index.Catalogue
import Containment.Proofs.Index.Contract

namespace Containment

namespace Partition

variable {c : String} {last : Nat} {p : Partition}

/-- The members noted are those of the rows. -/
theorem WellFormed.contains_seqOf (wf : p.WellFormed c last) (id : String) :
    p.seqOf.contains id = p.entries.any (·.memberId == id) := by
  rw [Bool.eq_iff_iff, wf.contains_seqOf_iff, List.any_eq_true, members]
  constructor
  · intro given
    rcases given with ⟨m, mem, rfl⟩
    obtain ⟨row, listed, rfl⟩ := List.mem_map.1 mem
    exact ⟨row, listed, beq_self_eq_true row.memberId⟩
  · intro given
    rcases given with ⟨row, listed, same⟩
    exact ⟨row.toMember, List.mem_map.2 ⟨row, listed, rfl⟩, eq_of_beq same⟩

theorem WellFormed.mem_ids_iff (wf : p.WellFormed c last) (id : String) :
    id ∈ p.entries.map IndexEntry.memberId ↔ p.seqOf.contains id = true := by
  rw [wf.contains_seqOf, List.any_eq_true, List.mem_map]
  simp only [beq_iff_eq]

theorem remove_fst (p : Partition) (id : String) : (p.remove id).1 = p.seqOf.contains id := by
  rw [Partition.remove, Std.ExtTreeMap.contains_eq_isSome_getElem?]
  cases p.seqOf[id]? with
  | none => rfl
  | some seq => rfl

theorem length_entries (p : Partition) : p.entries.length = p.rows.size := by
  rw [entries, values_eq_map_snd_toList, List.length_map, Std.ExtTreeMap.length_toList]

theorem count_eq (p : Partition) (type : Option MemberType) :
    p.count type = p.entries.countP fun row => typePasses type row.type := by
  cases type with
  | none =>
    change p.rows.size = p.entries.countP fun _ => true
    rw [List.countP_true, length_entries]
  | some type =>
    apply List.countP_congr
    intro row _
    simp only [typePasses, Option.all_some, beq_iff_eq]
    exact eq_comm

theorem sorted_eq (p : Partition) (order : SortOrder) : p.sorted order = order.arrange p.entries := by
  cases order with
  | insertion | newestFirst | memberId => rfl

theorem select_eq (p : Partition) (query : IndexQuery) : p.select query = query.answer p.entries := by
  rw [select, IndexQuery.answer, sorted_eq]

end Partition

namespace MemoryIndex

/-- The rows of an index in memory. -/
def catalogue (ix : MemoryIndex) : Catalogue :=
  ix.partitions.map fun _ p => p.entries

variable {ix : MemoryIndex} {c : String}

@[simp]
theorem getElem?_catalogue (ix : MemoryIndex) (c : String) :
    ix.catalogue[c]? = ix.partitions[c]?.map Partition.entries :=
  Std.ExtTreeMap.getElem?_map

@[simp]
theorem contains_catalogue (ix : MemoryIndex) (c : String) :
    ix.catalogue.contains c = ix.partitions.contains c :=
  Std.ExtTreeMap.contains_map

theorem catalogue_write (partitions : Std.ExtTreeMap String Partition) (c : String) (p : Partition) (last : Nat) :
    catalogue { partitions := partitions.insert c p, lastSeq := last } =
      (catalogue { partitions, lastSeq := last }).insert c p.entries :=
  map_insert _ partitions c p

theorem catalogue_erase (ix : MemoryIndex) (c : String) :
    catalogue { ix with partitions := ix.partitions.erase c } = ix.catalogue.erase c :=
  map_erase _ ix.partitions c

theorem ask_catalogue {α : Type} {question : Partition → α} {question' : List IndexEntry → α}
    (alike : ∀ p : Partition, question p = question' p.entries) :
    ix.ask c question = ix.catalogue.ask c question' := by
  rw [MemoryIndex.ask, Catalogue.ask, getElem?_catalogue]
  cases ix.partitions[c]? with
  | none => rfl
  | some p => exact congrArg Except.ok (alike p)

/-- Numbering members stops at the first that is listed already; otherwise it adds a row for each. -/
theorem fill_catalogue (ix : MemoryIndex) (members : List Member) {p : Partition}
    (wf : p.WellFormed c ix.lastSeq) :
    match Member.repeated? (p.entries.map IndexEntry.memberId) members with
    | some id => (fill c members p ix).1 = .error (.duplicateEntry c id)
    | none => ∃ q, (fill c members p ix).1 = .ok q ∧
        q.entries = p.entries ++ IndexEntry.numbered c ix.lastSeq members ∧
        (fill c members p ix).2.lastSeq = ix.lastSeq + members.length := by
  induction members generalizing p ix with
  | nil => exact ⟨p, rfl, (List.append_nil _).symm, rfl⟩
  | cons m rest ih =>
    rw [Member.repeated?, fill]
    by_cases listed : m.id ∈ p.entries.map IndexEntry.memberId
    · rw [if_pos listed, if_pos ((wf.mem_ids_iff m.id).1 listed)]
    · have unlisted := mt (wf.mem_ids_iff m.id).2 listed
      have fresh := Bool.eq_false_of_not_eq_true unlisted
      have entries : (p.add (ix.nextEntry c m)).entries = p.entries ++ [IndexEntry.ofMember c m (ix.lastSeq + 1)] :=
        wf.entries_add (ix.nextEntry c m) rfl rfl fresh
      have grown := ih { ix with lastSeq := ix.lastSeq + 1 } (wf.add (ix.nextEntry c m) rfl rfl fresh)
      rw [if_neg listed, if_neg unlisted]
      rw [entries, List.map_append] at grown
      simp only [List.append_assoc] at grown
      have length : ix.lastSeq + (m :: rest).length = ix.lastSeq + 1 + rest.length := by
        rw [List.length_cons]
        omega
      rw [length]
      exact grown

/-! ### One request -/

theorem insert_catalogue (wf : ix.WellFormed) (c : String) (m : Member) :
    ix.catalogue.perform ix.lastSeq (.insert c m) = ((ix.insert c m).1, (ix.insert c m).2.catalogue) := by
  simp only [Catalogue.perform, MemoryIndex.insert, getElem?_catalogue]
  cases found : ix.partitions[c]? with
  | none => rfl
  | some p =>
    have own := wf c p found
    simp only [Option.map_some, own.mem_ids_iff]
    by_cases listed : p.seqOf.contains m.id = true
    · rw [if_pos listed, if_pos listed]
    · have fresh := Bool.eq_false_of_not_eq_true listed
      rw [if_neg listed, if_neg listed, catalogue_write, own.entries_add (ix.nextEntry c m) rfl rfl fresh]
      rfl

theorem remove_catalogue (wf : ix.WellFormed) (c id : String) :
    ix.catalogue.perform ix.lastSeq (.remove c id) = ((ix.remove c id).1, (ix.remove c id).2.catalogue) := by
  simp only [Catalogue.perform, MemoryIndex.remove, getElem?_catalogue]
  cases found : ix.partitions[c]? with
  | none => rfl
  | some p =>
    have own := wf c p found
    have others : (p.remove id).2.entries = p.entries.filter fun row => !(row.memberId == id) := by
      rw [own.entries_remove]
      apply List.filter_congr
      intro row _
      rw [decide_not]
      rfl
    simp only [Option.map_some, ← own.contains_seqOf, ← Partition.remove_fst, ← others, MemoryIndex.put]
    rw [catalogue_write]

theorem replacePartition_catalogue (ix : MemoryIndex) (c : String) (members : List Member) :
    ix.catalogue.perform ix.lastSeq (.replacePartition c members) =
      ((ix.replacePartition c members).1, (ix.replacePartition c members).2.catalogue) := by
  have numbering := fill_catalogue (c := c) ix members Partition.wellFormed_empty
  have same := (fill_spec (c := c) ix members Partition.wellFormed_empty).1
  have none_yet : ({} : Partition).entries = [] := rfl
  rw [none_yet] at numbering
  simp only [Catalogue.perform, MemoryIndex.replacePartition]
  rcases filled : fill c members {} ix with ⟨outcome, ix'⟩
  rw [filled] at numbering same
  have unchanged : catalogue { partitions := ix'.partitions, lastSeq := ix'.lastSeq } = ix.catalogue :=
    congrArg (fun partitions => catalogue { partitions, lastSeq := ix'.lastSeq }) same
  cases repeated : Member.repeated? [] members with
  | some id =>
    simp only [List.map_nil, repeated] at numbering
    rw [numbering]
    exact congrArg (Prod.mk _) unchanged.symm
  | none =>
    simp only [List.map_nil, repeated] at numbering
    obtain ⟨q, rfl, entries, -⟩ := numbering
    simp only [MemoryIndex.put, catalogue_write, entries, unchanged]
    rfl

/-- A partition that is replaced gets rows under new numbers only. -/
theorem lt_seq_of_replacePartition {members : List Member} {q : Partition} {last : Nat}
    (replaced : ix.replacePartition c members =
      (.ok (), { partitions := ix.partitions.insert c q, lastSeq := last })) :
    ∀ row ∈ q.entries, ix.lastSeq < row.seq := by
  have performed := replacePartition_catalogue ix c members
  rw [replaced, catalogue_write] at performed
  simp only [Catalogue.perform] at performed
  split at performed
  · cases congrArg Prod.fst performed
  · have rows := congrArg (fun held => held.2[c]?) performed
    simp only [Std.ExtTreeMap.getElem?_insert_self, Option.some.injEq] at rows
    rw [← rows]
    exact IndexEntry.lt_seq_numbered

/-- The index in memory answers as its catalogue does and is changed alike. -/
theorem perform_catalogue (wf : ix.WellFormed) (call : IndexCall) :
    ix.catalogue.perform ix.lastSeq call = ((ix.perform call).1, (ix.perform call).2.catalogue) := by
  cases call with
  | createPartition c =>
    simp only [Catalogue.perform, contains_catalogue, MemoryIndex.perform, MemoryIndex.createPartition]
    by_cases known : ix.partitions.contains c = true
    · rw [if_pos known, if_pos known]
    · rw [if_neg known, if_neg known, MemoryIndex.put, catalogue_write]
      rfl
  | dropPartition c => simp only [Catalogue.perform, contains_catalogue, MemoryIndex.perform, catalogue_erase]
  | insert c m => exact insert_catalogue wf c m
  | remove c id => exact remove_catalogue wf c id
  | replacePartition c members => exact replacePartition_catalogue ix c members
  | hasPartition c => simp only [Catalogue.perform, contains_catalogue, MemoryIndex.perform]
  | partitions => simp only [Catalogue.perform, catalogue, Std.ExtTreeMap.keys_map, MemoryIndex.perform]
  | contains c id =>
    simp only [Catalogue.perform, getElem?_catalogue, MemoryIndex.perform]
    cases found : ix.partitions[c]? with
    | none => rfl
    | some p =>
      simp only [Option.map_some, Option.any_some, ← (wf c p found).contains_seqOf]
  | count c type =>
    simp only [Catalogue.perform, MemoryIndex.perform]
    rw [ask_catalogue fun p => p.count_eq type]
  | select c query =>
    simp only [Catalogue.perform, MemoryIndex.perform]
    rw [ask_catalogue fun p => p.select_eq query]
  | selectAfter c after limit type =>
    have alike : ∀ p : Partition, p.selectAfter after limit type = IndexEntry.following after limit type p.entries :=
      fun p => rfl
    simp only [Catalogue.perform, MemoryIndex.perform]
    rw [ask_catalogue alike]

/-- No fewer numbers are given out than rows are added. -/
theorem reached_le_lastSeq (wf : ix.WellFormed) (call : IndexCall) :
    ix.catalogue.reached ix.lastSeq call ≤ (ix.perform call).2.lastSeq := by
  cases call with
  | insert c m =>
    simp only [Catalogue.reached, perform_catalogue wf]
    simp only [MemoryIndex.perform, MemoryIndex.insert]
    cases ix.partitions[c]? with
    | none => exact le_rfl
    | some p =>
      by_cases listed : p.seqOf.contains m.id = true
      · simp only [if_pos listed]
        exact le_rfl
      · simp only [if_neg listed]
        exact le_rfl
  | remove c id =>
    rw [Catalogue.reached_of_members_nil _ _ rfl]
    change ix.lastSeq ≤ (ix.remove c id).2.lastSeq
    rw [MemoryIndex.remove]
    split <;> exact le_rfl
  | replacePartition c members =>
    have numbering := fill_catalogue (c := c) ix members Partition.wellFormed_empty
    have le := (fill_spec (c := c) ix members Partition.wellFormed_empty).2.1
    have none_yet : ({} : Partition).entries = [] := rfl
    rw [none_yet, List.map_nil] at numbering
    simp only [Catalogue.reached, perform_catalogue wf]
    simp only [MemoryIndex.perform, MemoryIndex.replacePartition]
    rcases filled : fill c members {} ix with ⟨outcome, ix'⟩
    rw [filled] at numbering le
    cases repeated : Member.repeated? [] members with
    | some id =>
      simp only [repeated] at numbering
      rw [numbering]
      exact le
    | none =>
      simp only [repeated] at numbering
      obtain ⟨q, rfl, -, reached⟩ := numbering
      exact reached.ge
  | createPartition c =>
    rw [Catalogue.reached_of_members_nil _ _ rfl]
    change ix.lastSeq ≤ (ix.createPartition c).2.lastSeq
    rw [MemoryIndex.createPartition]
    split <;> exact le_rfl
  | dropPartition | hasPartition | partitions | contains | count | select | selectAfter =>
    rw [Catalogue.reached_of_members_nil _ _ rfl]
    exact le_rfl

end MemoryIndex

end Containment
