/-
Module: Containment.Proofs.Index.Ordering
Purpose: The orders of a listing, said of the members themselves: as a record lists them, the newest first with the later
  listed first among equally new ones, or by the bytes of their identifiers. A catalogue that arranges the rows of a
  container arranges the members that the rows repeat.
Main exports: SortOrder.ofMembers, SortOrder.map_arrange, SortOrder.map_filter_arrange
-/
import Containment.Proofs.Index.MemoryCatalogue
import Containment.Proofs.Text.Utf8
import Mathlib.Data.List.Induction
import Mathlib.Data.List.Sort

namespace Containment

open Text

instance : Std.TransOrd Time.Instant :=
  inferInstanceAs (Std.TransCmp (compareLex (compareOn Time.Instant.secs) (compareOn Time.Instant.nanos)))

namespace SortOrder

/-- The members of a record in an order. -/
def ofMembers : SortOrder → List Member → List Member
  | .insertion, members => members
  | .newestFirst, members => members.reverse.insertionSort fun a b => (compare b.addedAt a.addedAt).isLE
  | .memberId, members => members.insertionSort fun a b => Utf8.encode a.id ≤ Utf8.encode b.id

/-- How an order compares two rows. -/
def compareRows : SortOrder → IndexEntry → IndexEntry → Ordering
  | .insertion => compareOn IndexEntry.seq
  | .newestFirst => compareLex (fun a b => compareOn IndexEntry.insertedAt b a) fun a b => compareOn IndexEntry.seq b a
  | .memberId => compareOn IndexEntry.memberId

instance (order : SortOrder) : Std.TransCmp order.compareRows := by
  cases order with
  | insertion => exact inferInstanceAs (Std.TransCmp (compareOn IndexEntry.seq))
  | newestFirst =>
    exact inferInstanceAs (Std.TransCmp (compareLex (fun a b => compareOn IndexEntry.insertedAt b a)
      fun a b => compareOn IndexEntry.seq b a))
  | memberId => exact inferInstanceAs (Std.TransCmp (compareOn IndexEntry.memberId))

variable {rows : List IndexEntry}

/-- Two rows of a container that an order does not tell apart are the same. -/
theorem eq_of_compareRows (order : SortOrder) (ordered : rows.Pairwise fun a b => a.seq < b.seq)
    (distinct : (rows.map IndexEntry.memberId).Nodup) {a b : IndexEntry} (memA : a ∈ rows) (memB : b ∈ rows)
    (same : order.compareRows a b = .eq) : a = b := by
  have numbers : (rows.map IndexEntry.seq).Nodup := by
    rw [List.Nodup, List.pairwise_map]
    exact ordered.imp Nat.ne_of_lt
  cases order with
  | insertion => exact List.inj_on_of_nodup_map numbers memA memB (compare_eq_iff_eq.1 same)
  | newestFirst =>
    obtain ⟨-, seqs⟩ := Ordering.then_eq_eq.1 same
    exact (List.inj_on_of_nodup_map numbers memB memA (compare_eq_iff_eq.1 seqs)).symm
  | memberId =>
    have same : compare a.memberId b.memberId = .eq := same
    exact List.inj_on_of_nodup_map distinct memA memB (Std.LawfulEqCmp.eq_of_compare same)

theorem arrange_eq (order : SortOrder) (rows : List IndexEntry) (ordered : rows.Pairwise fun a b => a.seq < b.seq) :
    order.arrange rows = rows.mergeSort fun a b => (order.compareRows a b).isLE := by
  cases order with
  | insertion =>
    apply Eq.symm
    apply List.mergeSort_of_pairwise
    exact ordered.imp fun less => Ordering.isLE_of_eq_lt (compare_lt_iff_lt.2 less)
  | newestFirst => rfl
  | memberId => rfl

/-- Rows in an order, none of them twice. -/
theorem pairwise_arrange (order : SortOrder) (ordered : rows.Pairwise fun a b => a.seq < b.seq)
    (distinct : (rows.map IndexEntry.memberId).Nodup) :
    (order.arrange rows).Pairwise fun a b => order.compareRows a b = .lt := by
  have weakly : (order.arrange rows).Pairwise fun a b => (order.compareRows a b).isLE := by
    rw [order.arrange_eq rows ordered]
    apply List.pairwise_mergeSort
    · exact fun a b c => Std.TransCmp.isLE_trans
    · intro a b
      have swapped : order.compareRows a b = (order.compareRows b a).swap := Std.OrientedCmp.eq_swap
      rw [swapped]
      cases order.compareRows b a <;> rfl
  have nodup : (order.arrange rows).Nodup := (order.arrange_perm rows).nodup_iff.2 (distinct.of_map _)
  apply (weakly.and nodup).imp_of_mem
  rintro a b memA memB ⟨le, ne⟩
  cases compared : order.compareRows a b with
  | lt => rfl
  | eq => exact absurd (order.eq_of_compareRows ordered distinct (mem_arrange.1 memA) (mem_arrange.1 memB) compared) ne
  | gt =>
    rw [compared] at le
    cases le

/-- Only one list has the rows of a container in an order. -/
theorem eq_arrange (order : SortOrder) (ordered : rows.Pairwise fun a b => a.seq < b.seq)
    (distinct : (rows.map IndexEntry.memberId).Nodup) {sorted : List IndexEntry}
    (pairwise : sorted.Pairwise fun a b => order.compareRows a b = .lt) (mem : ∀ row, row ∈ sorted ↔ row ∈ rows) :
    sorted = order.arrange rows :=
  eq_of_ordered id pairwise (order.pairwise_arrange ordered distinct) fun row => (mem row).trans mem_arrange.symm

theorem filter_arrange (order : SortOrder) (ordered : rows.Pairwise fun a b => a.seq < b.seq)
    (distinct : (rows.map IndexEntry.memberId).Nodup) (p : IndexEntry → Bool) :
    (order.arrange rows).filter p = order.arrange (rows.filter p) := by
  apply order.eq_arrange (ordered.filter p) (distinct.sublist (List.filter_sublist.map _))
  · exact (order.pairwise_arrange ordered distinct).filter p
  · intro row
    rw [List.mem_filter, List.mem_filter, mem_arrange]

/-- A row with a higher number than all others comes before the first row that is not newer. -/
theorem pairwise_orderedInsert {row : IndexEntry} {sorted : List IndexEntry} (later : ∀ a ∈ sorted, a.seq < row.seq)
    (pairwise : sorted.Pairwise fun a b => newestFirst.compareRows a b = .lt) :
    (sorted.orderedInsert (fun a b => (compare b.insertedAt a.insertedAt).isLE) row).Pairwise
      fun a b => newestFirst.compareRows a b = .lt := by
  induction sorted with
  | nil => exact List.pairwise_singleton ..
  | cons a rest ih =>
    obtain ⟨first, others⟩ := List.pairwise_cons.1 pairwise
    rw [List.orderedInsert_cons]
    split
    · rename_i newer
      have before : newestFirst.compareRows row a = .lt := by
        cases compared : compare a.insertedAt row.insertedAt with
        | lt => exact Ordering.then_eq_lt.2 (.inl compared)
        | eq => exact Ordering.then_eq_lt.2 (.inr ⟨compared, compare_lt_iff_lt.2 (later a List.mem_cons_self)⟩)
        | gt =>
          rw [compared] at newer
          cases newer
      refine List.pairwise_cons.2 ⟨?_, pairwise⟩
      intro b mem
      rcases List.mem_cons.1 mem with rfl | mem
      · exact before
      · exact Std.TransCmp.lt_trans before (first b mem)
    · rename_i older
      refine List.pairwise_cons.2 ⟨?_, ih (fun b mem => later b (List.mem_cons_of_mem a mem)) others⟩
      intro b mem
      rcases (List.mem_orderedInsert _).1 mem with rfl | mem
      · have swap : compare b.insertedAt a.insertedAt = (compare a.insertedAt b.insertedAt).swap :=
          Std.OrientedCmp.eq_swap
        apply Ordering.then_eq_lt.2
        left
        change compare b.insertedAt a.insertedAt = .lt
        cases compared : compare a.insertedAt b.insertedAt with
        | gt => rw [swap, compared, Ordering.swap]
        | lt | eq =>
          rw [compared] at older
          exact absurd rfl older
      · exact first b mem

/-- Rows taken from their end and each put before the first that is not newer have the newest first. -/
theorem pairwise_insertionSort (ordered : rows.Pairwise fun a b => a.seq < b.seq) :
    (rows.reverse.insertionSort fun a b => (compare b.insertedAt a.insertedAt).isLE).Pairwise
      fun a b => newestFirst.compareRows a b = .lt := by
  induction rows using List.reverseRecOn with
  | nil => exact List.Pairwise.nil
  | append_singleton rows row ih =>
    obtain ⟨before, -, later⟩ := List.pairwise_append.1 ordered
    rw [List.reverse_append, List.reverse_singleton, List.singleton_append, List.insertionSort_cons]
    apply pairwise_orderedInsert
    · intro a mem
      rw [List.mem_insertionSort, List.mem_reverse] at mem
      exact later a mem row (List.mem_singleton.2 rfl)
    · exact ih before

theorem mem_newestFirst {sorted : List IndexEntry} {row : IndexEntry} :
    row ∈ (sorted.reverse.insertionSort fun a b => (compare b.insertedAt a.insertedAt).isLE) ↔ row ∈ sorted := by
  rw [List.mem_insertionSort, List.mem_reverse]

theorem pairwise_bytes (distinct : (rows.map IndexEntry.memberId).Nodup) :
    (rows.insertionSort fun a b => Utf8.encode a.memberId ≤ Utf8.encode b.memberId).Pairwise
      fun a b => memberId.compareRows a b = .lt := by
  have total : Std.Total fun a b : IndexEntry => Utf8.encode a.memberId ≤ Utf8.encode b.memberId :=
    ⟨fun a b => List.le_total _ _⟩
  have trans : IsTrans IndexEntry fun a b => Utf8.encode a.memberId ≤ Utf8.encode b.memberId :=
    ⟨fun a b c => List.le_trans⟩
  have weakly := List.pairwise_insertionSort (fun a b : IndexEntry => Utf8.encode a.memberId ≤ Utf8.encode b.memberId)
    rows
  have different := (List.perm_insertionSort
    (fun a b : IndexEntry => Utf8.encode a.memberId ≤ Utf8.encode b.memberId) rows).map IndexEntry.memberId
  have apart := List.pairwise_map.1 (different.nodup_iff.2 distinct)
  apply (weakly.and apart).imp
  rintro a b ⟨le, ne⟩
  have before : a.memberId < b.memberId := by
    rcases Std.lt_trichotomy a.memberId b.memberId with before | same | after
    · exact before
    · exact absurd same ne
    · exact absurd (Utf8.encode_lt_encode_iff.2 after) le
  change compareOfLessAndEq a.memberId b.memberId = .lt
  rw [compareOfLessAndEq, if_pos before]

/-- The rows of a container in an order repeat the members in that order. -/
theorem map_arrange (order : SortOrder) (ordered : rows.Pairwise fun a b => a.seq < b.seq)
    (distinct : (rows.map IndexEntry.memberId).Nodup) :
    (order.arrange rows).map IndexEntry.toMember = order.ofMembers (rows.map IndexEntry.toMember) := by
  cases order with
  | insertion => rfl
  | newestFirst =>
    rw [← newestFirst.eq_arrange ordered distinct (pairwise_insertionSort ordered) fun row => mem_newestFirst,
      ofMembers, ← List.map_reverse]
    apply List.map_insertionSort
    exact fun a _ b _ => Iff.rfl
  | memberId =>
    rw [← memberId.eq_arrange ordered distinct (pairwise_bytes distinct) fun row => List.mem_insertionSort _,
      ofMembers]
    apply List.map_insertionSort
    exact fun a _ b _ => Iff.rfl

/-- The rows of a kind in an order repeat the members of that kind in that order. -/
theorem map_filter_arrange (order : SortOrder) (ordered : rows.Pairwise fun a b => a.seq < b.seq)
    (distinct : (rows.map IndexEntry.memberId).Nodup) (type : Option MemberType) :
    ((order.arrange rows).filter fun row => typePasses type row.type).map IndexEntry.toMember =
      order.ofMembers ((rows.map IndexEntry.toMember).filter fun m => typePasses type m.type) := by
  rw [order.filter_arrange ordered distinct,
    order.map_arrange (ordered.filter _) (distinct.sublist (List.filter_sublist.map _)), List.filter_map]
  rfl

theorem ofMembers_perm (order : SortOrder) (members : List Member) : (order.ofMembers members).Perm members := by
  cases order with
  | insertion => exact .refl members
  | newestFirst => exact (List.perm_insertionSort _ _).trans (List.reverse_perm members)
  | memberId => exact List.perm_insertionSort _ _

end SortOrder

example : SortOrder.newestFirst.ofMembers
    [{ id := "a", type := .resource, addedAt := Time.Instant.ofMillis 1 },
      { id := "b", type := .resource, addedAt := Time.Instant.ofMillis 2 },
      { id := "c", type := .resource, addedAt := Time.Instant.ofMillis 1 }] =
    [{ id := "b", type := .resource, addedAt := Time.Instant.ofMillis 2 },
      { id := "c", type := .resource, addedAt := Time.Instant.ofMillis 1 },
      { id := "a", type := .resource, addedAt := Time.Instant.ofMillis 1 }] := by
  decide +kernel

end Containment
