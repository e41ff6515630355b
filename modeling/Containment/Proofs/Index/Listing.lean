/-
Module: Containment.Proofs.Index.Listing
Purpose: What the index in memory holds, as a list of members for each container. The numbers of rows matter
  only through the order that they give; the invariant below is what keeps that order the order of insertion.
Main exports: Listing, IndexEntry.toMember, Partition.WellFormed, eq_of_ordered, values_eq_map_snd_toList,
  Partition.WellFormed.entries_add, Partition.WellFormed.entries_remove
-/
import Containment.Index.Memory
import Mathlib.Data.List.Sort
import Mathlib.Logic.Function.Basic

namespace Containment

open Time

/-- The members of each container that has any list at all. -/
abbrev Listing := String → Option (List Member)

/-- The entry of a membership list that a row repeats. -/
def IndexEntry.toMember (e : IndexEntry) : Member :=
  { id := e.memberId, type := e.type, addedAt := e.insertedAt }

/-- Two lists in increasing order of their keys with the same members are the same. -/
theorem eq_of_ordered {α β : Type} {cmp : β → β → Ordering} [Std.TransCmp cmp] (key : α → β) {as bs : List α}
    (ordered : as.Pairwise fun a b => cmp (key a) (key b) = .lt)
    (ordered' : bs.Pairwise fun a b => cmp (key a) (key b) = .lt) (same : ∀ a, a ∈ as ↔ a ∈ bs) : as = bs := by
  have irrefl : Std.Irrefl fun a b : α => cmp (key a) (key b) = .lt := by
    constructor
    intro a below
    have self : cmp (key a) (key a) = .eq := Std.ReflCmp.compare_self
    rw [self] at below
    cases below
  have antisymm : Std.Antisymm fun a b : α => cmp (key a) (key b) = .lt := by
    constructor
    intro a b below above
    have swap : cmp (key a) (key b) = (cmp (key b) (key a)).swap := Std.OrientedCmp.eq_swap
    rw [swap, above] at below
    cases below
  exact ordered.eq_of_mem_iff ordered' same

/-- The values of a map are the second parts of its pairs, in the same order. -/
theorem values_eq_map_snd_toList {α β : Type} {cmp : α → α → Ordering} [Std.TransCmp cmp]
    (t : Std.ExtTreeMap α β cmp) : t.values = t.toList.map Prod.snd := by
  rcases t with ⟨⟨q⟩⟩
  induction q using Quotient.inductionOn with
  | _ t =>
    have values : t.inner.values = List.map (fun x => x.snd) t.inner.toListModel :=
      Std.DTreeMap.Internal.Impl.values_eq_map_snd
    have pairs := Std.DTreeMap.Internal.Impl.Const.toList_eq_toListModel_map (t := t.inner)
    change t.inner.values = List.map Prod.snd (Std.DTreeMap.Internal.Impl.Const.toList t.inner)
    rw [values, pairs]
    simp

theorem map_insert {α β : Type} (f : α → β) (t : Std.ExtTreeMap String α) (key : String) (value : α) :
    (t.insert key value).map (fun _ => f) = (t.map fun _ => f).insert key (f value) := by
  apply Std.ExtTreeMap.ext_getElem?
  intro other
  simp only [Std.ExtTreeMap.getElem?_map, Std.ExtTreeMap.getElem?_insert]
  split <;> rfl

theorem map_erase {α β : Type} (f : α → β) (t : Std.ExtTreeMap String α) (key : String) :
    (t.erase key).map (fun _ => f) = (t.map fun _ => f).erase key := by
  apply Std.ExtTreeMap.ext_getElem?
  intro other
  simp only [Std.ExtTreeMap.getElem?_map, Std.ExtTreeMap.getElem?_erase]
  split <;> rfl

namespace Partition

/-- Every row stands under its own number, none of which is above `last`, and belongs to `container`; the
number noted for a member is that of its row. -/
structure WellFormed (container : String) (last : Nat) (p : Partition) : Prop where
  row : ∀ n (e : IndexEntry), p.rows[n]? = some e → e.seq = n ∧ n ≤ last ∧ e.containerId = container
  noted : ∀ id n, p.seqOf[id]? = some n ↔ ∃ e : IndexEntry, p.rows[n]? = some e ∧ e.memberId = id

/-- The rows of a partition as a membership list. -/
def members (p : Partition) : List Member :=
  p.entries.map IndexEntry.toMember

variable {container : String} {last : Nat} {p : Partition}

theorem WellFormed.mono (wf : p.WellFormed container last) {later : Nat} (le : last ≤ later) :
    p.WellFormed container later :=
  ⟨fun n e row => ⟨(wf.row n e row).1, (wf.row n e row).2.1.trans le, (wf.row n e row).2.2⟩, wf.noted⟩

theorem wellFormed_empty : ({} : Partition).WellFormed container last := by
  constructor
  · intro n e row
    simp at row
  · intro id n
    simp

theorem WellFormed.mem_entries (wf : p.WellFormed container last) {e : IndexEntry} :
    e ∈ p.entries ↔ p.rows[e.seq]? = some e := by
  rw [entries, values_eq_map_snd_toList, List.mem_map]
  constructor
  · intro given
    rcases given with ⟨⟨n, e'⟩, mem, rfl⟩
    have row := Std.ExtTreeMap.mem_toList_iff_getElem?_eq_some.1 mem
    rw [(wf.row n e' row).1]
    exact row
  · intro row
    exact ⟨(e.seq, e), Std.ExtTreeMap.mem_toList_iff_getElem?_eq_some.2 row, rfl⟩

/-- Rows are listed in the order of their numbers. -/
theorem WellFormed.entries_sorted (wf : p.WellFormed container last) :
    p.entries.Pairwise fun a b => a.seq < b.seq := by
  rw [entries, values_eq_map_snd_toList, List.pairwise_map]
  have ordered := p.rows.ordered_keys_toList
  apply ordered.imp_of_mem
  intro answer given memA memB less
  rcases answer with ⟨n, a⟩
  rcases given with ⟨k, b⟩
  have rowA := (wf.row n a (Std.ExtTreeMap.mem_toList_iff_getElem?_eq_some.1 memA)).1
  have rowB := (wf.row k b (Std.ExtTreeMap.mem_toList_iff_getElem?_eq_some.1 memB)).1
  rw [rowA, rowB]
  exact compare_lt_iff_lt.1 less

/-- A list in the order of numbers that has the rows of a partition is the list of its rows. -/
theorem WellFormed.entries_eq (wf : p.WellFormed container last) {rows : List IndexEntry}
    (sorted : rows.Pairwise fun a b => a.seq < b.seq)
    (mem : ∀ e, e ∈ rows ↔ p.rows[e.seq]? = some e) : p.entries = rows := by
  have irrefl : Std.Irrefl fun a b : IndexEntry => a.seq < b.seq := ⟨fun a => Nat.lt_irrefl a.seq⟩
  have antisymm : Std.Antisymm fun a b : IndexEntry => a.seq < b.seq :=
    ⟨fun a b less more => absurd (Nat.lt_trans less more) (Nat.lt_irrefl a.seq)⟩
  exact List.Pairwise.eq_of_mem_iff wf.entries_sorted sorted fun e => wf.mem_entries.trans (mem e).symm

theorem WellFormed.contains_seqOf_iff (wf : p.WellFormed container last) {id : String} :
    p.seqOf.contains id = true ↔ ∃ m ∈ p.members, m.id = id := by
  rw [Std.ExtTreeMap.contains_eq_isSome_getElem?, Option.isSome_iff_exists]
  constructor
  · intro given
    rcases given with ⟨n, noted⟩
    obtain ⟨e, row, rfl⟩ := (wf.noted id n).1 noted
    have number := (wf.row n e row).1
    exact ⟨e.toMember, List.mem_map.2 ⟨e, wf.mem_entries.2 (number ▸ row), rfl⟩, rfl⟩
  · intro given
    rcases given with ⟨m, mem, rfl⟩
    obtain ⟨e, listed, rfl⟩ := List.mem_map.1 mem
    exact ⟨e.seq, (wf.noted _ _).2 ⟨e, wf.mem_entries.1 listed, rfl⟩⟩

/-- No member has two rows. -/
theorem WellFormed.distinct (wf : p.WellFormed container last) : (p.entries.map IndexEntry.memberId).Nodup := by
  rw [List.Nodup, List.pairwise_map]
  apply wf.entries_sorted.imp_of_mem
  intro a b memA memB less same
  have notedA := (wf.noted a.memberId a.seq).2 ⟨a, wf.mem_entries.1 memA, rfl⟩
  have notedB := (wf.noted b.memberId b.seq).2 ⟨b, wf.mem_entries.1 memB, rfl⟩
  rw [same, notedB] at notedA
  exact absurd (Option.some.inj notedA) (Nat.ne_of_gt less)

/-! ### Adding a row -/

theorem WellFormed.add (wf : p.WellFormed container last) (entry : IndexEntry)
    (number : entry.seq = last + 1) (own : entry.containerId = container)
    (fresh : p.seqOf.contains entry.memberId = false) :
    (p.add entry).WellFormed container (last + 1) := by
  have unnoted : p.seqOf[entry.memberId]? = none := by
    rw [Std.ExtTreeMap.contains_eq_isSome_getElem?] at fresh
    simpa only [Option.isSome_eq_false_iff, Option.isNone_iff_eq_none] using fresh
  constructor
  · intro n e row
    rw [Partition.add, Std.ExtTreeMap.getElem?_insert] at row
    split at row
    · rename_i same
      cases row
      have same := Std.LawfulEqCmp.compare_eq_iff_eq.1 same
      exact ⟨same, by omega, own⟩
    · obtain ⟨seq, le, mine⟩ := wf.row n e row
      exact ⟨seq, by omega, mine⟩
  · intro id n
    simp only [Partition.add, Std.ExtTreeMap.getElem?_insert, Std.LawfulEqCmp.compare_eq_iff_eq]
    by_cases member : entry.memberId = id
    · rw [if_pos member]
      constructor
      · intro impossible
        cases impossible
        exact ⟨entry, by simp, member⟩
      · intro given
        rcases given with ⟨e, row, named⟩
        split at row
        · rename_i same
          rw [same]
        · have noted := (wf.noted id n).2 ⟨e, row, named⟩
          rw [← member, unnoted] at noted
          cases noted
    · rw [if_neg member, wf.noted]
      constructor
      · intro given
        rcases given with ⟨e, row, named⟩
        have bound := (wf.row n e row).2.1
        rw [if_neg (by omega)]
        exact ⟨e, row, named⟩
      · intro given
        rcases given with ⟨e, row, named⟩
        split at row
        · cases row
          exact absurd named member
        · exact ⟨e, row, named⟩

/-- A row with a new number comes last. -/
theorem WellFormed.entries_add (wf : p.WellFormed container last) (entry : IndexEntry)
    (number : entry.seq = last + 1) (own : entry.containerId = container)
    (fresh : p.seqOf.contains entry.memberId = false) :
    (p.add entry).entries = p.entries ++ [entry] := by
  have wf' := wf.add entry number own fresh
  refine wf'.entries_eq ?_ fun e => ?_
  · rw [List.pairwise_append]
    refine ⟨wf.entries_sorted, List.pairwise_singleton .., ?_⟩
    intro a memA b memB
    rw [List.mem_singleton.1 memB]
    have bound := (wf.row _ a (wf.mem_entries.1 memA)).2.1
    omega
  · simp only [List.mem_append, List.mem_singleton, wf.mem_entries, Partition.add,
      Std.ExtTreeMap.getElem?_insert, Std.LawfulEqCmp.compare_eq_iff_eq]
    constructor
    · intro given
      rcases given with row | rfl
      · have bound := (wf.row _ e row).2.1
        rw [if_neg (by omega)]
        exact row
      · simp
    · intro row
      split at row
      · exact .inr (Option.some.inj row).symm
      · exact .inl row

theorem WellFormed.members_add (wf : p.WellFormed container last) (entry : IndexEntry)
    (number : entry.seq = last + 1) (own : entry.containerId = container)
    (fresh : p.seqOf.contains entry.memberId = false) :
    (p.add entry).members = p.members ++ [entry.toMember] := by
  simp [members, wf.entries_add entry number own fresh]

/-! ### Taking a row out -/

theorem WellFormed.remove (wf : p.WellFormed container last) (id : String) :
    (p.remove id).2.WellFormed container last := by
  simp only [Partition.remove]
  cases noted : p.seqOf[id]? with
  | none => exact wf
  | some seq =>
    obtain ⟨gone, rowGone, named⟩ := (wf.noted id seq).1 noted
    constructor
    · intro n e row
      rw [Std.ExtTreeMap.getElem?_erase] at row
      split at row
      · cases row
      · exact wf.row n e row
    · intro other n
      simp only [Std.ExtTreeMap.getElem?_erase, Std.LawfulEqCmp.compare_eq_iff_eq]
      by_cases same : id = other
      · subst same
        rw [if_pos rfl]
        refine ⟨(fun impossible => by cases impossible), ?_⟩
        intro given
        rcases given with ⟨e, row, member⟩
        split at row
        · cases row
        · rename_i different
          have again := (wf.noted id n).2 ⟨e, row, member⟩
          rw [noted] at again
          exact absurd (Option.some.inj again) different
      · rw [if_neg same, wf.noted]
        constructor
        · intro given
          rcases given with ⟨e, row, member⟩
          have different : seq ≠ n := by
            intro equal
            subst equal
            rw [rowGone] at row
            cases row
            exact same (named.symm.trans member)
          rw [if_neg different]
          exact ⟨e, row, member⟩
        · intro given
          rcases given with ⟨e, row, member⟩
          split at row
          · cases row
          · exact ⟨e, row, member⟩

/-- Taking a member's row out leaves the others as they were. -/
theorem WellFormed.entries_remove (wf : p.WellFormed container last) (id : String) :
    (p.remove id).2.entries = p.entries.filter (·.memberId ≠ id) := by
  have wf' := wf.remove id
  apply wf'.entries_eq (wf.entries_sorted.sublist List.filter_sublist)
  intro e
  rw [List.mem_filter, wf.mem_entries, decide_eq_true_eq]
  simp only [Partition.remove]
  cases noted : p.seqOf[id]? with
  | none =>
    apply and_iff_left_of_imp
    intro row member
    have again := (wf.noted id e.seq).2 ⟨e, row, member⟩
    rw [noted] at again
    cases again
  | some seq =>
    obtain ⟨gone, rowGone, named⟩ := (wf.noted id seq).1 noted
    simp only [Std.ExtTreeMap.getElem?_erase, Std.LawfulEqCmp.compare_eq_iff_eq]
    constructor
    · intro given
      rcases given with ⟨row, other⟩
      have different : seq ≠ e.seq := by
        intro same
        rw [← same, rowGone] at row
        cases row
        exact other named
      rw [if_neg different]
      exact row
    · intro row
      split at row
      · cases row
      · rename_i different
        refine ⟨row, fun member => different ?_⟩
        have again := (wf.noted id e.seq).2 ⟨e, row, member⟩
        rw [noted] at again
        exact Option.some.inj again

theorem WellFormed.members_remove (wf : p.WellFormed container last) (id : String) :
    (p.remove id).2.members = p.members.filter (·.id ≠ id) := by
  rw [members, members, wf.entries_remove, List.filter_map]
  rfl

end Partition

end Containment
