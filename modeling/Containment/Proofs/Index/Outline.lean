/-
Module: Containment.Proofs.Index.Outline
Purpose: The rows of one container without times and numbers. What an insertion, a removal or a new partition makes of
  them, and whether it is refused, depends on nothing else, and so do the answers to questions; requests about other
  containers leave them alone.
Main exports: IndexEntry.timeless, Catalogue.outline, Catalogue.insert_alike, Catalogue.remove_alike,
  Catalogue.replacePartition_alike, Catalogue.select_alike, Catalogue.getElem?_perform_of_ne
-/
import Containment.Proofs.Container.Timeless
import Containment.Proofs.Index.Catalogue
import Containment.Proofs.Maps

namespace Containment

open Time

/-- The row without its time and its number. -/
def IndexEntry.timeless (row : IndexEntry) : IndexEntry :=
  { row with insertedAt := .epoch, seq := 0 }

/-- Orders other than that of the times and numbers do without them. -/
theorem SortOrder.arrange_timeless {order : SortOrder} (untimed : order ≠ .newestFirst) (rows : List IndexEntry) :
    order.arrange (rows.map IndexEntry.timeless) = (order.arrange rows).map IndexEntry.timeless := by
  cases order with
  | insertion => rfl
  | newestFirst => exact absurd rfl untimed
  | memberId =>
    apply Eq.symm
    apply List.map_mergeSort
    intro a _ b _
    rfl

theorem IndexQuery.answer_timeless {query : IndexQuery} (untimed : query.sort ≠ .newestFirst)
    (rows : List IndexEntry) :
    query.answer (rows.map IndexEntry.timeless) = (query.answer rows).map IndexEntry.timeless := by
  rw [answer, SortOrder.arrange_timeless untimed, List.filter_map, window_map]
  rfl

namespace Catalogue

variable {held held' : Catalogue} {c : String} {last last' : Nat}

/-- The rows of a container without times and numbers. -/
def outline (held : Catalogue) (c : String) : Option (List IndexEntry) :=
  held[c]?.map (List.map IndexEntry.timeless)

theorem outline_insert_self (held : Catalogue) (c : String) (rows : List IndexEntry) :
    Catalogue.outline (held.insert c rows) c = some (rows.map IndexEntry.timeless) := by
  rw [outline, Std.ExtTreeMap.getElem?_insert_self]
  rfl

/-- Two containers either have no rows both, or rows that differ in times and numbers. -/
theorem outline_eq_iff : held.outline c = held'.outline c ↔ (held[c]? = none ∧ held'[c]? = none) ∨
    ∃ rows rows', held[c]? = some rows ∧ held'[c]? = some rows' ∧
      rows.map IndexEntry.timeless = rows'.map IndexEntry.timeless := by
  simp only [outline]
  cases held[c]? with
  | none => cases held'[c]? <;> simp
  | some rows => cases held'[c]? <;> simp

theorem memberIds_eq {rows rows' : List IndexEntry}
    (same : rows.map IndexEntry.timeless = rows'.map IndexEntry.timeless) :
    rows.map IndexEntry.memberId = rows'.map IndexEntry.memberId := by
  have ids := congrArg (List.map IndexEntry.memberId) same
  rw [List.map_map, List.map_map] at ids
  exact ids

theorem insert_alike (same : held.outline c = held'.outline c) {m m' : Member} (alike : m.timeless = m'.timeless) :
    ((held.perform last (.insert c m)).1.map fun _ => ()) = ((held'.perform last' (.insert c m')).1.map fun _ => ()) ∧
      (held.perform last (.insert c m)).2.outline c = (held'.perform last' (.insert c m')).2.outline c := by
  have ids : m.id = m'.id := show m.timeless.id = m'.timeless.id by rw [alike]
  have types : m.type = m'.type := show m.timeless.type = m'.timeless.type by rw [alike]
  simp only [perform]
  rcases outline_eq_iff.1 same with ⟨none, none'⟩ | ⟨rows, rows', found, found', rowsSame⟩
  · simp only [none, none']
    exact ⟨trivial, same⟩
  · simp only [found, found', memberIds_eq rowsSame, ids]
    by_cases listed : m'.id ∈ rows'.map IndexEntry.memberId
    · simp only [if_pos listed]
      exact ⟨trivial, same⟩
    · simp only [if_neg listed]
      refine ⟨rfl, ?_⟩
      rw [outline_insert_self, outline_insert_self, List.map_append, List.map_append, rowsSame]
      simp [IndexEntry.timeless, IndexEntry.ofMember, ids, types]

theorem remove_alike (same : held.outline c = held'.outline c) (id : String) :
    ((held.perform last (.remove c id)).1.map fun _ => ()) = ((held'.perform last' (.remove c id)).1.map fun _ => ()) ∧
      (held.perform last (.remove c id)).2.outline c = (held'.perform last' (.remove c id)).2.outline c := by
  have kept : ∀ rows : List IndexEntry, (rows.filter fun row => !(row.memberId == id)).map IndexEntry.timeless =
      (rows.map IndexEntry.timeless).filter fun row => !(row.memberId == id) := by
    intro rows
    rw [List.filter_map]
    rfl
  simp only [perform]
  rcases outline_eq_iff.1 same with ⟨none, none'⟩ | ⟨rows, rows', found, found', rowsSame⟩
  · simp only [none, none']
    exact ⟨trivial, same⟩
  · simp only [found, found']
    refine ⟨rfl, ?_⟩
    rw [outline_insert_self, outline_insert_self, kept, kept, rowsSame]

theorem repeated?_timeless (seen : List String) (members : List Member) :
    Member.repeated? seen (members.map Member.timeless) = Member.repeated? seen members := by
  induction members generalizing seen with
  | nil => rfl
  | cons m rest ih => simp only [List.map_cons, Member.repeated?, Member.timeless_id, ih]

theorem numbered_timeless (c : String) (last : Nat) (members : List Member) :
    (IndexEntry.numbered c last members).map IndexEntry.timeless =
      members.map fun m => IndexEntry.ofMember c m.timeless 0 := by
  induction members generalizing last with
  | nil => rfl
  | cons m rest ih =>
    rw [IndexEntry.numbered, List.map_cons, List.map_cons, ih]
    rfl

theorem replacePartition_alike (same : held.outline c = held'.outline c) {members members' : List Member}
    (alike : members.map Member.timeless = members'.map Member.timeless) :
    (held.perform last (.replacePartition c members)).1 = (held'.perform last' (.replacePartition c members')).1 ∧
      (held.perform last (.replacePartition c members)).2.outline c =
        (held'.perform last' (.replacePartition c members')).2.outline c := by
  have repeats : Member.repeated? [] members = Member.repeated? [] members' := by
    rw [← repeated?_timeless [] members, alike, repeated?_timeless]
  simp only [perform, repeats]
  cases Member.repeated? [] members' with
  | some id => exact ⟨rfl, same⟩
  | none =>
    refine ⟨rfl, ?_⟩
    have row : ∀ members : List Member, (members.map fun m => IndexEntry.ofMember c m.timeless 0) =
        (members.map Member.timeless).map fun m => IndexEntry.ofMember c m 0 := fun members => by
      rw [List.map_map]
      rfl
    rw [outline_insert_self, outline_insert_self, numbered_timeless, numbered_timeless, row, row, alike]

/-! ### Questions -/

theorem count_alike (same : held.outline c = held'.outline c) (type : Option MemberType) :
    (held.perform last (.count c type)).1 = (held'.perform last' (.count c type)).1 := by
  have counted : ∀ rows : List IndexEntry, rows.countP (fun row => typePasses type row.type) =
      (rows.map IndexEntry.timeless).countP fun row => typePasses type row.type := by
    intro rows
    rw [List.countP_map]
    rfl
  simp only [perform, ask]
  rcases outline_eq_iff.1 same with ⟨none, none'⟩ | ⟨rows, rows', found, found', rowsSame⟩
  · simp only [none, none']
  · simp only [found, found']
    rw [counted rows, counted rows', rowsSame]

theorem select_alike (same : held.outline c = held'.outline c) {query : IndexQuery}
    (untimed : query.sort ≠ .newestFirst) :
    (held.perform last (.select c query)).1.map (List.map IndexEntry.timeless) =
      (held'.perform last' (.select c query)).1.map (List.map IndexEntry.timeless) := by
  simp only [perform, ask]
  rcases outline_eq_iff.1 same with ⟨none, none'⟩ | ⟨rows, rows', found, found', rowsSame⟩
  · simp only [none, none']
  · simp only [found, found', Except.map]
    rw [← IndexQuery.answer_timeless untimed, ← IndexQuery.answer_timeless untimed, rowsSame]

/-- A request about one container leaves the rows of the others alone. -/
theorem getElem?_perform_of_ne {call : IndexCall} {d : String} (ne : call.container ≠ d) :
    (held.perform last call).2[d]? = held[d]? := by
  have written : ∀ rows : List IndexEntry, (held.insert call.container rows)[d]? = held[d]? :=
    fun rows => getElem?_insert_of_ne ne
  cases call with
  | createPartition c =>
    simp only [perform]
    split
    · rfl
    · exact written []
  | dropPartition c =>
    have ne : c ≠ d := ne
    simp only [perform]
    exact getElem?_erase_of_ne ne
  | insert c m =>
    simp only [perform]
    split
    · rfl
    · split
      · rfl
      · exact written _
  | remove c id =>
    simp only [perform]
    split
    · rfl
    · exact written _
  | replacePartition c members =>
    simp only [perform]
    split
    · rfl
    · exact written _
  | hasPartition | partitions | contains | count | select | selectAfter => rfl

end Catalogue

end Containment
