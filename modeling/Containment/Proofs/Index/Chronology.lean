/-
Module: Containment.Proofs.Index.Chronology
Purpose: Rows whose times come in the order of their numbers. Such rows, the newest first, are the rows in the order of
  their insertion from behind. An index keeps them so, as long as it lists members under the latest time and replaces
  partitions by members in order.
Main exports: IndexEntry.Chronological, IndexEntry.Chronological.newestFirst, IndexEntry.Chronological.answer,
  Catalogue.Chronological, Catalogue.Chronological.perform
-/
import Containment.Proofs.Index.Ordering
import Containment.Proofs.Orderly

namespace Containment

open Time

/-- Rows of different members in the order of their numbers and of their times. None of them is after `b`. -/
structure IndexEntry.Chronological (b : Instant) (rows : List IndexEntry) : Prop where
  numbered : rows.Pairwise fun earlier later => earlier.seq < later.seq
  distinct : (rows.map IndexEntry.memberId).Nodup
  ordered : rows.Pairwise fun earlier later => earlier.insertedAt.NotAfter later.insertedAt
  past : ∀ row ∈ rows, row.insertedAt.NotAfter b

namespace IndexEntry

variable {b b' : Instant} {rows : List IndexEntry} {c : String}

theorem chronological_nil (b : Instant) : Chronological b [] :=
  ⟨List.Pairwise.nil, List.nodup_nil, List.Pairwise.nil, List.forall_mem_nil _⟩

theorem Chronological.mono (chronological : Chronological b rows) (later : b.NotAfter b') : Chronological b' rows :=
  ⟨chronological.numbered, chronological.distinct, chronological.ordered,
    fun row mem => (chronological.past row mem).trans later⟩

theorem Chronological.filter (chronological : Chronological b rows) (p : IndexEntry → Bool) :
    Chronological b (rows.filter p) :=
  ⟨chronological.numbered.filter p, chronological.distinct.sublist (List.filter_sublist.map _),
    chronological.ordered.filter p, fun row mem => chronological.past row (List.mem_filter.1 mem).1⟩

/-- A row under the latest time and a higher number comes last. -/
theorem Chronological.append (chronological : Chronological b rows) {row : IndexEntry}
    (above : ∀ earlier ∈ rows, earlier.seq < row.seq) (new : row.memberId ∉ rows.map IndexEntry.memberId)
    (now : row.insertedAt = b) : Chronological b (rows ++ [row]) := by
  constructor
  · refine List.pairwise_append.2 ⟨chronological.numbered, List.pairwise_singleton .., fun earlier mem last is => ?_⟩
    rw [List.mem_singleton.1 is]
    exact above earlier mem
  · rw [List.map_append, List.nodup_append]
    refine ⟨chronological.distinct, List.nodup_singleton _, fun id listed last is same => ?_⟩
    rw [List.map_singleton, List.mem_singleton] at is
    exact new (is ▸ same ▸ listed)
  · refine List.pairwise_append.2 ⟨chronological.ordered, List.pairwise_singleton .., fun earlier mem last is => ?_⟩
    rw [List.mem_singleton.1 is, now]
    exact chronological.past earlier mem
  · intro earlier mem
    rcases List.mem_append.1 mem with old | last
    · exact chronological.past earlier old
    · rw [List.mem_singleton.1 last, now]
      exact .refl b

theorem map_toMember_numbered (c : String) (last : Nat) (members : List Member) :
    (numbered c last members).map IndexEntry.toMember = members := by
  induction members generalizing last with
  | nil => rfl
  | cons m rest ih => exact congrArg (List.cons m) (ih (last + 1))

theorem pairwise_seq_numbered (c : String) (last : Nat) (members : List Member) :
    (numbered c last members).Pairwise fun earlier later => earlier.seq < later.seq := by
  induction members generalizing last with
  | nil => exact List.Pairwise.nil
  | cons m rest ih => exact List.pairwise_cons.2 ⟨fun row mem => lt_seq_numbered row mem, ih (last + 1)⟩

/-- Members in order get rows in order. -/
theorem chronological_numbered {members : List Member} (dated : Member.DatedBy b members)
    (distinct : (members.map Member.id).Nodup) (last : Nat) : Chronological b (numbered c last members) := by
  have same := map_toMember_numbered c last members
  constructor
  · exact pairwise_seq_numbered c last members
  · have ids : ((numbered c last members).map IndexEntry.toMember).map Member.id =
        (numbered c last members).map IndexEntry.memberId := List.map_map
    rw [← ids, same]
    exact distinct
  · have ordered := dated.ordered
    rw [← same, List.pairwise_map] at ordered
    exact ordered
  · intro row mem
    have member : row.toMember ∈ members := same ▸ List.mem_map_of_mem mem
    exact dated.past row.toMember member

/-- Of two rows, the one with the higher number is the newer one or as new as the other. Either way it comes first. -/
theorem Chronological.newestFirst (chronological : Chronological b rows) :
    SortOrder.newestFirst.arrange rows = rows.reverse := by
  apply Eq.symm
  apply SortOrder.newestFirst.eq_arrange chronological.numbered chronological.distinct
  · rw [List.pairwise_reverse]
    apply (chronological.numbered.and chronological.ordered).imp
    rintro earlier later ⟨less, notAfter, -⟩
    cases compared : compare earlier.insertedAt later.insertedAt with
    | lt => exact Ordering.then_eq_lt.2 (.inl compared)
    | eq => exact Ordering.then_eq_lt.2 (.inr ⟨compared, compare_lt_iff_lt.2 less⟩)
    | gt =>
      rw [compared] at notAfter
      cases notAfter
  · exact fun row => List.mem_reverse

/-- The rows of a kind, the newest first, are those in the order of their insertion from behind. -/
theorem Chronological.answer (chronological : Chronological b rows) (type : Option MemberType) :
    IndexQuery.answer { sort := .newestFirst, memberType := type } rows =
      (IndexQuery.answer { sort := .insertion, memberType := type } rows).reverse := by
  change (SortOrder.newestFirst.arrange rows).filter _ = (rows.filter _).reverse
  rw [chronological.newestFirst, List.filter_reverse]
  rfl

end IndexEntry

theorem Member.nodup_of_repeated? {seen : List String} {members : List Member} (none : repeated? seen members = none) :
    (members.map Member.id).Nodup ∧ ∀ m ∈ members, m.id ∉ seen := by
  induction members generalizing seen with
  | nil => exact ⟨List.nodup_nil, List.forall_mem_nil _⟩
  | cons m rest ih =>
    rw [repeated?] at none
    split at none
    · cases none
    · rename_i new
      obtain ⟨distinct, others⟩ := ih none
      refine ⟨?_, ?_⟩
      · rw [List.map_cons, List.nodup_cons]
        refine ⟨fun listed => ?_, distinct⟩
        obtain ⟨other, mem, same⟩ := List.mem_map.1 listed
        exact others other mem (List.mem_append_right seen (List.mem_singleton.2 same))
      · intro other mem
        rcases List.mem_cons.1 mem with rfl | later
        · exact new
        · exact fun listed => others other later (List.mem_append_left [m.id] listed)

namespace Catalogue

/-- The rows of every container are in the order of their times. -/
def Chronological (b : Instant) (held : Catalogue) : Prop :=
  ∀ (c : String) (rows : List IndexEntry), held[c]? = some rows → IndexEntry.Chronological b rows

variable {b b' : Instant} {held : Catalogue} {c : String}

theorem chronological_empty (b : Instant) : Chronological b ∅ := by
  intro c rows found
  simp at found

theorem Chronological.mono (chronological : held.Chronological b) (later : b.NotAfter b') : held.Chronological b' :=
  fun c rows found => (chronological c rows found).mono later

theorem Chronological.insert (chronological : held.Chronological b) {rows : List IndexEntry}
    (new : IndexEntry.Chronological b rows) : Chronological b (held.insert c rows) := by
  intro d rows' found
  rw [Std.ExtTreeMap.getElem?_insert] at found
  split at found
  · cases found
    exact new
  · exact chronological d rows' found

theorem Chronological.erase (chronological : held.Chronological b) (c : String) : Chronological b (held.erase c) := by
  intro d rows found
  rw [Std.ExtTreeMap.getElem?_erase] at found
  split at found
  · cases found
  · exact chronological d rows found

/-- A timely request leaves all rows in the order of their times. -/
theorem Chronological.perform {last : Nat} (chronological : held.Chronological b)
    (numbers : ∀ (c : String) (rows : List IndexEntry), held[c]? = some rows → ∀ row ∈ rows, row.seq ≤ last)
    {call : IndexCall} (timely : (Effect.index call).IsTimely b) :
    (held.perform last call).2.Chronological b := by
  cases call with
  | createPartition c =>
    rw [Catalogue.perform]
    split
    · exact chronological
    · exact chronological.insert (IndexEntry.chronological_nil b)
  | dropPartition c => exact chronological.erase c
  | insert c m =>
    rw [Catalogue.perform]
    split
    · exact chronological
    · rename_i rows found
      split
      · exact chronological
      · rename_i new
        apply chronological.insert
        have now : (IndexEntry.ofMember c m (last + 1)).insertedAt = b := timely
        refine (chronological c rows found).append (fun row mem => ?_) new now
        exact Nat.lt_succ_of_le (numbers c rows found row mem)
  | remove c id =>
    rw [Catalogue.perform]
    split
    · exact chronological
    · rename_i rows found
      exact chronological.insert ((chronological c rows found).filter _)
  | replacePartition c members =>
    rw [Catalogue.perform]
    split
    · exact chronological
    · rename_i none
      exact chronological.insert (IndexEntry.chronological_numbered timely (Member.nodup_of_repeated? none).1 last)
  | hasPartition | partitions | contains | count | select | selectAfter => exact chronological

/-- All rows of a container, the newest first, are those in the order of their insertion from behind. -/
theorem Chronological.select (chronological : held.Chronological b) (last : Nat) (c : String)
    (type : Option MemberType) : (held.perform last (.select c { sort := .newestFirst, memberType := type })).1 =
      (held.perform last (.select c { sort := .insertion, memberType := type })).1.map List.reverse := by
  simp only [Catalogue.perform, Catalogue.ask]
  cases found : held[c]? with
  | none => rfl
  | some rows => exact congrArg Except.ok ((chronological c rows found).answer type)

end Catalogue

end Containment
