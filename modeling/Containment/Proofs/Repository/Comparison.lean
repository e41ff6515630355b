/-
Module: Containment.Proofs.Repository.Comparison
Purpose: The comparison of a membership list with the rows of its partition is exact. Stored lists are taken as
  they come, with repeated members too; of the rows only that no member has two of them. What is found is
  true, what is true is found, and nothing is found only of rows that list the same members of the same kinds in
  the same order.
Main exports: Divergence.Tells, mem_compareRows_iff, compareRows_eq_nil_iff
-/
import Containment.Proofs.Container.Rules
import Containment.Repository.Recovery
import Mathlib.Data.List.Nodup
import Mathlib.Data.List.Perm.Subperm

namespace Containment

/-- What a finding says of a stored list of members and of the rows in its place. -/
def Divergence.Tells (stored : List Member) (rows : List IndexEntry) : Divergence → Prop
  | .missingPartition _ | .orphanPartition _ => False
  | .countMismatch _ primary index => primary = stored.length ∧ index = rows.length ∧ primary ≠ index
  | .missingRow _ member => member ∈ stored.map Member.id ∧ member ∉ rows.map IndexEntry.memberId
  | .extraRow _ member => member ∈ rows.map IndexEntry.memberId ∧ member ∉ stored.map Member.id
  | .typeMismatch _ member primary index =>
      (∃ m ∈ stored, m.id = member ∧ m.type = primary) ∧ (∃ e ∈ rows, e.memberId = member ∧ e.type = index) ∧
        primary ≠ index
  | .orderMismatch _ =>
      (rows.map IndexEntry.memberId).Perm (stored.map Member.id) ∧
        rows.map IndexEntry.memberId ≠ stored.map Member.id

instance (stored : List Member) (rows : List IndexEntry) (d : Divergence) : Decidable (d.Tells stored rows) :=
  match d with
  | .missingPartition _ | .orphanPartition _ => inferInstanceAs (Decidable False)
  | .countMismatch _ primary index =>
      inferInstanceAs (Decidable (primary = stored.length ∧ index = rows.length ∧ primary ≠ index))
  | .missingRow _ member =>
      inferInstanceAs (Decidable (member ∈ stored.map Member.id ∧ member ∉ rows.map IndexEntry.memberId))
  | .extraRow _ member =>
      inferInstanceAs (Decidable (member ∈ rows.map IndexEntry.memberId ∧ member ∉ stored.map Member.id))
  | .typeMismatch _ member primary index =>
      inferInstanceAs (Decidable ((∃ m ∈ stored, m.id = member ∧ m.type = primary) ∧
        (∃ e ∈ rows, e.memberId = member ∧ e.type = index) ∧ primary ≠ index))
  | .orderMismatch _ =>
      inferInstanceAs (Decidable ((rows.map IndexEntry.memberId).Perm (stored.map Member.id) ∧
        rows.map IndexEntry.memberId ≠ stored.map Member.id))

/-- What a row says of its member, as far as a comparison goes. -/
def IndexEntry.kind (e : IndexEntry) : String × MemberType :=
  (e.memberId, e.type)

/-- What a membership list says of a member, as far as a comparison goes. -/
def Member.kind (m : Member) : String × MemberType :=
  (m.id, m.type)

namespace Repository

variable {id : String} {stored : List Member} {rows : List IndexEntry} {d : Divergence}

/-- The row that a look-up by member finds is the only one. -/
theorem find?_eq_some_iff (distinct : (rows.map IndexEntry.memberId).Nodup) {member : String} {e : IndexEntry} :
    rows.find? (·.memberId == member) = some e ↔ e ∈ rows ∧ e.memberId = member := by
  constructor
  · intro found
    have named := List.find?_some (p := fun row : IndexEntry => row.memberId == member) found
    exact ⟨List.mem_of_find?_eq_some found, eq_of_beq named⟩
  · intro given
    rcases given with ⟨mem, rfl⟩
    cases found : rows.find? (·.memberId == e.memberId) with
    | none => exact absurd (beq_self_eq_true e.memberId) (List.find?_eq_none.1 found e mem)
    | some e' =>
      have named := List.find?_some (p := fun row : IndexEntry => row.memberId == e.memberId) found
      have same : e' = e :=
        List.inj_on_of_nodup_map distinct (List.mem_of_find?_eq_some found) mem (eq_of_beq named)
      rw [same]

theorem find?_eq_none_iff {member : String} :
    rows.find? (·.memberId == member) = none ↔ member ∉ rows.map IndexEntry.memberId := by
  simp [List.find?_eq_none]

theorem compareMember_eq_some_iff (distinct : (rows.map IndexEntry.memberId).Nodup) {m : Member} :
    compareMember id rows m = some d ↔
      d = .missingRow id m.id ∧ m.id ∉ rows.map IndexEntry.memberId ∨
        ∃ e ∈ rows, e.memberId = m.id ∧ m.type ≠ e.type ∧ d = .typeMismatch id m.id m.type e.type := by
  rw [compareMember]
  cases found : rows.find? (·.memberId == m.id) with
  | none =>
    have absent := find?_eq_none_iff.1 found
    constructor
    · intro given
      exact .inl ⟨(Option.some.inj given).symm, absent⟩
    · intro given
      rcases given with ⟨rfl, -⟩ | ⟨e, mem, named, -⟩
      · rfl
      · exact absurd (named ▸ List.mem_map_of_mem mem) absent
  | some e =>
    obtain ⟨mem, named⟩ := (find?_eq_some_iff distinct).1 found
    by_cases same : e.type = m.type
    · simp only [if_pos same]
      constructor
      · intro impossible
        cases impossible
      · intro given
        rcases given with ⟨-, absent⟩ | ⟨e', mem', named', different, -⟩
        · exact absurd (named ▸ List.mem_map_of_mem mem) absent
        · have one : e' = e := List.inj_on_of_nodup_map distinct mem' mem (named'.trans named.symm)
          rw [one] at different
          exact absurd same.symm different
    · simp only [if_neg same]
      constructor
      · intro given
        exact .inr ⟨e, mem, named, Ne.symm same, (Option.some.inj given).symm⟩
      · intro given
        rcases given with ⟨-, absent⟩ | ⟨e', mem', named', -, rfl⟩
        · exact absurd (named ▸ List.mem_map_of_mem mem) absent
        · have one : e' = e := List.inj_on_of_nodup_map distinct mem' mem (named'.trans named.symm)
          rw [one]

/-- Rows of different members, all of them listed, that are as many as the list: they are a permutation of it, so
that the list repeats no member either. -/
theorem perm_iff (distinct : (rows.map IndexEntry.memberId).Nodup) :
    (rows.map IndexEntry.memberId).Perm (stored.map Member.id) ↔
      rows.length = stored.length ∧ ∀ e ∈ rows, e.memberId ∈ stored.map Member.id := by
  constructor
  · intro perm
    constructor
    · simpa using perm.length_eq
    · intro e mem
      exact perm.subset (List.mem_map_of_mem mem)
  · intro given
    rcases given with ⟨length, listed⟩
    have subset : rows.map IndexEntry.memberId ⊆ stored.map Member.id := by
      intro member mem
      obtain ⟨e, there, rfl⟩ := List.mem_map.1 mem
      exact listed e there
    apply (distinct.subperm subset).perm_of_length_le
    simp [length]

theorem mem_compareRows (distinct : (rows.map IndexEntry.memberId).Nodup) :
    d ∈ compareRows id stored rows ↔
      d = .countMismatch id stored.length rows.length ∧ stored.length ≠ rows.length ∨
        (∃ m ∈ stored, compareMember id rows m = some d) ∨
          (∃ e ∈ rows, e.memberId ∉ stored.map Member.id ∧ d = .extraRow id e.memberId) ∨
            d = .orderMismatch id ∧ (rows.map IndexEntry.memberId).Perm (stored.map Member.id) ∧
              rows.map IndexEntry.memberId ≠ stored.map Member.id := by
  have known : ∀ e : IndexEntry, (Container.idsOf stored).contains e.memberId = true ↔
      e.memberId ∈ stored.map Member.id := by
    intro e
    rw [Std.ExtTreeSet.contains_iff_mem, Container.mem_idsOf, List.mem_map]
  have extra : ((rows.filter fun e => !(Container.idsOf stored).contains e.memberId).map fun e =>
      Divergence.extraRow id e.memberId).isEmpty = true ↔ ∀ e ∈ rows, e.memberId ∈ stored.map Member.id := by
    rw [List.isEmpty_iff, List.map_eq_nil_iff, List.filter_eq_nil_iff]
    simp only [Bool.not_eq_true', Bool.not_eq_false, known]
  have surplus : d ∈ ((rows.filter fun e => !(Container.idsOf stored).contains e.memberId).map fun e =>
      Divergence.extraRow id e.memberId) ↔
        ∃ e ∈ rows, e.memberId ∉ stored.map Member.id ∧ d = .extraRow id e.memberId := by
    simp only [List.mem_map, List.mem_filter, Bool.not_eq_true', ← Bool.not_eq_true, known, and_assoc]
    simp only [eq_comm (a := d)]
  simp only [compareRows, extra, ← perm_iff distinct, List.mem_append, surplus, List.mem_filterMap,
    List.mem_ite_nil_right, List.mem_singleton, or_assoc, ne_comm (a := rows.length),
    and_comm (b := d = .countMismatch id stored.length rows.length), and_comm (b := d = .orderMismatch id)]

/-- What is found is true, and what is true is found. -/
theorem mem_compareRows_iff (distinct : (rows.map IndexEntry.memberId).Nodup) :
    d ∈ compareRows id stored rows ↔ d.container = id ∧ d.Tells stored rows := by
  rw [mem_compareRows distinct]
  simp only [compareMember_eq_some_iff distinct]
  cases d with
  | missingPartition c | orphanPartition c => simp [Divergence.Tells]
  | countMismatch c primary index =>
    simp only [Divergence.Tells, Divergence.container, Divergence.countMismatch.injEq, reduceCtorEq, false_and,
      and_false, exists_const, or_false]
    constructor
    · intro given
      rcases given with ⟨⟨rfl, rfl, rfl⟩, different⟩
      exact ⟨rfl, rfl, rfl, different⟩
    · intro given
      rcases given with ⟨rfl, rfl, rfl, different⟩
      exact ⟨⟨rfl, rfl, rfl⟩, different⟩
  | missingRow c member =>
    simp only [Divergence.Tells, Divergence.container, Divergence.missingRow.injEq, reduceCtorEq, false_and,
      and_false, exists_const, or_false, false_or, List.mem_map (l := stored)]
    constructor
    · intro given
      rcases given with ⟨m, mem, ⟨rfl, rfl⟩, absent⟩
      exact ⟨rfl, ⟨m, mem, rfl⟩, absent⟩
    · intro given
      rcases given with ⟨rfl, ⟨m, mem, rfl⟩, absent⟩
      exact ⟨m, mem, ⟨rfl, rfl⟩, absent⟩
  | extraRow c member =>
    simp only [Divergence.Tells, Divergence.container, Divergence.extraRow.injEq, reduceCtorEq, false_and,
      and_false, exists_const, or_false, false_or, List.mem_map (l := rows)]
    constructor
    · intro given
      rcases given with ⟨e, mem, absent, rfl, rfl⟩
      exact ⟨rfl, ⟨e, mem, rfl⟩, absent⟩
    · intro given
      rcases given with ⟨rfl, ⟨e, mem, rfl⟩, absent⟩
      exact ⟨e, mem, absent, rfl, rfl⟩
  | typeMismatch c member primary index =>
    simp only [Divergence.Tells, Divergence.container, Divergence.typeMismatch.injEq, reduceCtorEq, false_and,
      and_false, exists_const, or_false, false_or]
    constructor
    · intro given
      rcases given with ⟨m, mem, e, there, named, different, rfl, rfl, rfl, rfl⟩
      exact ⟨rfl, ⟨m, mem, rfl, rfl⟩, ⟨e, there, named, rfl⟩, different⟩
    · intro given
      rcases given with ⟨rfl, ⟨m, mem, rfl, rfl⟩, ⟨e, there, named, rfl⟩, different⟩
      exact ⟨m, mem, e, there, named, different, rfl, rfl, rfl, rfl⟩
  | orderMismatch c => simp [Divergence.Tells, Divergence.container]

theorem ids_eq_of_kinds_eq (same : rows.map IndexEntry.kind = stored.map Member.kind) :
    rows.map IndexEntry.memberId = stored.map Member.id := by
  have first := congrArg (List.map Prod.fst) same
  rw [List.map_map, List.map_map] at first
  exact first

/-- If a comparison finds nothing of any sort, rows and members are the same one by one. -/
theorem kinds_eq_of_silent (id : String) (distinct : (rows.map IndexEntry.memberId).Nodup)
    (silent : ∀ d : Divergence, d.container = id → ¬ d.Tells stored rows) :
    rows.map IndexEntry.kind = stored.map Member.kind := by
  have length : rows.length = stored.length := by
    by_contra different
    exact silent (.countMismatch id stored.length rows.length) rfl ⟨rfl, rfl, Ne.symm different⟩
  have listed : ∀ e ∈ rows, e.memberId ∈ stored.map Member.id := by
    intro e mem
    by_contra absent
    exact silent (.extraRow id e.memberId) rfl ⟨List.mem_map_of_mem mem, absent⟩
  have ids : rows.map IndexEntry.memberId = stored.map Member.id := by
    by_contra different
    exact silent (.orderMismatch id) rfl ⟨(perm_iff distinct).2 ⟨length, listed⟩, different⟩
  apply List.ext_getElem (by simpa using length)
  intro i here there
  rw [List.length_map] at here there
  have named : rows[i].memberId = stored[i].id := by
    have given := List.getElem_of_eq ids (i := i) (by simpa using here)
    rwa [List.getElem_map, List.getElem_map] at given
  have kinds : stored[i].type = rows[i].type := by
    by_contra different
    apply silent (.typeMismatch id stored[i].id stored[i].type rows[i].type) rfl
    exact ⟨⟨stored[i], List.getElem_mem there, rfl, rfl⟩, ⟨rows[i], List.getElem_mem here, named, rfl⟩, different⟩
  rw [List.getElem_map, List.getElem_map, IndexEntry.kind, Member.kind, named, kinds]

/-- Nothing is to be said of rows that list the same members of the same kinds in the same order. -/
theorem not_tells_of_kinds_eq (distinct : (rows.map IndexEntry.memberId).Nodup)
    (same : rows.map IndexEntry.kind = stored.map Member.kind) : ¬ d.Tells stored rows := by
  have ids := ids_eq_of_kinds_eq same
  cases d with
  | missingPartition c | orphanPartition c => exact not_false
  | countMismatch c primary index =>
    intro given
    rcases given with ⟨rfl, rfl, different⟩
    apply different
    simpa using congrArg List.length same.symm
  | missingRow c member =>
    intro given
    rcases given with ⟨mem, absent⟩
    exact absent (ids ▸ mem)
  | extraRow c member =>
    intro given
    rcases given with ⟨mem, absent⟩
    exact absent (ids ▸ mem)
  | typeMismatch c member primary index =>
    intro given
    rcases given with ⟨⟨m, mem, rfl, rfl⟩, ⟨e, there, named, rfl⟩, different⟩
    have kind : m.kind ∈ rows.map IndexEntry.kind := same ▸ List.mem_map_of_mem mem
    obtain ⟨e', there', given⟩ := List.mem_map.1 kind
    obtain ⟨named', kinds⟩ := Prod.mk.inj given
    have one : e' = e := List.inj_on_of_nodup_map distinct there' there (named'.trans named.symm)
    rw [← kinds, one] at different
    exact different rfl
  | orderMismatch c => exact fun given => given.2 ids

theorem compareRows_eq_nil_iff (distinct : (rows.map IndexEntry.memberId).Nodup) :
    compareRows id stored rows = [] ↔ rows.map IndexEntry.kind = stored.map Member.kind := by
  rw [List.eq_nil_iff_forall_not_mem]
  simp only [mem_compareRows_iff distinct]
  constructor
  · intro none
    exact kinds_eq_of_silent id distinct fun d about tells => none d ⟨about, tells⟩
  · intro same d given
    exact not_tells_of_kinds_eq distinct same given.2

end Repository

end Containment
