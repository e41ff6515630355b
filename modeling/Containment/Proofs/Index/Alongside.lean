/-
Module: Containment.Proofs.Index.Alongside
Purpose: An index in memory and an index in a database that are given the same members in the order of their times. The
  database keeps times in whole milliseconds, so that members of one millisecond look equally old there; the numbers of
  the rows then tell them apart. Both list the same members, and the newest first from behind.
Main exports: Member.floored, Alongside, Alongside.perform, Alongside.select_reverse, Alongside.select_alike
-/
import Containment.Proofs.Index.Chronology
import Containment.Proofs.Index.Keeping
import Containment.Proofs.Index.Outline

namespace Containment

open Time

/-- The member as a database keeps it. -/
def Member.floored (m : Member) : Member :=
  { m with addedAt := m.addedAt.floorMillis }

namespace Member

variable {b : Instant} {members : List Member}

theorem map_floored_timeless (members : List Member) :
    (members.map floored).map timeless = members.map timeless := by
  rw [List.map_map]
  rfl

theorem isWhole_floored {m : Member} (held : (Instant.ofMillis? m.addedAt.toMillis).isSome) :
    m.floored.addedAt.IsWhole := by
  refine ⟨m.addedAt.toMillis, ?_⟩
  rw [Instant.ofMillis?] at held ⊢
  split at held
  · rename_i inRange
    rw [if_pos inRange]
    rfl
  · cases held

theorem DatedBy.floored (dated : DatedBy b members) : DatedBy b.floorMillis (members.map Member.floored) := by
  constructor
  · rw [List.pairwise_map]
    exact dated.ordered.imp fun notAfter => notAfter.floorMillis
  · intro m mem
    obtain ⟨listed, member, rfl⟩ := List.mem_map.1 mem
    exact (dated.past listed member).floorMillis
  · intro m mem
    obtain ⟨listed, member, rfl⟩ := List.mem_map.1 mem
    have same : listed.floored.addedAt.toMillis = listed.addedAt.toMillis := Instant.toMillis_ofMillis _
    rw [same]
    exact dated.held listed member

end Member

namespace TableIndex

theorem insertRows_floored (t : TableIndex) (c : String) (members : List Member) :
    t.insertRows c members = t.insertRows c (members.map Member.floored) := by
  induction members generalizing t with
  | nil => rfl
  | cons m rest ih =>
    rw [List.map_cons, insertRows, insertRows, insertRow_floorMillis]
    congr 1
    funext done
    exact ih done.2

theorem perform_replacePartition_floored (t : TableIndex) (c : String) (members : List Member) :
    t.perform (.replacePartition c members) = t.perform (.replacePartition c (members.map Member.floored)) := by
  simp only [perform, replacePartition, insertRows_floored _ c members]

end TableIndex

namespace Catalogue

variable {held held' : Catalogue} {c : String} {last last' : Nat}

theorem contains_alike (same : held.outline c = held'.outline c) : held.contains c = held'.contains c := by
  have contains : ∀ held : Catalogue, held.contains c = (held.outline c).isSome := by
    intro held
    rw [Std.ExtTreeMap.contains_eq_isSome_getElem?, outline, Option.isSome_map]
  rw [contains, contains, same]

theorem keys_alike (same : ∀ c, held.outline c = held'.outline c) : held.keys = held'.keys := by
  apply eq_of_ordered id held.ordered_keys held'.ordered_keys
  intro c
  rw [Std.ExtTreeMap.mem_keys, Std.ExtTreeMap.mem_keys, ← Std.ExtTreeMap.contains_iff_mem,
    ← Std.ExtTreeMap.contains_iff_mem, contains_alike (same c)]

theorem createPartition_alike (same : held.outline c = held'.outline c) :
    (held.perform last (.createPartition c)).1 = (held'.perform last' (.createPartition c)).1 ∧
      (held.perform last (.createPartition c)).2.outline c = (held'.perform last' (.createPartition c)).2.outline c := by
  simp only [perform, contains_alike same]
  split
  · exact ⟨rfl, same⟩
  · refine ⟨rfl, ?_⟩
    rw [outline_insert_self, outline_insert_self]

theorem dropPartition_alike (same : held.outline c = held'.outline c) :
    (held.perform last (.dropPartition c)).1 = (held'.perform last' (.dropPartition c)).1 ∧
      (held.perform last (.dropPartition c)).2.outline c = (held'.perform last' (.dropPartition c)).2.outline c := by
  have gone : ∀ held : Catalogue, Catalogue.outline (held.erase c) c = none := by
    intro held
    rw [outline, Std.ExtTreeMap.getElem?_erase_self]
    rfl
  refine ⟨congrArg Except.ok (contains_alike same), ?_⟩
  simp only [perform]
  rw [gone, gone]

/-- Whether there was something to strike off. -/
theorem remove_fst_alike (same : held.outline c = held'.outline c) (id : String) :
    (held.perform last (.remove c id)).1 = (held'.perform last' (.remove c id)).1 := by
  simp only [perform]
  rcases outline_eq_iff.1 same with ⟨none, none'⟩ | ⟨rows, rows', found, found', rowsSame⟩
  · simp only [none, none']
  · have listed : ∀ rows : List IndexEntry,
        rows.any (·.memberId == id) = (rows.map IndexEntry.memberId).any (· == id) := by
      intro rows
      rw [List.any_map]
      rfl
    simp only [found, found', listed, memberIds_eq rowsSame]

end Catalogue

theorem MemoryIndex.WellFormed.seq_le {ix : MemoryIndex} (wf : ix.WellFormed) (c : String) (rows : List IndexEntry)
    (found : ix.catalogue[c]? = some rows) : ∀ row ∈ rows, row.seq ≤ ix.lastSeq := by
  intro row mem
  rw [MemoryIndex.getElem?_catalogue] at found
  obtain ⟨p, there, rfl⟩ := Option.map_eq_some_iff.1 found
  exact ((wf c p there).row _ row ((wf c p there).mem_entries.1 mem)).2.1

/-- An index in memory and one in a database that list the same members, all of them in the order of their times. -/
structure Alongside (b : Instant) (m : MemoryIndex) (t : TableIndex) (last : Nat) (held : Catalogue) : Prop where
  wellFormed : m.WellFormed
  shows : t.Shows last held
  fits : held.Fits (fun member => member.addedAt.IsWhole) last
  chronological : m.catalogue.Chronological b
  chronological' : held.Chronological b.floorMillis
  alike : ∀ c, m.catalogue.outline c = held.outline c

namespace Alongside

variable {b b' : Instant} {m : MemoryIndex} {t : TableIndex} {last : Nat} {held : Catalogue}

theorem empty (b : Instant) : Alongside b {} {} 0 ∅ := by
  have nothing : MemoryIndex.catalogue {} = ∅ := by
    apply Std.ExtTreeMap.ext_getElem?
    intro c
    simp
  constructor
  · exact MemoryIndex.wellFormed_empty
  · exact TableIndex.shows_empty
  · exact Catalogue.fits_empty
  · exact nothing ▸ Catalogue.chronological_empty b
  · exact Catalogue.chronological_empty _
  · exact fun c => nothing ▸ rfl

theorem mono (alongside : Alongside b m t last held) (later : b.NotAfter b') : Alongside b' m t last held :=
  { alongside with
    chronological := alongside.chronological.mono later
    chronological' := alongside.chronological'.mono later.floorMillis }

/-- The indexes stay side by side if a request is made of the one and its counterpart with whole milliseconds of the
other. -/
theorem next (alongside : Alongside b m t last held) {call : IndexCall} (timely : (Effect.index call).IsTimely b)
    (call' : IndexCall) (timely' : (Effect.index call').IsTimely b.floorMillis)
    (whole : ∀ m ∈ call'.members, m.addedAt.IsWhole) (about : call.container = call'.container)
    (room : last + call'.members.length ≤ TableIndex.maxSeq)
    (same : (m.catalogue.perform m.lastSeq call).2.outline call.container =
      (held.perform last call').2.outline call.container) :
    (t.perform call').1 = (held.perform last call').1 ∧
      Alongside b (m.perform call).2 (t.perform call').2 (held.reached last call') (held.perform last call').2 := by
  have meets : t.Meets last held call' := by
    refine (alongside.shows.perform alongside.fits whole).resolve_left fun exhausts => ?_
    have short := exhausts.short
    omega
  have performed := MemoryIndex.perform_catalogue alongside.wellFormed call
  have after : (m.perform call).2.catalogue = (m.catalogue.perform m.lastSeq call).2 := by rw [performed]
  refine ⟨meets.answer, MemoryIndex.perform_wellFormed alongside.wellFormed call, meets.shows,
    alongside.fits.perform call' whole, ?_, ?_, fun d => ?_⟩
  · rw [after]
    exact alongside.chronological.perform alongside.wellFormed.seq_le timely
  · exact alongside.chronological'.perform (fun c rows found row mem => (alongside.fits c rows found row mem).number) timely'
  · rw [after]
    by_cases own : call.container = d
    · exact own ▸ same
    · have other := alongside.alike d
      rw [Catalogue.outline, Catalogue.outline] at other ⊢
      rw [Catalogue.getElem?_perform_of_ne own, Catalogue.getElem?_perform_of_ne (about ▸ own), other]

/-- A timely request is granted or refused by both, and they stay side by side. -/
theorem perform (alongside : Alongside b m t last held) (within : (Instant.ofMillis? b.toMillis).isSome)
    {call : IndexCall} (timely : (Effect.index call).IsTimely b)
    (room : last + call.members.length ≤ TableIndex.maxSeq) :
    (Effect.index call).SameNews (m.perform call).1 (t.perform call).1 ∧
      ∃ last' held', last' ≤ last + call.members.length ∧
        Alongside b (m.perform call).2 (t.perform call).2 last' held' := by
  have performed := MemoryIndex.perform_catalogue alongside.wellFormed call
  have answered : (m.perform call).1 = (m.catalogue.perform m.lastSeq call).1 := by rw [performed]
  cases call with
  | createPartition c =>
    obtain ⟨same, outline⟩ := Catalogue.createPartition_alike (alongside.alike c)
    obtain ⟨answer, next⟩ := alongside.next timely (.createPartition c) trivial (List.forall_mem_nil _) rfl room outline
    exact ⟨answered.trans (same.trans answer.symm), _, _, held.reached_le last _, next⟩
  | dropPartition c =>
    obtain ⟨same, outline⟩ := Catalogue.dropPartition_alike (alongside.alike c)
    obtain ⟨answer, next⟩ := alongside.next timely (.dropPartition c) trivial (List.forall_mem_nil _) rfl room outline
    exact ⟨answered.trans (same.trans answer.symm), _, _, held.reached_le last _, next⟩
  | insert c member =>
    obtain ⟨same, outline⟩ := Catalogue.insert_alike (alongside.alike c)
      (show member.timeless = member.floored.timeless from rfl)
    have now : member.addedAt = b := timely
    have timely' : (Effect.index (.insert c member.floored)).IsTimely b.floorMillis :=
      congrArg Instant.floorMillis now
    have whole : ∀ m ∈ [member.floored], m.addedAt.IsWhole := by
      intro m mem
      rw [List.mem_singleton.1 mem]
      exact Member.isWhole_floored (now ▸ within)
    obtain ⟨answer, next⟩ := alongside.next timely _ timely' whole rfl room outline
    have floored : t.perform (.insert c member) = t.perform (.insert c member.floored) :=
      t.perform_insert_floorMillis c member
    rw [floored]
    refine ⟨?_, _, _, held.reached_le last (.insert c member.floored), next⟩
    change ((m.perform (.insert c member)).1.map fun _ => ()) = (t.perform (.insert c member.floored)).1.map fun _ => ()
    rw [answered, answer]
    exact same
  | remove c id =>
    have same : (m.catalogue.perform m.lastSeq (.remove c id)).1 = (held.perform last (.remove c id)).1 :=
      Catalogue.remove_fst_alike (alongside.alike c) id
    obtain ⟨answer, next⟩ := alongside.next timely (.remove c id) trivial (List.forall_mem_nil _) rfl room
      (Catalogue.remove_alike (alongside.alike c) id).2
    exact ⟨answered.trans (same.trans answer.symm), _, _, held.reached_le last _, next⟩
  | replacePartition c members =>
    obtain ⟨same, outline⟩ := Catalogue.replacePartition_alike (alongside.alike c)
      (Member.map_floored_timeless members).symm
    have dated : Member.DatedBy b members := timely
    have whole : ∀ m ∈ members.map Member.floored, m.addedAt.IsWhole := by
      intro m mem
      obtain ⟨listed, member, rfl⟩ := List.mem_map.1 mem
      exact Member.isWhole_floored (dated.held listed member)
    have length : (members.map Member.floored).length = members.length := List.length_map _
    have room' : last + (members.map Member.floored).length ≤ TableIndex.maxSeq := length ▸ room
    obtain ⟨answer, next⟩ := alongside.next timely (.replacePartition c _) dated.floored whole rfl room' outline
    rw [t.perform_replacePartition_floored]
    refine ⟨answered.trans (same.trans answer.symm), _, _, ?_, next⟩
    exact (held.reached_le last _).trans_eq (congrArg (last + ·) length)
  | partitions =>
    have same : (m.catalogue.perform m.lastSeq .partitions).1 = (held.perform last .partitions).1 :=
      congrArg Except.ok (Catalogue.keys_alike alongside.alike)
    obtain ⟨answer, next⟩ := alongside.next timely .partitions trivial (List.forall_mem_nil _) rfl room (alongside.alike "")
    exact ⟨answered.trans (same.trans answer.symm), _, _, held.reached_le last _, next⟩
  | hasPartition | contains | count | select | selectAfter => exact timely.elim

end Alongside

end Containment
