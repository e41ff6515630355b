/-
Module: Containment.Proofs.Repository.Repair
Purpose: Writing the whole index anew puts everything right, whatever the index in memory held before, in order or
  not. Each container gets a partition with its own rows, every other partition goes, and nothing else is
  touched, so that a comparison finds nothing afterwards and writing the index anew once more changes no list.
Main exports: MemoryIndex.Carries, MemoryIndex.Rewritten, MemoryIndex.Renewed, Repository.succeeds_rebuildAll,
  Call.rebuildAll_converges
-/
import Containment.Proofs.Index.MemoryCatalogue
import Containment.Proofs.Maps
import Containment.Proofs.Repository.Rewriting

namespace Containment

/-! ### Partitions written one after the other -/

namespace MemoryIndex

/-- The container has a partition in order with these members, or none. -/
def Carries (m : MemoryIndex) (id : String) : Option (List Member) → Prop
  | none => m.partitions[id]? = none
  | some members => ∃ p, m.partitions[id]? = some p ∧ p.WellFormed id m.lastSeq ∧ p.members = members

/-- Some containers carry what they are meant to, all of it under new numbers. The others have what they had before, and
no number was given out twice. -/
structure Rewritten (m : MemoryIndex) (lists : Listing) (done : List String) (m' : MemoryIndex) : Prop where
  later : m.lastSeq ≤ m'.lastSeq
  carries : ∀ id ∈ done, m'.Carries id (lists id)
  fresh : ∀ id ∈ done, ∀ p, m'.partitions[id]? = some p → ∀ row ∈ p.entries, m.lastSeq < row.seq
  others : ∀ id ∉ done, m'.partitions[id]? = m.partitions[id]?

/-- Every container carries what it is meant to, all of it under new numbers. -/
structure Renewed (m : MemoryIndex) (lists : Listing) (m' : MemoryIndex) : Prop where
  carries : ∀ id, m'.Carries id (lists id)
  fresh : ∀ (id : String) (p : Partition), m'.partitions[id]? = some p → ∀ row ∈ p.entries, m.lastSeq < row.seq

variable {m m' : MemoryIndex} {lists : Listing} {id : String} {members : List Member}

theorem Carries.congr {listed : Option (List Member)} (carries : m.Carries id listed) (later : m.lastSeq ≤ m'.lastSeq)
    (same : m'.partitions[id]? = m.partitions[id]?) : m'.Carries id listed := by
  cases listed with
  | none => exact same.trans carries
  | some members =>
    obtain ⟨p, found, own, held⟩ := carries
    exact ⟨p, same.trans found, own.mono later, held⟩

theorem Rewritten.refl (m : MemoryIndex) (lists : Listing) : m.Rewritten lists [] m := by
  constructor
  · exact le_rfl
  · intro id impossible
    cases impossible
  · intro id impossible
    cases impossible
  · intro id _
    rfl

/-- One more container, before the others. -/
theorem Rewritten.cons {m₁ : MemoryIndex} {rest : List String} (first : m.Rewritten lists [id] m₁)
    (others : m₁.Rewritten lists rest m') : m.Rewritten lists (id :: rest) m' := by
  constructor
  · exact first.later.trans others.later
  · intro other mem
    by_cases there : other ∈ rest
    · exact others.carries other there
    · have same : other = id := (List.mem_cons.1 mem).resolve_right there
      subst same
      exact (first.carries other List.mem_cons_self).congr others.later (others.others other there)
  · intro other mem p found row listed
    by_cases there : other ∈ rest
    · exact first.later.trans_lt (others.fresh other there p found row listed)
    · have same : other = id := (List.mem_cons.1 mem).resolve_right there
      subst same
      rw [others.others other there] at found
      exact first.fresh other List.mem_cons_self p found row listed
  · intro other outside
    have elsewhere : other ∉ rest := fun mem => outside (List.mem_cons_of_mem id mem)
    have different : other ∉ [id] := fun mem => outside (List.mem_singleton.1 mem ▸ List.mem_cons_self)
    rw [others.others other elsewhere, first.others other different]

/-- Writing one partition, with as many numbers given out as it needs. -/
theorem rewritten_write (meant : lists id = some members) {p : Partition} {last : Nat} (le : m.lastSeq ≤ last)
    (own : p.WellFormed id last) (held : p.members = members) (fresh : ∀ row ∈ p.entries, m.lastSeq < row.seq) :
    m.Rewritten lists [id] { partitions := m.partitions.insert id p, lastSeq := last } := by
  constructor
  · exact le
  · intro other mem
    rw [List.mem_singleton.1 mem, meant]
    exact ⟨p, Std.ExtTreeMap.getElem?_insert_self, own, held⟩
  · intro other mem q found
    rw [List.mem_singleton.1 mem, Std.ExtTreeMap.getElem?_insert_self] at found
    cases found
    exact fresh
  · intro other outside
    exact getElem?_insert_of_ne fun same => outside (List.mem_singleton.2 same.symm)

theorem rewritten_erase (m : MemoryIndex) (meant : lists id = none) :
    m.Rewritten lists [id] { m with partitions := m.partitions.erase id } := by
  constructor
  · exact le_rfl
  · intro other mem
    rw [List.mem_singleton.1 mem, meant]
    exact Std.ExtTreeMap.getElem?_erase_self
  · intro other mem q found
    rw [List.mem_singleton.1 mem, Std.ExtTreeMap.getElem?_erase_self] at found
    cases found
  · intro other outside
    exact getElem?_erase_of_ne fun same => outside (List.mem_singleton.2 same.symm)

/-- Once every container carries what it is meant to, the index is in order. -/
theorem lists_of_carries (carries : ∀ id, m.Carries id (lists id)) : (Index.memory m).Lists lists := by
  refine ⟨m, rfl, ?_, ?_⟩
  · intro id p found
    have carried := carries id
    cases meant : lists id with
    | none =>
      rw [meant] at carried
      rw [carried] at found
      cases found
    | some members =>
      rw [meant] at carried
      obtain ⟨q, there, own, -⟩ := carried
      rw [there] at found
      cases found
      exact own
  · funext id
    have carried := carries id
    rw [listed]
    cases meant : lists id with
    | none =>
      rw [meant] at carried
      rw [carried]
      rfl
    | some members =>
      rw [meant] at carried
      obtain ⟨q, there, -, held⟩ := carried
      rw [there, ← held]
      rfl

end MemoryIndex

/-- Only the index differs, and of it only the partitions of some containers, which carry what they are meant to. -/
def World.Rewritten (w : World) (m : MemoryIndex) (lists : Listing) (done : List String) (w' : World) : Prop :=
  ∃ m', w' = { w with index := .memory m' } ∧ m.Rewritten lists done m'

namespace Repository

open Containment.Action

variable {w : World} {S : MemoryStore} {m : MemoryIndex} {id : String}

/-- The index in memory grants a new partition to a valid container. -/
theorem exists_granted (m : MemoryIndex) {r : Record} (stored : S.records[id]? = some r) (valid : r.container.Valid) :
    ∃ m' : MemoryIndex,
      (Index.memory m).perform (.replacePartition id r.container.members) = (.ok (), .memory m') ∧
        m.Rewritten S.contents.listing [id] m' := by
  obtain ⟨q, last, replaced, le, own, held⟩ := m.replacePartition_ok id valid.nodup
  refine ⟨{ partitions := m.partitions.insert id q, lastSeq := last }, ?_, ?_⟩
  · simp only [Index.perform, MemoryIndex.perform, replaced]
  · exact MemoryIndex.rewritten_write (listing_of_stored stored) le own held
      (MemoryIndex.lt_seq_of_replacePartition replaced)

theorem succeeds_rebuild (readable : w.store.ReadsAs S) (clean : w.faults = []) (kept : w.index = .memory m)
    {r : Record} (stored : S.records[id]? = some r) (valid : r.container.Valid) :
    (rebuild id).Succeeds w fun rows w' =>
      rows = r.container.members.length ∧ w.Rewritten m S.contents.listing [id] w' := by
  obtain ⟨m', granted, written⟩ := exists_granted m stored valid
  rw [← kept] at granted
  apply (succeeds_rebuild_granted readable clean stored valid granted).mono
  exact fun rows w' done => ⟨done.1, m', done.2, written⟩

theorem exists_renews (valid : ∀ (id : String) (r : Record), S.records[id]? = some r → r.container.Valid)
    (m : MemoryIndex) (ids : List String) (stored : ∀ id ∈ ids, id ∈ S.records) :
    ∃ m' : MemoryIndex, (Index.memory m).Renews S ids (.memory m') ∧ m.Rewritten S.contents.listing ids m' := by
  induction ids generalizing m with
  | nil => exact ⟨m, .done _, .refl m _⟩
  | cons id rest ih =>
    have here := stored id List.mem_cons_self
    rw [Std.ExtTreeMap.mem_iff_isSome_getElem?, Option.isSome_iff_exists] at here
    obtain ⟨r, found⟩ := here
    obtain ⟨m₁, granted, first⟩ := exists_granted m found (valid id r found)
    obtain ⟨m', renews, others⟩ := ih m₁ fun other mem => stored other (List.mem_cons_of_mem id mem)
    exact ⟨m', .next found granted renews, first.cons others⟩

/-- Partitions without a container are there until they are dropped, and are dropped once each. -/
theorem exists_sheds (m : MemoryIndex) {partitions : List String} (absent : ∀ id ∈ partitions, S.records[id]? = none)
    (there : ∀ id ∈ partitions, m.partitions.contains id = true) (nodup : partitions.Nodup) :
    ∃ m' : MemoryIndex, (Index.memory m).Sheds S partitions (.memory m') ∧
      m.Rewritten S.contents.listing partitions m' := by
  induction partitions generalizing m with
  | nil => exact ⟨m, .done _, .refl m _⟩
  | cons id rest ih =>
    obtain ⟨outside, nodup⟩ := List.nodup_cons.1 nodup
    have unknown := absent id List.mem_cons_self
    have first := MemoryIndex.rewritten_erase m (listing_of_absent unknown)
    have granted : (Index.memory m).perform (.dropPartition id) =
        (.ok true, .memory { m with partitions := m.partitions.erase id }) := by
      rw [← there id List.mem_cons_self]
      rfl
    have still : ∀ other ∈ rest, (m.partitions.erase id).contains other = true := by
      intro other mem
      have different : other ∉ [id] := fun same => outside (List.mem_singleton.1 same ▸ mem)
      have before := there other (List.mem_cons_of_mem id mem)
      rw [Std.ExtTreeMap.contains_eq_isSome_getElem?] at before ⊢
      rw [first.others other different, before]
    obtain ⟨m', sheds, others⟩ := ih { m with partitions := m.partitions.erase id }
      (fun other mem => absent other (List.mem_cons_of_mem id mem)) still nodup
    exact ⟨m', .next unknown granted sheds, first.cons others⟩

/-- The partitions without a container, in order. -/
def orphans (S : MemoryStore) (m : MemoryIndex) : List String :=
  m.partitions.keys.filter fun c => !S.records.contains c

theorem mem_orphans {m : MemoryIndex} : id ∈ orphans S m ↔ m.partitions.contains id = true ∧ S.records[id]? = none := by
  rw [orphans, List.mem_filter, Std.ExtTreeMap.mem_keys, ← Std.ExtTreeMap.contains_iff_mem,
    Std.ExtTreeMap.contains_eq_isSome_getElem? (t := S.records), Bool.not_eq_true', Option.isSome_eq_false_iff,
    Option.isNone_iff_eq_none]

theorem orphans_ordered (S : MemoryStore) (m : MemoryIndex) :
    (orphans S m).Pairwise (compare · · = .lt) :=
  m.partitions.ordered_keys.sublist List.filter_sublist

/-- Writing the partitions of stored containers anew makes no orphan and removes none. -/
theorem orphans_rewritten {m₁ : MemoryIndex} {ids : List String} (stored : ∀ id ∈ ids, id ∈ S.records)
    (first : m.Rewritten S.contents.listing ids m₁) : orphans S m₁ = orphans S m := by
  apply eq_of_ordered id (orphans_ordered S m₁) (orphans_ordered S m)
  intro c
  rw [mem_orphans, mem_orphans]
  apply and_congr_left
  intro absent
  have outside : c ∉ ids := by
    intro mem
    have there := stored c mem
    rw [Std.ExtTreeMap.mem_iff_isSome_getElem?, absent] at there
    cases there
  rw [Std.ExtTreeMap.contains_eq_isSome_getElem?, Std.ExtTreeMap.contains_eq_isSome_getElem?,
    first.others c outside]

/-- What writing the index anew comes to. -/
def repaired (S : MemoryStore) (m : MemoryIndex) : RebuildSummary :=
  { partitionsRebuilt := S.records.size
    rowsWritten := (S.records.values.map fun r => r.container.members.length).sum
    orphansDropped := (orphans S m).length }

/-- The containers written anew and the orphans dropped are all that the index has partitions for. -/
theorem renewed {m₁ m' : MemoryIndex} (first : m.Rewritten S.contents.listing S.records.keys m₁)
    (last : m₁.Rewritten S.contents.listing (orphans S m₁) m') : m.Renewed S.contents.listing m' := by
  have nowhere : ∀ {id}, id ∉ orphans S m₁ → id ∉ S.records.keys → S.records[id]? = none ∧ m'.partitions[id]? = none := by
    intro id orphan stored
    have absent : S.records[id]? = none := by
      rwa [Std.ExtTreeMap.mem_keys, Std.ExtTreeMap.mem_iff_isSome_getElem?, Option.not_isSome_iff_eq_none] at stored
    refine ⟨absent, ?_⟩
    rw [last.others id orphan, ← Option.not_isSome_iff_eq_none, ← Std.ExtTreeMap.contains_eq_isSome_getElem?]
    exact fun there => orphan (mem_orphans.2 ⟨there, absent⟩)
  constructor
  · intro id
    by_cases orphan : id ∈ orphans S m₁
    · exact last.carries id orphan
    · by_cases stored : id ∈ S.records.keys
      · exact (first.carries id stored).congr last.later (last.others id orphan)
      · obtain ⟨absent, gone⟩ := nowhere orphan stored
        rw [listing_of_absent absent]
        exact gone
  · intro id p found
    by_cases orphan : id ∈ orphans S m₁
    · exact fun row mem => first.later.trans_lt (last.fresh id orphan p found row mem)
    · by_cases stored : id ∈ S.records.keys
      · rw [last.others id orphan] at found
        exact first.fresh id stored p found
      · rw [(nowhere orphan stored).2] at found
        cases found

theorem succeeds_rebuildAll (readable : w.store.ReadsAs S) (clean : w.faults = []) (kept : w.index = .memory m)
    (valid : ∀ (id : String) (r : Record), S.records[id]? = some r → r.container.Valid) :
    rebuildAll.Succeeds w fun summary w' => summary = repaired S m ∧
      ∃ m', w' = { w with index := .memory m' } ∧ m.Renewed S.contents.listing m' := by
  have stored : ∀ id ∈ S.records.keys, id ∈ S.records := fun id => Std.ExtTreeMap.mem_keys.1
  obtain ⟨m₁, renews, first⟩ := exists_renews valid m S.records.keys stored
  have nodup : (orphans S m₁).Nodup := List.Nodup.sublist List.filter_sublist m₁.partitions.nodup_keys
  obtain ⟨m', sheds, last⟩ := exists_sheds m₁ (fun id mem => (mem_orphans.1 mem).2)
    (fun id mem => (mem_orphans.1 mem).1) nodup
  rw [← kept] at renews
  apply (succeeds_rewriting readable clean valid renews rfl sheds).mono
  intro summary w' given
  rcases given with ⟨rfl, rfl⟩
  refine ⟨?_, m', rfl, renewed first last⟩
  rw [repaired, ← orphans_rewritten stored first]
  rfl

/-- Nothing is to be found of an index that repeats the stored lists. -/
theorem succeeds_verify_nothing (readable : w.store.ReadsAs S) (clean : w.faults = [])
    (mirrored : w.index.Lists S.contents.listing) :
    verify.Succeeds w fun report w' => w' = w ∧ report.divergences = [] := by
  have agrees : Holdings.Agrees { store := S, index := w.index } := Holdings.Mirrored.agrees mirrored
  have repeats : w.index.RepeatsKinds S := by
    constructor
    · exact agrees.partitions
    · intro id r stored
      obtain ⟨rows, shown, ordered, repeated⟩ := agrees.rows id r stored
      refine ⟨rows, shown, ordered, ?_⟩
      rw [← repeated, List.map_map]
      rfl
  apply (succeeds_verify readable mirrored clean).mono
  intro report w' given
  rcases given with ⟨rfl, found⟩
  apply And.intro rfl
  rw [List.eq_nil_iff_forall_not_mem]
  intro d mem
  exact (none_real_iff mirrored).2 repeats d ((found d).1 mem)

/-- An index that lists what is stored has no orphans. -/
theorem orphans_eq_nil (listed : m.listed = S.contents.listing) : orphans S m = [] := by
  rw [List.eq_nil_iff_forall_not_mem]
  intro id mem
  obtain ⟨there, absent⟩ := mem_orphans.1 mem
  have nowhere := congrFun listed id
  rw [listing_of_absent absent, MemoryIndex.listed, Option.map_eq_none_iff] at nowhere
  rw [Std.ExtTreeMap.contains_eq_isSome_getElem?, nowhere] at there
  cases there

/-! ### The calls -/

variable (settings : Settings)

theorem rebuildAll_ends (readable : w.store.ReadsAs S) (clean : w.faults = []) (kept : w.index = .memory m)
    (valid : ∀ (id : String) (r : Record), S.records[id]? = some r → r.container.Valid) :
    ∃ ix : Index, (Call.rebuildAll.program settings).run none w =
        (.ok (.summary (repaired S m)), { w with index := ix }) ∧ ix.Lists S.contents.listing := by
  have rebuilt : (Call.rebuildAll.action settings).Succeeds w fun reply w' =>
      reply = .summary (repaired S m) ∧ ∃ ix : Index, w' = { w with index := ix } ∧ ix.Lists S.contents.listing := by
    apply Succeeds.map
    apply (succeeds_rebuildAll readable clean kept valid).mono
    intro summary w' given
    rcases given with ⟨rfl, m', rfl, renewed⟩
    exact ⟨rfl, _, rfl, MemoryIndex.lists_of_carries renewed.carries⟩
  obtain ⟨_, _, ended, rfl, ix, rfl, lists⟩ := rebuilt
  exact ⟨ix, ended, lists⟩

theorem verify_ends (readable : w.store.ReadsAs S) (clean : w.faults = [])
    (mirrored : w.index.Lists S.contents.listing) :
    ∃ report, (Call.verify.program settings).run none w = (.ok (.report report), w) ∧ report.divergences = [] := by
  have compared : (Call.verify.action settings).Succeeds w fun reply w' =>
      ∃ report, reply = .report report ∧ w' = w ∧ report.divergences = [] := by
    apply Succeeds.map
    apply (succeeds_verify_nothing readable clean mirrored).mono
    exact fun report w' done => ⟨report, rfl, done⟩
  obtain ⟨_, _, ended, report, rfl, rfl, nothing⟩ := compared
  exact ⟨report, ended, nothing⟩

end Repository

/-- **Writing the index anew converges.** Take any store of valid records that can be read, and an index in memory with
anything at all in it. Then writing the index anew ends well, counts the stored containers, their members and the
partitions without a container, and changes the index alone. Afterwards the index agrees with the store, a comparison
finds nothing, and writing the index anew once more shows the same rows and drops nothing. -/
theorem Call.rebuildAll_converges (settings : Settings) {w : World} {S : MemoryStore} (readable : w.store.ReadsAs S)
    (valid : ∀ (id : String) (r : Record), S.records[id]? = some r → Container.validate r.container = .ok ())
    {m : MemoryIndex} (damaged : w.index = .memory m) (clean : w.faults = []) :
    ∃ ix : Index,
      (Call.rebuildAll.program settings).run none w =
        (.ok (.summary
          { partitionsRebuilt := S.records.size
            rowsWritten := (S.records.values.map fun r => r.container.members.length).sum
            orphansDropped := (m.partitions.keys.filter fun c => !S.records.contains c).length }),
          { w with index := ix }) ∧
      Holdings.Agrees { store := S, index := ix } ∧
      (∃ report, (Call.verify.program settings).run none { w with index := ix } =
        (.ok (.report report), { w with index := ix }) ∧ report.divergences = []) ∧
      ∃ ix' : Index,
        (Call.rebuildAll.program settings).run none { w with index := ix } =
          (.ok (.summary
            { partitionsRebuilt := S.records.size
              rowsWritten := (S.records.values.map fun r => r.container.members.length).sum
              orphansDropped := 0 }),
            { w with index := ix' }) ∧
        ix.SameRows ix' := by
  have proper : ∀ (id : String) (r : Record), S.records[id]? = some r → r.container.Valid :=
    fun id r stored => Container.validate_eq_ok_iff.1 (valid id r stored)
  obtain ⟨ix, ended, lists⟩ := Repository.rebuildAll_ends settings readable clean damaged proper
  obtain ⟨m', rfl, -, listed⟩ := id lists
  obtain ⟨ix', again, lists'⟩ := Repository.rebuildAll_ends settings
    (w := { w with index := .memory m' }) (m := m') readable clean rfl proper
  refine ⟨.memory m', ended, Holdings.Mirrored.agrees lists, ?_, ix', ?_, lists.sameRows lists'⟩
  · exact Repository.verify_ends settings (w := { w with index := .memory m' }) readable clean lists
  · rw [again, Repository.repaired, Repository.orphans_eq_nil listed]
    rfl

/-- Two containers with two members and none. -/
def twoLists : MemoryStore :=
  { records := Std.ExtTreeMap.ofList
      [("b", recordListing "b" [("d.txt", .resource), ("e.txt", .binary)]), ("f", recordListing "f" [])] }

/-- An index that no request could lead to: its rows stand under wrong numbers and wrong containers, and it has two
partitions for nothing. -/
def scrambledIndex : MemoryIndex :=
  let row (id : String) (seq : Nat) : IndexEntry :=
    { containerId := "x", memberId := id, type := .resource, insertedAt := Time.Instant.epoch, seq }
  let scrambled : Partition :=
    { rows := Std.ExtTreeMap.ofList [(7, row "e.txt" 2), (9, row "e.txt" 1)]
      seqOf := Std.ExtTreeMap.ofList [("d.txt", 4)] }
  { partitions := Std.ExtTreeMap.ofList [("b", scrambled), ("g", {}), ("h", scrambled)] }

theorem scrambledIndex_repaired :
    let w : World := { (default : World) with store := .memory twoLists, index := .memory scrambledIndex }
    w.store.ReadsAs twoLists ∧ w.faults = [] ∧
      (∀ (id : String) (r : Record), twoLists.records[id]? = some r → Container.validate r.container = .ok ()) ∧
      ∃ ix : Index,
        (Call.rebuildAll.program {}).run none w =
          (.ok (.summary { partitionsRebuilt := 2, rowsWritten := 2, orphansDropped := 2 }), { w with index := ix }) ∧
        Holdings.Agrees { store := twoLists, index := ix } ∧
        (∃ report, (Call.verify.program {}).run none { w with index := ix } =
          (.ok (.report report), { w with index := ix }) ∧ report.divergences = []) ∧
        ∃ ix' : Index,
          (Call.rebuildAll.program {}).run none { w with index := ix } =
            (.ok (.summary { partitionsRebuilt := 2, rowsWritten := 2, orphansDropped := 0 }),
              { w with index := ix' }) ∧
          ix.SameRows ix' := by
  intro w
  have readable : w.store.ReadsAs twoLists := Store.readsAs_memory twoLists
  have each : ∀ entry ∈ twoLists.records.toList, Container.validate entry.2.container = .ok () := by
    decide +kernel
  have valid : ∀ (id : String) (r : Record), twoLists.records[id]? = some r →
      Container.validate r.container = .ok () := by
    intro id r stored
    exact each (id, r) (Std.ExtTreeMap.mem_toList_iff_getElem?_eq_some.2 stored)
  have containers : twoLists.records.size = 2 := by decide +kernel
  have rows : (twoLists.records.values.map fun r => r.container.members.length).sum = 2 := by decide +kernel
  have dropped : (scrambledIndex.partitions.keys.filter fun c => !twoLists.records.contains c).length = 2 := by
    decide +kernel
  have converges := Call.rebuildAll_converges {} readable valid (m := scrambledIndex) rfl rfl
  rw [containers, rows, dropped] at converges
  exact ⟨readable, rfl, valid, converges⟩

end Containment
