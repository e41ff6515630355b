/-
Module: Containment.Proofs.Repository.Verification
Purpose: Comparing the whole index with the stored containers always comes to an end, changes neither, and is exact:
  its findings are just the true ones, and it finds nothing only of an index that repeats every stored list.
Main exports: Store.ReadsAs, Repository.findings, Divergence.IsReal, Index.Legible, Index.RepeatsKinds,
  Repository.succeeds_verify_legible, Repository.succeeds_verify, Call.verify_exact
-/
import Containment.Proofs.Repository.Agreement
import Containment.Proofs.Repository.Comparison
import Containment.Proofs.Undisturbed
import Containment.Repository.Call

namespace Containment

/-- The store answers every question as a store in memory would. -/
structure Store.ReadsAs (s : Store) (S : MemoryStore) : Prop where
  ids : s.perform .ids = (.ok S.records.keys, s)
  read : ∀ id, s.perform (.read id) = (.ok S.records[id]?, s)
  stored : ∀ id, s.perform (.exists id) = (.ok (S.records.contains id), s)

theorem Store.readsAs_memory (S : MemoryStore) : (Store.memory S).ReadsAs S := by
  constructor
  · rfl
  · intro id
    rfl
  · intro id
    rfl

/-- What a finding says of a record, if there is one, and of the rows of a partition, if there is one. -/
def Divergence.Separates (d : Divergence) : Option Record → Except IndexError (List IndexEntry) → Prop
  | some r, .ok rows => d.Tells r.container.members rows
  | some _, .error _ => d = .missingPartition d.container
  | none, .ok _ => d = .orphanPartition d.container
  | none, .error _ => False

instance (d : Divergence) :
    (record : Option Record) → (shown : Except IndexError (List IndexEntry)) → Decidable (d.Separates record shown)
  | some r, .ok rows => inferInstanceAs (Decidable (d.Tells r.container.members rows))
  | some _, .error _ => inferInstanceAs (Decidable (d = .missingPartition d.container))
  | none, .ok _ => inferInstanceAs (Decidable (d = .orphanPartition d.container))
  | none, .error _ => inferInstanceAs (Decidable False)

/-- What there is to find: a container without a partition, a partition without a container, and what can be said
of the rows of a container that has both. -/
def Divergence.IsReal (S : MemoryStore) (ix : Index) (d : Divergence) : Prop :=
  d.Separates S.records[d.container]? (ix.rows d.container)

instance (S : MemoryStore) (ix : Index) (d : Divergence) : Decidable (d.IsReal S ix) :=
  inferInstanceAs (Decidable (d.Separates S.records[d.container]? (ix.rows d.container)))

/-- What the index holds of a container can be read: the rows of its partition, or that it has none. -/
def Index.Legible (ix : Index) (id : String) : Prop :=
  (∃ rows, ix.perform (.hasPartition id) = (.ok true, ix) ∧ ix.perform (.select id {}) = (.ok rows, ix)) ∨
    ix.perform (.hasPartition id) = (.ok false, ix) ∧ ∃ e, ix.rows id = .error e

theorem Index.Lists.legible {ix : Index} {lists : Listing} (known : ix.Lists lists) (id : String) : ix.Legible id := by
  have present := known.hasPartition id
  cases listed : lists id with
  | none =>
    rw [listed] at present
    exact .inr ⟨present, _, known.rows_missing listed⟩
  | some members =>
    rw [listed] at present
    obtain ⟨rows, selected, -, -⟩ := known.select listed
    exact .inl ⟨rows, present, selected⟩

/-- The partitions belong to the stored containers, and the rows of each, in the order of their numbers, have its
members in their order, by identifier and kind. -/
structure Index.RepeatsKinds (ix : Index) (S : MemoryStore) : Prop where
  partitions : ix.partitions = .ok S.records.keys
  rows : ∀ id r, S.records[id]? = some r → ∃ rows, ix.rows id = .ok rows ∧
    (rows.Pairwise fun a b => a.seq < b.seq) ∧ rows.map IndexEntry.kind = r.container.members.map Member.kind

namespace Repository

open Containment.Action

variable {w : World} {S : MemoryStore} {lists : Listing} {id : String}

/-- The findings about one stored container. -/
def findings (S : MemoryStore) (ix : Index) (id : String) : List Divergence :=
  match S.records[id]?, ix.rows id with
  | some r, .ok rows => compareRows id r.container.members rows
  | some _, .error _ => [.missingPartition id]
  | none, _ => []

theorem succeeds_verifyHeld (readable : w.store.ReadsAs S) (clean : w.faults = []) (legible : w.index.Legible id) :
    (verifyHeld id).Succeeds w fun compared w' => w' = w ∧
      compared = S.records[id]?.map fun r => (r.container.members.length, findings S w.index id) := by
  simp only [verifyHeld]
  apply succeeds_store_bind clean (readable.read id)
  cases stored : S.records[id]? with
  | none =>
    apply succeeds_pure
    exact ⟨rfl, rfl⟩
  | some r =>
    rcases legible with ⟨rows, present, selected⟩ | ⟨missing, e, shown⟩
    · have shown : w.index.rows id = .ok rows := congrArg Prod.fst selected
      apply succeeds_index_bind clean present
      apply succeeds_index_bind clean selected
      apply succeeds_pure
      apply And.intro rfl
      rw [findings, stored, shown]
      rfl
    · apply succeeds_index_bind clean missing
      apply succeeds_pure
      apply And.intro rfl
      rw [findings, stored, shown]
      rfl

theorem succeeds_verifyEach (readable : w.store.ReadsAs S) (clean : w.faults = []) {ids : List String}
    (legible : ∀ id ∈ ids, w.index.Legible id) (report : ConsistencyReport) :
    (verifyEach ids report).Succeeds w fun full w' => w' = w ∧
      full.divergences = report.divergences ++ ids.flatMap (findings S w.index) := by
  induction ids generalizing report with
  | nil =>
    apply succeeds_pure
    exact ⟨rfl, (List.append_nil _).symm⟩
  | cons id rest ih =>
    have others := ih fun other mem => legible other (List.mem_cons_of_mem id mem)
    simp only [verifyEach]
    apply (succeeds_verifyHeld readable clean (legible id List.mem_cons_self)).withLock.bind
    intro compared w₁ given
    rcases given with ⟨rfl, rfl⟩
    cases stored : S.records[id]? with
    | none =>
      have nothing : findings S w₁.index id = [] := by rw [findings, stored]
      rw [List.flatMap_cons, nothing]
      exact others report
    | some r =>
      apply (others _).mono
      intro full w' given
      rcases given with ⟨rfl, found⟩
      apply And.intro rfl
      rw [found, List.flatMap_cons, List.append_assoc]

theorem succeeds_findOrphans (readable : w.store.ReadsAs S) (clean : w.faults = []) (partitions : List String) :
    (findOrphans partitions).Succeeds w fun orphans w' => w' = w ∧
      orphans = (partitions.filter fun p => !S.records.contains p).map Divergence.orphanPartition := by
  induction partitions with
  | nil =>
    apply succeeds_pure
    exact ⟨rfl, rfl⟩
  | cons p rest ih =>
    simp only [findOrphans, isStored]
    apply succeeds_store_bind clean (readable.stored p)
    apply ih.bind
    intro others w₁ given
    rcases given with ⟨rfl, rfl⟩
    apply succeeds_pure
    apply And.intro rfl
    rw [List.filter_cons]
    cases S.records.contains p <;> rfl

/-- The rows that an index in order shows have different members. -/
theorem distinct_of_rows {ix : Index} (known : ix.Lists lists) {rows : List IndexEntry} (shown : ix.rows id = .ok rows) :
    (rows.map IndexEntry.memberId).Nodup := by
  cases listed : lists id with
  | none =>
    rw [known.rows_missing listed] at shown
    cases shown
  | some members =>
    obtain ⟨rows', shown', -, repeated⟩ := known.rows_present listed
    have same : rows' = rows := Except.ok.inj (shown'.symm.trans shown)
    have distinct := known.distinct listed
    rw [← repeated, List.map_map, same] at distinct
    exact distinct

theorem mem_findings_iff {ix : Index} (known : ix.Lists lists) {d : Divergence} :
    d ∈ findings S ix id ↔ d.container = id ∧ id ∈ S.records ∧ d.IsReal S ix := by
  rw [findings, Std.ExtTreeMap.mem_iff_isSome_getElem?]
  cases stored : S.records[id]? with
  | none =>
    constructor
    · intro impossible
      cases impossible
    · intro given
      cases given.2.1
  | some r =>
    cases shown : ix.rows id with
    | error e =>
      constructor
      · intro mem
        rw [List.mem_singleton.1 mem, Divergence.IsReal, Divergence.container, stored, shown]
        exact ⟨rfl, rfl, rfl⟩
      · intro given
        rcases given with ⟨rfl, -, real⟩
        rw [Divergence.IsReal, stored, shown] at real
        exact List.mem_singleton.2 real
    | ok rows =>
      have told : d ∈ compareRows id r.container.members rows ↔ _ := mem_compareRows_iff (distinct_of_rows known shown)
      constructor
      · intro mem
        obtain ⟨rfl, tells⟩ := told.1 mem
        rw [Divergence.IsReal, stored, shown]
        exact ⟨rfl, rfl, tells⟩
      · intro given
        rcases given with ⟨rfl, -, real⟩
        rw [Divergence.IsReal, stored, shown] at real
        exact told.2 ⟨rfl, real⟩

theorem mem_orphans_iff {ix : Index} (known : ix.Lists lists) {names : List String}
    (named : ∀ c, c ∈ names ↔ (lists c).isSome) {d : Divergence} :
    d ∈ ((names.filter fun p => !S.records.keys.contains p).filter fun p => !S.records.contains p).map
        Divergence.orphanPartition ↔
      d.container ∉ S.records ∧ d.IsReal S ix := by
  have orphan : ∀ p, p ∈ (names.filter fun p => !S.records.keys.contains p).filter (fun p => !S.records.contains p) ↔
      p ∈ names ∧ S.records[p]? = none := by
    intro p
    have outside : S.records[p]? = none ↔ p ∉ S.records := by
      rw [Std.ExtTreeMap.mem_iff_isSome_getElem?, Option.not_isSome_iff_eq_none]
    simp only [List.mem_filter, Bool.not_eq_true', ← Bool.not_eq_true, List.contains_iff_mem,
      Std.ExtTreeMap.contains_iff_mem, Std.ExtTreeMap.mem_keys, outside, and_assoc, and_self]
  rw [List.mem_map, Std.ExtTreeMap.mem_iff_isSome_getElem?, Option.not_isSome_iff_eq_none]
  constructor
  · intro given
    rcases given with ⟨p, mem, rfl⟩
    obtain ⟨there, absent⟩ := (orphan p).1 mem
    obtain ⟨members, listed⟩ := Option.isSome_iff_exists.1 ((named p).1 there)
    obtain ⟨rows, shown, -, -⟩ := known.rows_present listed
    rw [Divergence.IsReal, Divergence.container, absent, shown]
    exact ⟨rfl, rfl⟩
  · intro given
    rcases given with ⟨absent, real⟩
    cases listed : lists d.container with
    | none =>
      rw [Divergence.IsReal, absent, known.rows_missing listed] at real
      exact real.elim
    | some members =>
      obtain ⟨rows, shown, -, -⟩ := known.rows_present listed
      rw [Divergence.IsReal, absent, shown] at real
      have there : d.container ∈ names := by
        rw [named, listed]
        rfl
      exact ⟨d.container, (orphan _).2 ⟨there, absent⟩, real.symm⟩

/-- A comparison ends well and leaves everything as it is if what the index holds of the stored containers can be read.
It reports the findings about these, and then the partitions without a container. -/
theorem succeeds_verify_legible (readable : w.store.ReadsAs S) (clean : w.faults = [])
    (legible : ∀ id ∈ S.records.keys, w.index.Legible id) {names : List String}
    (asked : w.index.perform .partitions = (.ok names, w.index)) :
    verify.Succeeds w fun report w' => w' = w ∧
      report.divergences = S.records.keys.flatMap (findings S w.index) ++
        ((names.filter fun p => !S.records.keys.contains p).filter fun p => !S.records.contains p).map
          Divergence.orphanPartition := by
  simp only [verify]
  apply succeeds_store_bind clean readable.ids
  apply (succeeds_verifyEach readable clean legible {}).bind
  intro report w₁ given
  rcases given with ⟨rfl, found⟩
  apply succeeds_index_bind clean asked
  apply (succeeds_findOrphans readable clean _).bind
  intro orphans w₁ given
  rcases given with ⟨rfl, rfl⟩
  apply succeeds_pure
  apply And.intro rfl
  rw [found, List.nil_append]

/-- Of an index in order it reports what is to be found, and nothing else. -/
theorem succeeds_verify (readable : w.store.ReadsAs S) (known : w.index.Lists lists) (clean : w.faults = []) :
    verify.Succeeds w fun report w' => w' = w ∧ ∀ d, d ∈ report.divergences ↔ d.IsReal S w.index := by
  obtain ⟨names, asked, -, named⟩ := known.partitions
  apply (succeeds_verify_legible readable clean (fun id _ => known.legible id) asked).mono
  intro report w' given
  rcases given with ⟨rfl, found⟩
  apply And.intro rfl
  intro d
  rw [found, List.mem_append, List.mem_flatMap, mem_orphans_iff known named]
  simp only [mem_findings_iff known, Std.ExtTreeMap.mem_keys]
  constructor
  · intro given
    rcases given with ⟨id, -, -, -, real⟩ | ⟨-, real⟩
    · exact real
    · exact real
  · intro real
    by_cases stored : d.container ∈ S.records
    · exact .inl ⟨d.container, stored, rfl, stored, real⟩
    · exact .inr ⟨stored, real⟩

theorem isReal_missingPartition {ix : Index} (known : ix.Lists lists) (unlisted : lists id = none) {r : Record}
    (stored : S.records[id]? = some r) : (Divergence.missingPartition id).IsReal S ix := by
  rw [Divergence.IsReal, Divergence.container, stored, known.rows_missing unlisted]
  exact rfl

theorem isReal_orphanPartition {ix : Index} {rows : List IndexEntry} (shown : ix.rows id = .ok rows)
    (absent : S.records[id]? = none) : (Divergence.orphanPartition id).IsReal S ix := by
  rw [Divergence.IsReal, Divergence.container, absent, shown]
  exact rfl

/-- Nothing is to be found just of an index that repeats what is stored. -/
theorem none_real_iff {ix : Index} (known : ix.Lists lists) :
    (∀ d : Divergence, ¬ d.IsReal S ix) ↔ ix.RepeatsKinds S := by
  obtain ⟨names, shown, ordered, named⟩ := known.partitions_shown
  constructor
  · intro none
    have both : ∀ c, (lists c).isSome ↔ S.records[c]?.isSome := by
      intro c
      cases listed : lists c with
      | none =>
        cases stored : S.records[c]? with
        | none => rfl
        | some r => exact absurd (isReal_missingPartition known listed stored) (none _)
      | some members =>
        obtain ⟨rows, shown, -, -⟩ := known.rows_present listed
        cases stored : S.records[c]? with
        | none => exact absurd (isReal_orphanPartition shown stored) (none _)
        | some r => rfl
    constructor
    · have same : names = S.records.keys := by
        apply eq_of_ordered id ordered S.records.ordered_keys
        intro c
        rw [named, both, Std.ExtTreeMap.mem_keys, Std.ExtTreeMap.mem_iff_isSome_getElem?]
      rw [shown, same]
    · intro id r stored
      have present : (lists id).isSome := by
        rw [both, stored]
        rfl
      obtain ⟨members, listed⟩ := Option.isSome_iff_exists.1 present
      obtain ⟨rows, shown, ordered, -⟩ := known.rows_present listed
      refine ⟨rows, shown, ordered, ?_⟩
      apply kinds_eq_of_silent id (distinct_of_rows known shown)
      intro d about tells
      apply none d
      rw [Divergence.IsReal, about, stored, shown]
      exact tells
  · intro repeats d real
    have same : names = S.records.keys := Except.ok.inj (shown.symm.trans repeats.partitions)
    cases stored : S.records[d.container]? with
    | some r =>
      obtain ⟨rows, shown, -, kinds⟩ := repeats.rows _ r stored
      rw [Divergence.IsReal, stored, shown] at real
      exact not_tells_of_kinds_eq (distinct_of_rows known shown) kinds real
    | none =>
      have unlisted : lists d.container = none := by
        rw [← Option.not_isSome_iff_eq_none, ← named, same, Std.ExtTreeMap.mem_keys,
          Std.ExtTreeMap.mem_iff_isSome_getElem?, stored]
        exact Bool.false_ne_true
      rw [Divergence.IsReal, stored, known.rows_missing unlisted] at real
      exact real

end Repository

/-- **A comparison is exact.** Take any store whose records can be read, and an index in memory in any state that its
own requests lead to. Then a comparison ends well and changes nothing. It finds nothing just if the index
repeats every stored list by identifier and kind, and whatever it finds is there, and whatever is there it
finds. -/
theorem Call.verify_exact (settings : Settings) {w : World} {S : MemoryStore} (readable : w.store.ReadsAs S)
    {calls : List IndexCall} (damaged : w.index = Index.empty.after calls) (clean : w.faults = []) :
    ∃ report, (Call.verify.program settings).run none w = (.ok (.report report), w) ∧
      (report.divergences = [] ↔ w.index.RepeatsKinds S) ∧
      ∀ d, d ∈ report.divergences ↔ d.IsReal S w.index := by
  obtain ⟨lists, known⟩ := Index.lists_empty.after calls
  rw [← damaged] at known
  have compared : (Call.verify.action settings).Succeeds w fun reply w' =>
      ∃ report, reply = .report report ∧ w' = w ∧ ∀ d, d ∈ report.divergences ↔ d.IsReal S w.index := by
    apply Action.Succeeds.map
    apply (Repository.succeeds_verify readable known clean).mono
    intro report w' given
    exact ⟨report, rfl, given⟩
  obtain ⟨_, _, ended, report, rfl, rfl, found⟩ := compared
  refine ⟨report, ended, ?_, found⟩
  rw [← Repository.none_real_iff known, List.eq_nil_iff_forall_not_mem]
  simp only [found]

/-- A record of a container with a membership list of any sort. -/
def recordListing (id : String) (members : List (String × MemberType)) : Record :=
  { revision := 1
    container :=
      { id, parentId := "", type := .basic
        members := members.map fun (id, type) => { id, type, addedAt := Time.Instant.epoch }
        metadata := ∅, createdAt := Time.Instant.epoch, updatedAt := Time.Instant.epoch } }

/-- Two containers, one of which lists a member twice. -/
def listedTwice : MemoryStore :=
  { records := Std.ExtTreeMap.ofList
      [("a", recordListing "a" [("b", .container), ("c.txt", .resource), ("c.txt", .binary)]),
        ("b", recordListing "b" [("d.txt", .resource), ("e.txt", .resource)]), ("f", recordListing "f" [])] }

/-- An index with one row of that member, two rows in the wrong order, and a partition for nothing. -/
def disorderedIndex : List IndexCall :=
  let member (id : String) (type : MemberType) : Member := { id, type, addedAt := Time.Instant.epoch }
  [.replacePartition "a" [member "b" .container, member "c.txt" .resource],
    .createPartition "b", .insert "b" (member "e.txt" .resource), .insert "b" (member "d.txt" .resource),
    .createPartition "g"]

theorem disorderedIndex_verified :
    let w : World := { (default : World) with store := .memory listedTwice, index := Index.empty.after disorderedIndex }
    w.store.ReadsAs listedTwice ∧ w.faults = [] ∧
      ∃ report, (Call.verify.program {}).run none w = (.ok (.report report), w) ∧
        (report.divergences = [] ↔ w.index.RepeatsKinds listedTwice) ∧
        (∀ d, d ∈ report.divergences ↔ d.IsReal listedTwice w.index) ∧
        Divergence.countMismatch "a" 3 2 ∈ report.divergences ∧
        Divergence.typeMismatch "a" "c.txt" .binary .resource ∈ report.divergences ∧
        Divergence.orderMismatch "b" ∈ report.divergences ∧ Divergence.missingPartition "f" ∈ report.divergences ∧
        Divergence.orphanPartition "g" ∈ report.divergences ∧ Divergence.orderMismatch "a" ∉ report.divergences := by
  intro w
  have readable : w.store.ReadsAs listedTwice := Store.readsAs_memory listedTwice
  have damaged : w.index = Index.empty.after disorderedIndex := rfl
  obtain ⟨report, ended, empty, found⟩ := Call.verify_exact {} readable damaged rfl
  refine ⟨readable, rfl, report, ended, empty, found, ?_⟩
  simp only [found]
  decide +kernel

end Containment
