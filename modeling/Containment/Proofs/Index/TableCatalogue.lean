/-
Module: Containment.Proofs.Index.TableCatalogue
Purpose: The index in a database does what is meant of an index, as long as times are whole milliseconds and the
  database has a number left: its table shows a catalogue, it answers as the catalogue does, and it shows
  the catalogue that a request leaves behind. A request that fails is rolled back with the numbers it took.
Main exports: Instant.IsWhole, TableRow.ofEntry, TableRow.decode_ofEntry, TableIndex.Shows,
  TableIndex.Meets, TableIndex.Exhausts, TableIndex.Shows.perform
-/
import Containment.Index.Table
import Containment.Proofs.Index.Catalogue

namespace Containment

open Time

/-! ### Whole milliseconds -/

namespace Time.Instant

/-- A whole number of milliseconds after the epoch, in the supported range. -/
def IsWhole (t : Instant) : Prop :=
  ∃ ms, ofMillis? ms = some t

theorem toMillis_ofMillis (ms : Int) : (ofMillis ms).toMillis = ms := by
  have millis : (ms % 1000).toNat * 1000000 / 1000000 = (ms % 1000).toNat := Nat.mul_div_cancel _ (by decide)
  change ms / 1000 * 1000 + (((ms % 1000).toNat * 1000000 / 1000000 : Nat) : Int) = ms
  rw [millis]
  omega

theorem IsWhole.eq_ofMillis {t : Instant} (whole : t.IsWhole) : t = ofMillis t.toMillis := by
  obtain ⟨ms, given⟩ := whole
  rw [ofMillis?] at given
  split at given
  · cases given
    rw [toMillis_ofMillis]
  · cases given

theorem IsWhole.ofMillis?_toMillis {t : Instant} (whole : t.IsWhole) : ofMillis? t.toMillis = some t := by
  obtain ⟨ms, given⟩ := id whole
  have same : t = ofMillis ms := by
    rw [ofMillis?] at given
    split at given
    · exact (Option.some.inj given).symm
    · cases given
  rw [same, toMillis_ofMillis, given, same]

theorem isWhole_iff (t : Instant) : t.IsWhole ↔ ofMillis? t.toMillis = some t :=
  ⟨IsWhole.ofMillis?_toMillis, fun given => ⟨t.toMillis, given⟩⟩

instance (t : Instant) : Decidable t.IsWhole :=
  decidable_of_iff _ t.isWhole_iff.symm

/-- Whole milliseconds come in the order of their number. -/
theorem compare_ofMillis (a b : Int) : compare (ofMillis a) (ofMillis b) = compare a b := by
  change (compare (a / 1000) (b / 1000)).then
    (compare ((a % 1000).toNat * 1000000) ((b % 1000).toNat * 1000000)) = compare a b
  rcases lt_trichotomy (a / 1000) (b / 1000) with less | same | more
  · rw [compare_lt_iff_lt.2 less, compare_lt_iff_lt.2 (show a < b by omega)]
    rfl
  · rw [compare_eq_iff_eq.2 same, Ordering.then]
    rcases lt_trichotomy a b with less | rfl | more
    · rw [compare_lt_iff_lt.2 less]
      apply compare_lt_iff_lt.2
      omega
    · rw [compare_eq_iff_eq.2 rfl, compare_eq_iff_eq.2 rfl]
    · rw [compare_gt_iff_gt.2 more]
      apply compare_gt_iff_gt.2
      omega
  · rw [compare_gt_iff_gt.2 more, compare_gt_iff_gt.2 (show a > b by omega)]
    rfl

theorem IsWhole.compare_toMillis {a b : Instant} (wholeA : a.IsWhole) (wholeB : b.IsWhole) :
    compare a.toMillis b.toMillis = compare a b := by
  rw [← compare_ofMillis, ← wholeA.eq_ofMillis, ← wholeB.eq_ofMillis]

end Time.Instant

theorem MemberType.parse_name (kind : MemberType) : parse kind.name = .ok kind := by
  have plain : normalizedName kind.name = kind.name := by
    cases kind with
    | resource | container | binary => decide +kernel
  rw [parse, plain, ofName?_name]

theorem MemberType.name_beq (a b : MemberType) : (a.name == b.name) = (a == b) := by
  cases a <;> cases b <;> rfl

/-! ### Rows of the table and what they stand for -/

namespace TableRow

/-- The row that stands for an entry. -/
def ofEntry (entry : IndexEntry) : TableRow :=
  { seq := entry.seq, containerId := entry.containerId, memberId := entry.memberId
    memberType := entry.type.name, insertedAtMs := entry.insertedAt.toMillis }

theorem decode_ofEntry {entry : IndexEntry} (whole : entry.insertedAt.IsWhole) :
    (ofEntry entry).decode = .ok entry := by
  simp only [decode, ofEntry, MemberType.parse_name, whole.ofMillis?_toMillis]
  rfl

theorem mapM_decode {entries : List IndexEntry} (whole : ∀ e ∈ entries, e.insertedAt.IsWhole) :
    (entries.map ofEntry).mapM decode = .ok entries := by
  induction entries with
  | nil => rfl
  | cons e rest ih =>
    rw [List.map_cons, List.mapM_cons, decode_ofEntry (whole e List.mem_cons_self),
      ih fun e' mem => whole e' (List.mem_cons_of_mem e mem)]
    rfl

theorem hasType_ofEntry (type : Option MemberType) (entry : IndexEntry) :
    hasType type (ofEntry entry) = typePasses type entry.type := by
  cases type with
  | none => rfl
  | some type => exact MemberType.name_beq type entry.type

theorem newer_ofEntry {a b : IndexEntry} (wholeA : a.insertedAt.IsWhole) (wholeB : b.insertedAt.IsWhole) :
    newer (ofEntry a) (ofEntry b) = Partition.newer a b := by
  have seqs : compare (b.seq : Int) (a.seq : Int) = compare b.seq a.seq := by
    simp only [compare, compareOfLessAndEq, Int.ofNat_lt, Int.ofNat_inj]
  simp only [newer, ofEntry, Partition.newer, wholeB.compare_toMillis wholeA, seqs]

end TableRow

/-! ### The catalogue that a table shows -/

namespace TableIndex

/-- The table has the rows of a catalogue, each under its own number and none above `last`, and the catalogue's
partitions. -/
structure Shows (t : TableIndex) (last : Nat) (held : Catalogue) : Prop where
  number : t.lastSeq = last
  row : ∀ (n : Int) (row : TableRow), t.rows[n]? = some row → row.seq = n ∧ n ≤ last
  partition : ∀ c, t.partitions.contains c = held.contains c
  listed : ∀ c, t.rowsOf c = (held[c]?.getD []).map TableRow.ofEntry

variable {t : TableIndex} {last : Nat} {held : Catalogue} {c : String}

theorem shows_empty : Shows {} 0 ∅ := by
  constructor
  · rfl
  · intro n row found
    simp at found
  · intro c
    simp
  · intro c
    rw [Std.ExtTreeMap.getElem?_empty]
    rfl

theorem maxKey_le (below : ∀ (n : Int) (row : TableRow), t.rows[n]? = some row → n ≤ last) :
    t.rows.maxKey?.getD 0 ≤ last := by
  cases key : t.rows.maxKey? with
  | none => exact Int.natCast_nonneg last
  | some n =>
    have mem := (Std.ExtTreeMap.maxKey?_eq_some_iff_mem_and_forall.1 key).1
    rw [Std.ExtTreeMap.mem_iff_isSome_getElem?, Option.isSome_iff_exists] at mem
    obtain ⟨row, found⟩ := mem
    exact below n row found

theorem Shows.nextSeq (known : t.Shows last held) : t.nextSeq = last + 1 := by
  have highest := maxKey_le fun n row found => (known.row n row found).2
  rw [TableIndex.nextSeq, known.number, max_eq_left highest]

theorem Shows.hasRow (known : t.Shows last held) (c id : String) :
    t.hasRow c id = held[c]?.any fun rows => rows.any (·.memberId == id) := by
  rw [TableIndex.hasRow, known.listed, List.any_map]
  cases held[c]? with
  | none => rfl
  | some rows => rfl

theorem Shows.ask_missing (known : t.Shows last held) (missing : held[c]? = none) {α : Type}
    (answer : Except IndexError α) : t.ask c answer = .error (.partitionNotFound c) := by
  rw [TableIndex.ask, known.partition, Std.ExtTreeMap.contains_eq_isSome_getElem?, missing]
  rfl

theorem Shows.ask_present (known : t.Shows last held) {rows : List IndexEntry} (found : held[c]? = some rows)
    {α : Type} (answer : Except IndexError α) : t.ask c answer = answer := by
  rw [TableIndex.ask, known.partition, Std.ExtTreeMap.contains_eq_isSome_getElem?, found]
  rfl

theorem Shows.ask (known : t.Shows last held) {α : Type} {answer : Except IndexError α}
    {question : List IndexEntry → α}
    (alike : ∀ rows, held[c]? = some rows → answer = .ok (question rows)) :
    t.ask c answer = held.ask c question := by
  rw [Catalogue.ask]
  cases found : held[c]? with
  | none => exact known.ask_missing found answer
  | some rows => exact (known.ask_present found answer).trans (alike rows found)

/-! ### Rows come and go -/

/-- Rows in the order of their numbers: leaving rows out leaves the others in their order. -/
theorem values_filter {keep : TableRow → Bool} (rows : Std.ExtTreeMap Int TableRow) :
    (rows.filter fun _ row => keep row).values = rows.values.filter keep := by
  rw [values_eq_map_snd_toList, values_eq_map_snd_toList, Std.ExtTreeMap.toList_filter, List.filter_map]
  rfl

theorem rowsOf_dropRows (t : TableIndex) (condition : TableRow → Bool) (c : String) :
    (t.dropRows condition).rowsOf c = (t.rowsOf c).filter fun row => !condition row := by
  rw [rowsOf, rowsOf, dropRows, values_filter, List.filter_filter, List.filter_filter]
  apply List.filter_congr
  intro row _
  exact Bool.and_comm _ _

/-- A row with a number above all others comes last. -/
theorem values_insert_above {rows : Std.ExtTreeMap Int TableRow} {n : Int}
    (above : ∀ (k : Int) (row : TableRow), rows[k]? = some row → k < n) (row : TableRow) :
    (rows.insert n row).values = rows.values ++ [row] := by
  have known : ∀ pair ∈ rows.toList, pair.1 < n :=
    fun pair mem => above pair.1 pair.2 (Std.ExtTreeMap.mem_toList_iff_getElem?_eq_some.1 mem)
  have ordered : (rows.toList ++ [(n, row)]).Pairwise fun a b => compare a.1 b.1 = .lt := by
    rw [List.pairwise_append]
    constructor
    · exact rows.ordered_keys_toList
    · constructor
      · exact List.pairwise_singleton ..
      · intro a memA b memB
        rw [List.mem_singleton.1 memB]
        exact compare_lt_iff_lt.2 (known a memA)
  have pairs : (rows.insert n row).toList = rows.toList ++ [(n, row)] := by
    apply eq_of_ordered Prod.fst (rows.insert n row).ordered_keys_toList ordered
    intro pair
    rcases pair with ⟨k, row'⟩
    simp only [Std.ExtTreeMap.mem_toList_iff_getElem?_eq_some, Std.ExtTreeMap.getElem?_insert, List.mem_append,
      List.mem_singleton, Std.LawfulEqCmp.compare_eq_iff_eq, Prod.mk.injEq]
    by_cases same : n = k
    · subst same
      have free : rows[n]? ≠ some row' := fun found => Int.lt_irrefl n (above n row' found)
      simp [free, eq_comm]
    · simp [same, Ne.symm same]
  rw [values_eq_map_snd_toList, values_eq_map_snd_toList, pairs, List.map_append]
  rfl

/-- The table with an empty partition for a container, whatever it held of it before. -/
def seeded (t : TableIndex) (c : String) : TableIndex :=
  { t.dropRows (·.containerId == c) with partitions := t.partitions.insert c }

theorem replacePartition_eq (t : TableIndex) (c : String) (members : List Member) :
    t.replacePartition c members = ((t.seeded c).insertRows c members).map fun filled => ((), filled) :=
  rfl

/-- The table with one more row. -/
def grown (t : TableIndex) (entry : IndexEntry) : TableIndex :=
  { t with rows := t.rows.insert entry.seq (TableRow.ofEntry entry), lastSeq := entry.seq }

theorem rowsOf_grown {entry : IndexEntry}
    (above : ∀ (k : Int) (row : TableRow), t.rows[k]? = some row → k < entry.seq) (d : String) :
    (t.grown entry).rowsOf d = t.rowsOf d ++ if entry.containerId = d then [TableRow.ofEntry entry] else [] := by
  rw [rowsOf, TableIndex.grown, values_insert_above above, List.filter_append]
  apply congrArg (t.rowsOf d ++ ·)
  by_cases own : entry.containerId = d
  · simp [TableRow.ofEntry, own]
  · simp [TableRow.ofEntry, own]

theorem Shows.own (known : t.Shows last held) (c : String) : ∀ e ∈ held[c]?.getD [], e.containerId = c := by
  intro e mem
  have listed : TableRow.ofEntry e ∈ t.rowsOf c := by
    rw [known.listed]
    exact List.mem_map_of_mem mem
  exact eq_of_beq (List.mem_filter.1 listed).2

theorem Shows.grown (known : t.Shows last held) {rows : List IndexEntry} (found : held[c]? = some rows)
    {entry : IndexEntry} (number : entry.seq = last + 1) (own : entry.containerId = c) :
    (t.grown entry).Shows (last + 1) (held.insert c (rows ++ [entry])) := by
  have above : ∀ (k : Int) (row : TableRow), t.rows[k]? = some row → k < entry.seq := by
    intro k row there
    have le := (known.row k row there).2
    omega
  constructor
  · exact congrArg Nat.cast number
  · intro n row there
    rw [TableIndex.grown, Std.ExtTreeMap.getElem?_insert] at there
    split at there
    · rename_i same
      cases there
      rw [← Std.LawfulEqCmp.compare_eq_iff_eq.1 same, number]
      exact And.intro (congrArg Nat.cast number) le_rfl
    · obtain ⟨same, le⟩ := known.row n row there
      exact And.intro same (by omega)
  · intro d
    rw [TableIndex.grown, known.partition, Std.ExtTreeMap.contains_insert, Std.ExtTreeMap.contains_eq_isSome_getElem?]
    by_cases same : c = d
    · simp [← same, found]
    · simp [same]
  · intro d
    rw [rowsOf_grown above, known.listed, Std.ExtTreeMap.getElem?_insert, own]
    by_cases same : c = d
    · subst same
      rw [if_pos (Std.LawfulEqCmp.compare_eq_iff_eq.2 rfl), if_pos rfl, found, Option.getD_some, Option.getD_some,
        List.map_append]
      rfl
    · rw [if_neg (mt Std.LawfulEqCmp.compare_eq_iff_eq.1 same), if_neg same, List.append_nil]

/-- Leaving out rows of one container by a condition on them touches no other container. -/
theorem Shows.filter_own (known : t.Shows last held) (c d : String) (gone : IndexEntry → Bool) :
    ((held[d]?.getD []).filter fun e => !(e.containerId == c && gone e)) =
      if c = d then (held[d]?.getD []).filter fun e => !gone e else held[d]?.getD [] := by
  by_cases same : c = d
  · subst same
    rw [if_pos rfl]
    apply List.filter_congr
    intro e mem
    rw [known.own c e mem, beq_self_eq_true, Bool.true_and]
  · rw [if_neg same]
    apply List.filter_eq_self.2
    intro e mem
    have elsewhere : (e.containerId == c) = false := by
      rw [known.own d e mem]
      exact beq_eq_false_iff_ne.2 (Ne.symm same)
    rw [elsewhere]
    rfl

/-- Leaving out rows of one container, and changing partitions, so as to show another catalogue. -/
theorem Shows.dropRows (known : t.Shows last held) {condition : TableRow → Bool} (gone : IndexEntry → Bool)
    {partitions : Std.ExtTreeSet String} {held' : Catalogue}
    (meaning : ∀ e, condition (TableRow.ofEntry e) = (e.containerId == c && gone e))
    (partition : ∀ d, partitions.contains d = held'.contains d)
    (kept : ∀ d, held'[d]?.getD [] =
      if c = d then (held[d]?.getD []).filter fun e => !gone e else held[d]?.getD []) :
    Shows { t.dropRows condition with partitions } last held' := by
  constructor
  · exact known.number
  · intro n row there
    rw [TableIndex.dropRows, Std.ExtTreeMap.getElem?_filter', Option.filter_eq_some_iff] at there
    exact known.row n row there.1
  · exact partition
  · intro d
    change (t.dropRows condition).rowsOf d = _
    rw [rowsOf_dropRows, known.listed, kept, ← known.filter_own, List.filter_map]
    apply congrArg (List.map TableRow.ofEntry)
    apply List.filter_congr
    intro e _
    exact congrArg Bool.not (meaning e)

/-! ### One request -/

theorem Shows.insertRow (known : t.Shows last held) {rows : List IndexEntry} (found : held[c]? = some rows)
    {m : Member} (whole : m.addedAt.IsWhole) :
    t.insertRow c m =
      if m.id ∈ rows.map IndexEntry.memberId then .error (.duplicateEntry c m.id)
      else if maxSeq < last + 1 then .error (.database .full)
      else .ok (IndexEntry.ofMember c m (last + 1), t.grown (IndexEntry.ofMember c m (last + 1))) := by
  have row : TableRow.ofMember c m t.nextSeq = TableRow.ofEntry (IndexEntry.ofMember c m (last + 1)) := by
    rw [known.nextSeq]
    rfl
  have decoded : (TableRow.ofEntry (IndexEntry.ofMember c m (last + 1))).decode = _ := TableRow.decode_ofEntry whole
  have listed : t.hasRow c m.id = true ↔ m.id ∈ rows.map IndexEntry.memberId := by
    rw [known.hasRow, found, Option.any_some, List.any_eq_true, List.mem_map]
    simp only [beq_iff_eq]
  simp only [TableIndex.insertRow, row, decoded, listed]
  rw [known.nextSeq]
  rfl

/-- Adding rows stops at the first member that is listed already, unless there are too few numbers left and they are
used up before. -/
theorem Shows.insertRows (known : t.Shows last held) {rows : List IndexEntry} (found : held[c]? = some rows)
    {members : List Member} (whole : ∀ m ∈ members, m.addedAt.IsWhole) :
    t.insertRows c members = .error (.database .full) ∧ maxSeq < ↑(last + members.length) ∨
      match Member.repeated? (rows.map IndexEntry.memberId) members with
      | some id => t.insertRows c members = .error (.duplicateEntry c id)
      | none => ∃ t', t.insertRows c members = .ok t' ∧
          t'.Shows (last + members.length) (held.insert c (rows ++ IndexEntry.numbered c last members)) := by
  induction members generalizing t last held rows with
  | nil =>
    apply Or.inr
    exists t
    apply And.intro rfl
    rw [IndexEntry.numbered, List.append_nil, Catalogue.insert_of_getElem? found]
    exact known
  | cons m rest ih =>
    have wholeM := whole m List.mem_cons_self
    have first := known.insertRow found wholeM
    rw [TableIndex.insertRows, Member.repeated?, first]
    by_cases listed : m.id ∈ rows.map IndexEntry.memberId
    · rw [if_pos listed, if_pos listed]
      exact .inr rfl
    · rw [if_neg listed, if_neg listed]
      by_cases full : maxSeq < last + 1
      · rw [if_pos full]
        apply Or.inl
        apply And.intro rfl
        rw [List.length_cons]
        omega
      · rw [if_neg full]
        have grown : (t.grown (IndexEntry.ofMember c m (last + 1))).Shows (last + 1) _ := known.grown found rfl rfl
        have there : (held.insert c (rows ++ [IndexEntry.ofMember c m (last + 1)]))[c]? =
            some (rows ++ [IndexEntry.ofMember c m (last + 1)]) := Std.ExtTreeMap.getElem?_insert_self
        have others := ih grown there fun m' mem => whole m' (List.mem_cons_of_mem m mem)
        have length : last + (m :: rest).length = last + 1 + rest.length := by
          rw [List.length_cons]
          omega
        rw [List.map_append, List.append_assoc, Catalogue.insert_insert] at others
        rw [length]
        exact others

/-- What a request makes of a table that shows a catalogue: it is answered as the catalogue answers it, and the
table then shows what the catalogue has become. -/
structure Meets (t : TableIndex) (last : Nat) (held : Catalogue) (call : IndexCall) : Prop where
  answer : (t.perform call).1 = (held.perform last call).1
  shows : (t.perform call).2.Shows (held.reached last call) (held.perform last call).2

/-- A request that fails because not all members that it brings can get a number. -/
structure Exhausts (t : TableIndex) (last : Nat) (call : IndexCall) : Prop where
  refused : (t.perform call).1 = .error (.database .full)
  short : maxSeq < ↑(last + call.members.length)

variable {call : IndexCall}

theorem Shows.meets_error (known : t.Shows last held) {e : IndexError} (outcome : t.perform call = (.error e, t))
    (meant : held.perform last call = (.error e, held)) : t.Meets last held call := by
  constructor
  · rw [outcome, meant]
  · rw [outcome, Catalogue.reached, meant]
    exact known

theorem meets_ok {t' : TableIndex} {held' : Catalogue} {answer : call.Answer}
    (outcome : t.perform call = (.ok answer, t')) (meant : held.perform last call = (.ok answer, held'))
    (shows : t'.Shows (last + call.members.length) held') : t.Meets last held call := by
  constructor
  · rw [outcome, meant]
  · rw [outcome, Catalogue.reached, meant]
    exact shows

/-- A question changes nothing. -/
theorem Shows.meets_question (known : t.Shows last held) (outcome : t.perform call = ((held.perform last call).1, t))
    (question : (held.perform last call).2 = held) (rowless : call.members = []) : t.Meets last held call := by
  constructor
  · rw [outcome]
  · rw [outcome, question, held.reached_of_members_nil last rowless]
    exact known

theorem Shows.contains_insert (known : t.Shows last held) (c : String) (rows : List IndexEntry) (d : String) :
    (t.partitions.insert c).contains d = Std.ExtTreeMap.contains (held.insert c rows) d := by
  rw [Std.ExtTreeSet.contains_insert, Std.ExtTreeMap.contains_insert, known.partition]

theorem Shows.createPartition (known : t.Shows last held) (c : String) : t.Meets last held (.createPartition c) := by
  by_cases there : held.contains c = true
  · apply known.meets_error (e := .partitionExists c)
    · simp only [TableIndex.perform, known.partition, if_pos there]
    · simp only [Catalogue.perform, if_pos there]
  · have empty : held[c]?.getD [] = [] := by
      rw [Std.ExtTreeMap.contains_eq_isSome_getElem?, Bool.not_eq_true, Option.isSome_eq_false_iff,
        Option.isNone_iff_eq_none] at there
      rw [there]
      rfl
    apply meets_ok
    · simp only [TableIndex.perform, known.partition, if_neg there]
      rfl
    · simp only [Catalogue.perform, if_neg there]
      rfl
    · constructor
      · exact known.number
      · exact known.row
      · exact known.contains_insert c []
      · intro d
        change t.rowsOf d = _
        rw [known.listed, Std.ExtTreeMap.getElem?_insert]
        split
        · rename_i same
          rw [← Std.LawfulEqCmp.compare_eq_iff_eq.1 same, empty]
          rfl
        · rfl

theorem Shows.dropPartition (known : t.Shows last held) (c : String) : t.Meets last held (.dropPartition c) := by
  apply meets_ok
  · exact congrArg (fun existed => (Except.ok existed, _)) (known.partition c)
  · rfl
  · apply known.dropRows (c := c) fun _ => true
    · intro e
      exact (Bool.and_true _).symm
    · intro d
      rw [Std.ExtTreeSet.contains_erase, Std.ExtTreeMap.contains_erase, known.partition]
    · intro d
      simp only [Std.ExtTreeMap.getElem?_erase, Std.LawfulEqCmp.compare_eq_iff_eq, Bool.not_true, List.filter_false]
      split <;> rfl

theorem Shows.insert (known : t.Shows last held) (c : String) {m : Member} (whole : m.addedAt.IsWhole) :
    t.Exhausts last (.insert c m) ∨ t.Meets last held (.insert c m) := by
  cases found : held[c]? with
  | none =>
    apply Or.inr
    apply known.meets_error
    · simp only [TableIndex.perform, known.ask_missing found, commit]
      rfl
    · simp only [Catalogue.perform, found]
  | some rows =>
    have inserted := (known.ask_present found _).trans (known.insertRow found whole)
    by_cases listed : m.id ∈ rows.map IndexEntry.memberId
    · apply Or.inr
      apply known.meets_error
      · simp only [TableIndex.perform, inserted, if_pos listed, commit]
        rfl
      · simp only [Catalogue.perform, found, if_pos listed]
    · by_cases full : maxSeq < last + 1
      · apply Or.inl
        constructor
        · simp only [TableIndex.perform, inserted, if_neg listed, if_pos full, commit]
        · exact full
      · apply Or.inr
        apply meets_ok
        · simp only [TableIndex.perform, inserted, if_neg listed, if_neg full, commit]
          rfl
        · simp only [Catalogue.perform, found, if_neg listed]
          rfl
        · exact known.grown found rfl rfl

theorem Shows.remove (known : t.Shows last held) (c id : String) : t.Meets last held (.remove c id) := by
  cases found : held[c]? with
  | none =>
    apply known.meets_error
    · simp only [TableIndex.perform, known.ask_missing found, commit]
      rfl
    · simp only [Catalogue.perform, found]
  | some rows =>
    apply meets_ok
    · simp only [TableIndex.perform, known.ask_present found, known.hasRow, found, Option.any_some, commit]
      rfl
    · simp only [Catalogue.perform, found]
      rfl
    · apply known.dropRows (c := c) fun e => e.memberId == id
      · intro e
        rfl
      · intro d
        rw [known.partition, Std.ExtTreeMap.contains_insert]
        by_cases same : c = d
        · have there : held.contains d = true := by
            rw [← same, Std.ExtTreeMap.contains_eq_isSome_getElem?, found]
            rfl
          rw [there, Bool.or_true]
        · simp [same]
      · intro d
        simp only [Std.ExtTreeMap.getElem?_insert, Std.LawfulEqCmp.compare_eq_iff_eq]
        split
        · rename_i same
          rw [← same, found]
          rfl
        · rfl

theorem Shows.replacePartition (known : t.Shows last held) (c : String) {members : List Member}
    (whole : ∀ m ∈ members, m.addedAt.IsWhole) :
    t.Exhausts last (.replacePartition c members) ∨ t.Meets last held (.replacePartition c members) := by
  have empty : (t.seeded c).Shows last (held.insert c []) := by
    apply known.dropRows (c := c) fun _ => true
    · intro e
      exact (Bool.and_true _).symm
    · exact known.contains_insert c []
    · intro d
      simp only [Std.ExtTreeMap.getElem?_insert, Std.LawfulEqCmp.compare_eq_iff_eq, Bool.not_true, List.filter_false]
      split <;> rfl
  have replaced := t.replacePartition_eq c members
  rcases empty.insertRows Std.ExtTreeMap.getElem?_insert_self whole with ⟨full, short⟩ | filled
  · apply Or.inl
    constructor
    · simp only [TableIndex.perform, replaced, full, Except.map, commit]
    · exact short
  · apply Or.inr
    cases repeated : Member.repeated? [] members with
    | some id =>
      simp only [List.map_nil, repeated] at filled
      apply known.meets_error
      · simp only [TableIndex.perform, replaced, filled, Except.map, commit]
        rfl
      · simp only [Catalogue.perform, repeated]
    | none =>
      simp only [List.map_nil, repeated, List.nil_append, Catalogue.insert_insert] at filled
      obtain ⟨t', done, known'⟩ := filled
      apply meets_ok
      · simp only [TableIndex.perform, replaced, done, Except.map, commit]
        rfl
      · simp only [Catalogue.perform, repeated]
        rfl
      · exact known'

theorem Shows.sorted (known : t.Shows last held) (fits : held.Fits (fun m => m.addedAt.IsWhole) last)
    {rows : List IndexEntry} (found : held[c]? = some rows) (order : SortOrder) :
    t.sorted c order = (order.arrange rows).map TableRow.ofEntry := by
  have listed : t.rowsOf c = rows.map TableRow.ofEntry := by
    rw [known.listed, found]
    rfl
  cases order with
  | insertion => exact listed
  | newestFirst =>
    rw [TableIndex.sorted, listed]
    apply Eq.symm
    apply List.map_mergeSort
    intro a memA b memB
    exact (TableRow.newer_ofEntry (fits c rows found a memA).member (fits c rows found b memB).member).symm
  | memberId =>
    rw [TableIndex.sorted, listed]
    apply Eq.symm
    apply List.map_mergeSort
    intro a _ b _
    rfl

theorem Shows.select (known : t.Shows last held) (fits : held.Fits (fun m => m.addedAt.IsWhole) last) (c : String)
    (query : IndexQuery) : t.perform (.select c query) = ((held.perform last (.select c query)).1, t) := by
  apply congrArg (fun answer => (answer, t))
  apply known.ask
  intro rows found
  have types : TableRow.hasType query.memberType ∘ TableRow.ofEntry = query.accepts := by
    funext e
    exact TableRow.hasType_ofEntry query.memberType e
  rw [known.sorted fits found, List.filter_map, types, IndexQuery.window_map]
  apply TableRow.mapM_decode
  intro e mem
  exact (fits c rows found e (query.mem_of_mem_answer mem)).member

theorem Shows.selectAfter (known : t.Shows last held) (fits : held.Fits (fun m => m.addedAt.IsWhole) last)
    (c : String) (after limit : Nat) (type : Option MemberType) :
    t.perform (.selectAfter c after limit type) =
      ((held.perform last (.selectAfter c after limit type)).1, t) := by
  apply congrArg (fun answer => (answer, t))
  apply known.ask
  intro rows found
  have wanted : (fun row => decide ((after : Int) < row.seq) && row.hasType type) ∘ TableRow.ofEntry =
      fun e => decide (after < e.seq) && typePasses type e.type := by
    funext e
    simp only [Function.comp, TableRow.hasType_ofEntry]
    simp [TableRow.ofEntry]
  rw [known.listed, found, Option.getD_some, List.filter_map, wanted, ← List.map_take]
  apply TableRow.mapM_decode
  intro e mem
  exact (fits c rows found e (List.mem_filter.1 (List.mem_of_mem_take mem)).1).member

theorem Shows.count (known : t.Shows last held) (c : String) (type : Option MemberType) :
    t.perform (.count c type) = ((held.perform last (.count c type)).1, t) := by
  apply congrArg (fun answer => (answer, t))
  apply known.ask
  intro rows found
  rw [known.listed, found, Option.getD_some, List.countP_map]
  apply congrArg Except.ok
  apply List.countP_congr
  intro e _
  rw [Function.comp, TableRow.hasType_ofEntry]

theorem Shows.partitions_toList (known : t.Shows last held) : t.partitions.toList = held.keys := by
  apply eq_of_ordered id t.partitions.ordered_toList held.ordered_keys
  intro c
  rw [Std.ExtTreeSet.mem_toList, Std.ExtTreeMap.mem_keys, ← Std.ExtTreeSet.contains_iff_mem,
    ← Std.ExtTreeMap.contains_iff_mem, known.partition]

/-- The table answers as the catalogue that it shows does and is changed alike, unless it has no number left. -/
theorem Shows.perform (known : t.Shows last held) (fits : held.Fits (fun m => m.addedAt.IsWhole) last)
    {call : IndexCall} (whole : ∀ m ∈ call.members, m.addedAt.IsWhole) :
    t.Exhausts last call ∨ t.Meets last held call := by
  cases call with
  | insert c m => exact known.insert c (whole m (List.mem_singleton.2 rfl))
  | replacePartition c members => exact known.replacePartition c whole
  | createPartition c => exact .inr (known.createPartition c)
  | dropPartition c => exact .inr (known.dropPartition c)
  | remove c id => exact .inr (known.remove c id)
  | hasPartition c =>
    apply Or.inr (known.meets_question _ rfl rfl)
    exact congrArg (fun answer => (Except.ok answer, t)) (known.partition c)
  | partitions =>
    apply Or.inr (known.meets_question _ rfl rfl)
    exact congrArg (fun answer => (Except.ok answer, t)) known.partitions_toList
  | contains c id =>
    apply Or.inr (known.meets_question _ rfl rfl)
    exact congrArg (fun answer => (Except.ok answer, t)) (known.hasRow c id)
  | count c type => exact .inr (known.meets_question (known.count c type) rfl rfl)
  | select c query => exact .inr (known.meets_question (known.select fits c query) rfl rfl)
  | selectAfter c after limit type =>
    exact .inr (known.meets_question (known.selectAfter fits c after limit type) rfl rfl)

end TableIndex

end Containment
