/-
Module: Containment.Proofs.Index.Damage
Purpose: Tables as anyone may leave them who can write to the database. Only what the tables themselves enforce is taken for
  granted, so that there may be rows of the wrong members, rows in the wrong order, and rows that stand for no entry at
  all. Reading a partition fails at its first row of that sort. Replacing or dropping a partition reads no row that was
  there before, and puts its container right.
Main exports: TableRow.mapM_decode_cases, TableIndex.Numbered, TableIndex.Permitted, TableIndex.Carries,
  TableIndex.Rewritten, TableIndex.Numbered.exists_replacePartition
-/
import Containment.Proofs.Index.Alongside

namespace Containment

open Time

/-! ### What rows stand for -/

namespace TableRow

/-- The row stands for an entry. -/
def Stands (row : TableRow) : Prop :=
  row.decode.isOk = true

instance (row : TableRow) : Decidable row.Stands :=
  inferInstanceAs (Decidable (_ = true))

variable {row : TableRow} {rows : List TableRow} {entry : IndexEntry} {entries : List IndexEntry}

/-- What stands for no entry is corrupt. -/
theorem decode_cases (row : TableRow) :
    (∃ fault, row.decode = .error (.corrupt fault)) ∨
      ∃ entry : IndexEntry, row.decode = .ok entry ∧ entry.memberId = row.memberId ∧ (entry.seq : Int) = row.seq := by
  cases kind : MemberType.parse row.memberType with
  | error fault =>
    refine .inl ⟨.unknownMemberType row.seq fault, ?_⟩
    simp only [decode, kind]
    rfl
  | ok type =>
    cases time : Instant.ofMillis? row.insertedAtMs with
    | none =>
      refine .inl ⟨.badTimestamp row.seq row.insertedAtMs, ?_⟩
      simp only [decode, kind, time]
      rfl
    | some insertedAt =>
      by_cases negative : row.seq < 0
      · refine .inl ⟨.negativeSeq row.seq, ?_⟩
        simp only [decode, kind, time, if_pos negative]
        rfl
      · let entry : IndexEntry :=
          { containerId := row.containerId, memberId := row.memberId, type, insertedAt, seq := row.seq.toNat }
        refine .inr ⟨entry, ?_, rfl, Int.toNat_of_nonneg (Int.not_lt.1 negative)⟩
        simp only [decode, kind, time, if_neg negative]
        rfl

/-- Rows are read one after the other, and the first one that stands for no entry ends it. -/
theorem mapM_decode_cases (rows : List TableRow) :
    (∃ row ∈ rows, ∃ fault, row.decode = .error (.corrupt fault) ∧ rows.mapM decode = .error (.corrupt fault)) ∨
      (∀ row ∈ rows, row.Stands) ∧ ∃ entries : List IndexEntry, rows.mapM decode = .ok entries ∧
        entries.map IndexEntry.memberId = rows.map TableRow.memberId ∧
        entries.map (fun e => (e.seq : Int)) = rows.map TableRow.seq := by
  induction rows with
  | nil => exact .inr ⟨List.forall_mem_nil _, [], rfl, rfl, rfl⟩
  | cons row rest ih =>
    rw [List.mapM_cons]
    rcases row.decode_cases with ⟨fault, failed⟩ | ⟨entry, decoded, member, number⟩
    · refine .inl ⟨row, List.mem_cons_self, fault, failed, ?_⟩
      rw [failed]
      rfl
    · rw [decoded]
      have stands : row.Stands := by
        rw [Stands, decoded]
        rfl
      rcases ih with ⟨bad, mem, fault, failed, ended⟩ | ⟨others, entries, read, members, numbers⟩
      · refine .inl ⟨bad, List.mem_cons_of_mem row mem, fault, failed, ?_⟩
        rw [ended]
        rfl
      · refine .inr ⟨List.forall_mem_cons.2 ⟨stands, others⟩, entry :: entries, ?_, ?_, ?_⟩
        · rw [read]
          rfl
        · rw [List.map_cons, List.map_cons, member, members]
        · rw [List.map_cons, List.map_cons, number, numbers]

end TableRow

/-- A row can tell the time of the member: counted in milliseconds it is in the supported range. For a leap second at the
very end of the range it is not. -/
def Member.IsTellable (m : Member) : Prop :=
  (Instant.ofMillis? m.addedAt.toMillis).isSome

instance (m : Member) : Decidable m.IsTellable :=
  inferInstanceAs (Decidable (_ = true))

namespace TableIndex

/-- Every row stands under its own number, and no number is above `last`. -/
structure Numbered (t : TableIndex) (last : Nat) : Prop where
  counted : 0 ≤ t.lastSeq ∧ t.lastSeq ≤ last
  row : ∀ (n : Int) (row : TableRow), t.rows[n]? = some row → row.seq = n ∧ n ≤ last

/-- All that the tables themselves enforce: no number has two rows, no member of a container has two rows, and there are
rows only of containers with a partition. What a row says of the kind and the time of its member is up to whoever
wrote it. -/
structure Permitted (t : TableIndex) (last : Nat) : Prop extends t.Numbered last where
  unique : ∀ c, ((t.rowsOf c).map TableRow.memberId).Nodup
  housed : ∀ c, t.rowsOf c ≠ [] → t.partitions.contains c = true

/-- The container has a partition with entries for these members and nothing else, or has none. The entries have the
times of the members in whole milliseconds. -/
def Carries (t : TableIndex) (c : String) : Option (List Member) → Prop
  | none => t.partitions.contains c = false
  | some members => t.partitions.contains c = true ∧ ∃ entries : List IndexEntry,
      t.rowsOf c = entries.map TableRow.ofEntry ∧ (∀ e ∈ entries, e.insertedAt.IsWhole) ∧
        entries.map IndexEntry.toMember = members.map Member.floored

/-- Some containers carry what they are meant to, and the others have what they had before. -/
structure Rewritten (t : TableIndex) (lists : Listing) (done : List String) (t' : TableIndex) : Prop where
  carries : ∀ c ∈ done, t'.Carries c (lists c)
  partitions : ∀ c ∉ done, t'.partitions.contains c = t.partitions.contains c
  rows : ∀ c ∉ done, t'.rowsOf c = t.rowsOf c

variable {t t₁ t' : TableIndex} {last : Nat} {lists : Listing} {c : String} {m : Member} {members : List Member}

theorem Carries.congr {listed : Option (List Member)} (carries : t.Carries c listed)
    (partitions : t'.partitions.contains c = t.partitions.contains c) (rows : t'.rowsOf c = t.rowsOf c) :
    t'.Carries c listed := by
  cases listed with
  | none => exact partitions.trans carries
  | some members =>
    obtain ⟨there, entries, held, repeated⟩ := carries
    exact ⟨partitions.trans there, entries, rows.trans held, repeated⟩

theorem Rewritten.refl (t : TableIndex) (lists : Listing) : t.Rewritten lists [] t := by
  constructor
  · intro c impossible
    cases impossible
  · intro c _
    rfl
  · intro c _
    rfl

/-- One more container, before the others. -/
theorem Rewritten.cons {rest : List String} (first : t.Rewritten lists [c] t₁) (others : t₁.Rewritten lists rest t') :
    t.Rewritten lists (c :: rest) t' := by
  have outside : ∀ d ∉ c :: rest, d ∉ rest ∧ d ∉ [c] := by
    intro d outside
    exact ⟨fun mem => outside (List.mem_cons_of_mem c mem),
      fun mem => outside (List.mem_singleton.1 mem ▸ List.mem_cons_self)⟩
  constructor
  · intro d mem
    by_cases there : d ∈ rest
    · exact others.carries d there
    · have same : d = c := (List.mem_cons.1 mem).resolve_right there
      subst same
      exact (first.carries d List.mem_cons_self).congr (others.partitions d there) (others.rows d there)
  · intro d missing
    obtain ⟨there, here⟩ := outside d missing
    rw [others.partitions d there, first.partitions d here]
  · intro d missing
    obtain ⟨there, here⟩ := outside d missing
    rw [others.rows d there, first.rows d here]

/-! ### Numbers -/

theorem lt_nextSeq {n : Int} {row : TableRow} (found : t.rows[n]? = some row) : n < t.nextSeq := by
  have mem : n ∈ t.rows := by
    rw [Std.ExtTreeMap.mem_iff_isSome_getElem?, found]
    rfl
  cases key : t.rows.maxKey? with
  | none =>
    rw [Std.ExtTreeMap.maxKey?_eq_none_iff] at key
    rw [key] at mem
    exact absurd mem Std.ExtTreeMap.not_mem_empty
  | some k =>
    have le := (Std.ExtTreeMap.maxKey?_eq_some_iff_mem_and_forall.1 key).2 n mem
    have below : n ≤ k := Std.isLE_compare.1 le
    rw [nextSeq, key, Option.getD_some]
    omega

theorem Numbered.exists_nextSeq (numbered : t.Numbered last) : ∃ n : Nat, t.nextSeq = n ∧ n ≤ last + 1 := by
  have highest := maxKey_le fun n row found => (numbered.row n row found).2
  obtain ⟨positive, le⟩ := numbered.counted
  refine ⟨t.nextSeq.toNat, ?_, ?_⟩
  · rw [nextSeq]
    omega
  · rw [nextSeq]
    omega

/-- The rows of a container come in the order of their numbers. -/
theorem Numbered.ordered (numbered : t.Numbered last) (c : String) :
    (t.rowsOf c).Pairwise fun a b => a.seq < b.seq := by
  have all : t.rows.values.Pairwise fun a b => a.seq < b.seq := by
    rw [values_eq_map_snd_toList, List.pairwise_map]
    apply t.rows.ordered_keys_toList.imp_of_mem
    intro a b memA memB less
    have ownA := (numbered.row a.1 a.2 (Std.ExtTreeMap.mem_toList_iff_getElem?_eq_some.1 memA)).1
    have ownB := (numbered.row b.1 b.2 (Std.ExtTreeMap.mem_toList_iff_getElem?_eq_some.1 memB)).1
    rw [ownA, ownB]
    exact compare_lt_iff_lt.1 less
  exact all.sublist List.filter_sublist

theorem Numbered.dropRows (numbered : t.Numbered last) (condition : TableRow → Bool)
    (partitions : Std.ExtTreeSet String) : Numbered { t.dropRows condition with partitions } last := by
  constructor
  · exact numbered.counted
  · intro n row there
    rw [TableIndex.dropRows, Std.ExtTreeMap.getElem?_filter', Option.filter_eq_some_iff] at there
    exact numbered.row n row there.1

/-- A table without the rows of one container still has those of the others. -/
theorem rowsOf_cleared (t : TableIndex) (partitions : Std.ExtTreeSet String) (c d : String) :
    rowsOf { t.dropRows (·.containerId == c) with partitions } d = if c = d then [] else t.rowsOf d := by
  change (t.dropRows _).rowsOf d = _
  rw [rowsOf_dropRows]
  have own : ∀ row ∈ t.rowsOf d, row.containerId = d := fun row mem => eq_of_beq (List.mem_filter.1 mem).2
  split
  · rename_i same
    apply List.filter_eq_nil_iff.2
    intro row mem
    simp [own row mem, same]
  · rename_i different
    apply List.filter_eq_self.2
    intro row mem
    simp [own row mem, Ne.symm different]

/-! ### Rows that are added -/

theorem Numbered.grown (numbered : t.Numbered last) {entry : IndexEntry} (number : t.nextSeq = entry.seq) :
    (t.grown entry).Numbered (last + 1) := by
  obtain ⟨n, next, le⟩ := numbered.exists_nextSeq
  constructor
  · change 0 ≤ (entry.seq : Int) ∧ (entry.seq : Int) ≤ ((last + 1 : Nat) : Int)
    omega
  · intro n row there
    rw [TableIndex.grown, Std.ExtTreeMap.getElem?_insert] at there
    split at there
    · rename_i same
      cases there
      rw [← Std.LawfulEqCmp.compare_eq_iff_eq.1 same]
      refine ⟨rfl, ?_⟩
      omega
    · obtain ⟨own, le⟩ := numbered.row n row there
      exact ⟨own, by omega⟩

/-- A member without a row gets one, if there is a number left and a row can tell its time. -/
theorem Numbered.exists_insertRow (numbered : t.Numbered last) (free : m.id ∉ (t.rowsOf c).map TableRow.memberId)
    (told : m.IsTellable) (room : ((last + 1 : Nat) : Int) ≤ maxSeq) :
    ∃ entry : IndexEntry, t.insertRow c m = .ok (entry, t.grown entry) ∧ t.nextSeq = entry.seq ∧
      entry.containerId = c ∧ entry.insertedAt.IsWhole ∧ entry.toMember = m.floored := by
  obtain ⟨n, next, le⟩ := numbered.exists_nextSeq
  have whole : m.floored.addedAt.IsWhole := Member.isWhole_floored told
  have row : TableRow.ofMember c m.floored t.nextSeq = TableRow.ofEntry (IndexEntry.ofMember c m.floored n) := by
    rw [next]
    rfl
  have decoded : (TableRow.ofEntry (IndexEntry.ofMember c m.floored n)).decode = _ := TableRow.decode_ofEntry whole
  have unlisted : ¬ t.hasRow c m.floored.id = true := by
    intro listed
    obtain ⟨row, mem, same⟩ := List.any_eq_true.1 listed
    exact free (List.mem_map.2 ⟨row, mem, eq_of_beq same⟩)
  have inRange : ¬ maxSeq < t.nextSeq := by omega
  refine ⟨IndexEntry.ofMember c m.floored n, ?_, next, rfl, whole, rfl⟩
  rw [insertRow_floorMillis]
  change t.insertRow c m.floored = _
  simp only [insertRow, row, decoded]
  rw [if_neg unlisted, if_neg inRange]
  rfl

/-- All of some members get rows, in their order and below those that are there. -/
theorem Numbered.exists_insertRows (numbered : t.Numbered last) (distinct : (members.map Member.id).Nodup)
    (free : ∀ m ∈ members, m.id ∉ (t.rowsOf c).map TableRow.memberId)
    (told : ∀ m ∈ members, m.IsTellable)
    (room : ((last + members.length : Nat) : Int) ≤ maxSeq) :
    ∃ (t' : TableIndex) (entries : List IndexEntry), t.insertRows c members = .ok t' ∧
      t'.Numbered (last + members.length) ∧ t'.partitions = t.partitions ∧
      (∀ d, t'.rowsOf d = t.rowsOf d ++ if c = d then entries.map TableRow.ofEntry else []) ∧
      (∀ e ∈ entries, e.insertedAt.IsWhole) ∧ entries.map IndexEntry.toMember = members.map Member.floored := by
  -- By induction on the members. A row that is added takes a number and makes its member known, which costs the others
  -- one number each and nothing else, because no member is listed twice.
  induction members generalizing t last with
  | nil =>
    refine ⟨t, [], rfl, numbered, rfl, fun d => ?_, List.forall_mem_nil _, rfl⟩
    rw [List.map_nil, ite_self, List.append_nil]
  | cons m rest ih =>
    rw [List.length_cons] at room
    obtain ⟨outside, distinct⟩ := List.nodup_cons.1 distinct
    obtain ⟨entry, inserted, number, own, whole, repeated⟩ := numbered.exists_insertRow
      (free m List.mem_cons_self) (told m List.mem_cons_self) (by omega)
    have grown := rowsOf_grown fun k row found => (lt_nextSeq found).trans_eq number
    have one : (t.grown entry).rowsOf c = t.rowsOf c ++ [TableRow.ofEntry entry] := by
      rw [grown, if_pos own]
    have named : entry.memberId = m.id := congrArg Member.id repeated
    have free' : ∀ m' ∈ rest, m'.id ∉ ((t.grown entry).rowsOf c).map TableRow.memberId := by
      intro m' mem listed
      rw [one, List.map_append, List.mem_append] at listed
      rcases listed with before | added
      · exact free m' (List.mem_cons_of_mem m mem) before
      · have same : m'.id = entry.memberId := List.mem_singleton.1 added
        exact outside (named ▸ same ▸ List.mem_map_of_mem mem)
    obtain ⟨t', entries, filled, numbered', partitions, rows, wholes, others⟩ := ih (numbered.grown number) distinct free'
      (fun m' mem => told m' (List.mem_cons_of_mem m mem)) (by omega)
    refine ⟨t', entry :: entries, ?_, ?_, partitions, fun d => ?_, List.forall_mem_cons.2 ⟨whole, wholes⟩, ?_⟩
    · rw [insertRows, inserted]
      exact filled
    · have length : last + (m :: rest).length = last + 1 + rest.length := by
        rw [List.length_cons]
        omega
      rwa [length]
    · rw [rows, grown, own, List.append_assoc]
      split <;> rfl
    · rw [List.map_cons, List.map_cons, repeated, others]

/-! ### The two requests that put a container right -/

/-- Replacing a partition does not read what was in it, and leaves it with the members that are meant. -/
theorem Numbered.exists_replacePartition (numbered : t.Numbered last) (distinct : (members.map Member.id).Nodup)
    (told : ∀ m ∈ members, m.IsTellable)
    (room : ((last + members.length : Nat) : Int) ≤ maxSeq) (meant : lists c = some members) :
    ∃ t' : TableIndex, t.perform (.replacePartition c members) = (.ok (), t') ∧ t'.Numbered (last + members.length) ∧
      t.Rewritten lists [c] t' := by
  have cleared : ∀ d, (t.seeded c).rowsOf d = if c = d then [] else t.rowsOf d := t.rowsOf_cleared _ c
  have free : ∀ m ∈ members, m.id ∉ ((t.seeded c).rowsOf c).map TableRow.memberId := by
    intro m _
    rw [cleared, if_pos rfl]
    exact List.not_mem_nil
  have seeded : (t.seeded c).Numbered last := numbered.dropRows _ _
  obtain ⟨t', entries, filled, numbered', partitions, rows, whole, repeated⟩ :=
    seeded.exists_insertRows distinct free told room
  have replaced : t.replacePartition c members = .ok ((), t') := by
    rw [replacePartition_eq, filled]
    rfl
  refine ⟨t', ?_, numbered', ?_, ?_, ?_⟩
  · simp only [perform, replaced, commit]
  · intro d mem
    rw [List.mem_singleton.1 mem, meant]
    refine ⟨?_, entries, ?_, whole, repeated⟩
    · rw [partitions]
      exact Std.ExtTreeSet.contains_insert_self
    · rw [rows, cleared, if_pos rfl, if_pos rfl, List.nil_append]
  · intro d outside
    have different : ¬ c = d := fun same => outside (List.mem_singleton.2 same.symm)
    rw [partitions]
    change (t.partitions.insert c).contains d = _
    rw [Std.ExtTreeSet.contains_insert]
    simp [different]
  · intro d outside
    have different : ¬ c = d := fun same => outside (List.mem_singleton.2 same.symm)
    rw [rows, cleared, if_neg different, if_neg different, List.append_nil]

theorem exists_insertRows_error (t : TableIndex) (c : String)
    (far : ∃ m ∈ members, ¬ m.IsTellable) : ∃ e, t.insertRows c members = .error e := by
  induction members generalizing t with
  | nil =>
    obtain ⟨m, impossible, -⟩ := far
    cases impossible
  | cons m rest ih =>
    rw [insertRows]
    cases inserted : t.insertRow c m with
    | error e => exact ⟨e, rfl⟩
    | ok added =>
      obtain ⟨m', mem, far⟩ := far
      rcases List.mem_cons.1 mem with rfl | mem
      · obtain ⟨e, refused⟩ := t.insertRow_of_out_of_range c (Option.not_isSome_iff_eq_none.1 far)
        rw [refused] at inserted
        cases inserted
      · exact ih added.2 ⟨m', mem, far⟩

/-- It is refused if a member has a time that no row can tell, and the table is then as before. -/
theorem exists_replacePartition_error (t : TableIndex) (c : String)
    (far : ∃ m ∈ members, ¬ m.IsTellable) :
    ∃ e, t.perform (.replacePartition c members) = (.error e, t) := by
  obtain ⟨e, refused⟩ := (t.seeded c).exists_insertRows_error c far
  have failed : t.replacePartition c members = .error e := by
    rw [replacePartition_eq, refused]
    rfl
  exact ⟨e, by simp only [perform, failed, commit]⟩

/-- Dropping a partition does not read it either, and leaves none. -/
theorem Numbered.exists_dropPartition (numbered : t.Numbered last) (there : t.partitions.contains c = true)
    (meant : lists c = none) :
    ∃ t' : TableIndex, t.perform (.dropPartition c) = (.ok true, t') ∧ t'.Numbered last ∧ t.Rewritten lists [c] t' := by
  refine ⟨{ t.dropRows (·.containerId == c) with partitions := t.partitions.erase c }, ?_, numbered.dropRows _ _,
    ?_, ?_, ?_⟩
  · simp only [perform, there]
  · intro d mem
    rw [List.mem_singleton.1 mem, meant]
    change (t.partitions.erase c).contains c = false
    rw [Std.ExtTreeSet.contains_erase]
    simp
  · intro d outside
    have different : ¬ c = d := fun same => outside (List.mem_singleton.2 same.symm)
    change (t.partitions.erase c).contains d = _
    rw [Std.ExtTreeSet.contains_erase]
    simp [different]
  · intro d outside
    rw [rowsOf_cleared, if_neg fun same => outside (List.mem_singleton.2 same.symm)]

end TableIndex

end Containment
