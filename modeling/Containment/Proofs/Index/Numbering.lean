/-
Module: Containment.Proofs.Index.Numbering
Purpose: The numbers that the index in memory gives to rows. It draws them one after the other, also for rows that a failed
  request never writes, and draws none twice; so no two rows of the whole index share a number. In each partition the rows
  by number and the numbers by member are inverse to each other.
Main exports: MemoryIndex.draws, MemoryIndex.drawnBy, Partition.Inverse, MemoryIndex.Numbered,
  MemoryIndex.Numbered.perform, MemoryIndex.numbers_used_once
-/
import Containment.Proofs.Index.MemoryCatalogue

namespace Containment

/-- The two maps of a partition are inverse to each other: a member is noted under a number just if the row of that number
is the member's, knows its number and belongs to the container; and every row is noted. -/
structure Partition.Inverse (p : Partition) (container : String) : Prop where
  noted : ∀ id n, p.seqOf[id]? = some n ↔
    ∃ row : IndexEntry, p.rows[n]? = some row ∧ row.memberId = id ∧ row.seq = n ∧ row.containerId = container
  listed : ∀ n (row : IndexEntry), p.rows[n]? = some row → p.seqOf[row.memberId]? = some n

theorem Partition.WellFormed.inverse {p : Partition} {container : String} {last : Nat}
    (wf : p.WellFormed container last) : p.Inverse container := by
  constructor
  · intro id n
    rw [wf.noted]
    constructor
    · rintro ⟨row, there, named⟩
      obtain ⟨number, -, own⟩ := wf.row n row there
      exact ⟨row, there, named, number, own⟩
    · rintro ⟨row, there, named, -⟩
      exact ⟨row, there, named⟩
  · intro n row there
    exact (wf.noted row.memberId n).2 ⟨row, there, rfl⟩

namespace MemoryIndex

/-- The numbers drawn while the members of a new partition are numbered, also when a repeated member ends it. -/
def fillDraws (container : String) : List Member → Partition → MemoryIndex → List Nat
  | [], _, _ => []
  | m :: rest, p, ix =>
    if p.seqOf.contains m.id then []
    else
      let entry := ix.nextEntry container m
      entry.seq :: fillDraws container rest (p.add entry) { ix with lastSeq := entry.seq }

/-- The numbers that a request draws, in order, whether it succeeds or not. -/
def draws (ix : MemoryIndex) : IndexCall → List Nat
  | .insert c m =>
    match (ix.insert c m).1 with
    | .ok row => [row.seq]
    | .error _ => []
  | .replacePartition c members => fillDraws c members {} ix
  | _ => []

/-- The numbers drawn by requests one after the other. -/
def drawnBy : MemoryIndex → List IndexCall → List Nat
  | _, [] => []
  | ix, call :: rest => ix.draws call ++ (ix.perform call).2.drawnBy rest

/-- The index after requests one after the other. -/
def after (ix : MemoryIndex) (calls : List IndexCall) : MemoryIndex :=
  calls.foldl (fun ix call => (ix.perform call).2) ix

/-- No number stands in two partitions. -/
def Apart (ix : MemoryIndex) : Prop :=
  ∀ (c d : String) (p q : Partition) (n : Nat), ix.partitions[c]? = some p → ix.partitions[d]? = some q →
    n ∈ p.rows → n ∈ q.rows → c = d

/-- The index is in order, no number stands in two partitions, and these numbers have been drawn so far, each once. -/
structure Numbered (drawn : List Nat) (ix : MemoryIndex) : Prop where
  wellFormed : ix.WellFormed
  apart : ix.Apart
  counted : drawn = List.range' 1 ix.lastSeq

variable {ix : MemoryIndex} {c : String} {drawn : List Nat}

/-! ### The numbers drawn -/

theorem range'_one_succ (n : Nat) : List.range' 1 n ++ [n + 1] = List.range' 1 (n + 1) := by
  rw [List.range'_1_concat, Nat.add_comm 1 n]

/-- Numbering members draws the numbers that follow. -/
theorem range'_append_fillDraws (ix : MemoryIndex) (members : List Member) (p : Partition) :
    List.range' 1 ix.lastSeq ++ fillDraws c members p ix = List.range' 1 (fill c members p ix).2.lastSeq := by
  induction members generalizing p ix with
  | nil => exact List.append_nil _
  | cons m rest ih =>
    rw [fillDraws, fill]
    split
    · exact List.append_nil _
    · have next := ih { ix with lastSeq := ix.lastSeq + 1 } (p.add (ix.nextEntry c m))
      rw [← range'_one_succ, List.append_assoc] at next
      exact next

/-- Each request draws the numbers that follow those drawn before. -/
theorem range'_append_draws (ix : MemoryIndex) (call : IndexCall) :
    List.range' 1 ix.lastSeq ++ ix.draws call = List.range' 1 (ix.perform call).2.lastSeq := by
  cases call with
  | insert c m =>
    simp only [draws, MemoryIndex.perform]
    rcases ix.insert_cases c m with ⟨e, refused⟩ | ⟨p, -, -, done⟩
    · rw [refused]
      exact List.append_nil _
    · rw [done]
      exact range'_one_succ ix.lastSeq
  | replacePartition c members =>
    have filled := range'_append_fillDraws (c := c) ix members {}
    simp only [draws, MemoryIndex.perform, MemoryIndex.replacePartition]
    rw [filled]
    rcases fill c members {} ix with ⟨e | q, ix'⟩ <;> rfl
  | createPartition c =>
    simp only [draws, MemoryIndex.perform, List.append_nil]
    rcases ix.createPartition_cases c with ⟨-, refused⟩ | ⟨-, done⟩
    · rw [refused]
    · rw [done]
      rfl
  | remove c id =>
    simp only [draws, MemoryIndex.perform, List.append_nil]
    rcases ix.remove_cases c id with ⟨-, refused⟩ | ⟨p, -, done⟩
    · rw [refused]
    · rw [done]
      rfl
  | dropPartition | hasPartition | partitions | contains | count | select | selectAfter => exact List.append_nil _

/-! ### Numbers stand in one partition only -/

theorem apart_empty : ({} : MemoryIndex).Apart := by
  intro c d p q n found
  simp at found

/-- A partition is written whose numbers it had before or nobody had. -/
theorem Apart.write (apart : ix.Apart) (wf : ix.WellFormed) {q : Partition} {last : Nat}
    (own : ∀ n ∈ q.rows, (∃ p, ix.partitions[c]? = some p ∧ n ∈ p.rows) ∨ ix.lastSeq < n) :
    Apart { partitions := ix.partitions.insert c q, lastSeq := last } := by
  -- The written partition shares no number with any other one.
  have alone : ∀ d p n, ix.partitions[d]? = some p → n ∈ p.rows → n ∈ q.rows → c = d := by
    intro d p n found there mem
    rcases own n mem with ⟨p', found', there'⟩ | new
    · exact apart c d p' p n found' found there' there
    · have bound := (wf d p found).row n p.rows[n] (Std.ExtTreeMap.getElem?_eq_some_getElem there)
      omega
  intro d d' p p' n found found' there there'
  rw [Std.ExtTreeMap.getElem?_insert] at found found'
  split at found
  · rename_i here
    have here : c = d := Std.LawfulEqCmp.compare_eq_iff_eq.1 here
    subst here
    cases found
    split at found'
    · rename_i here'
      exact Std.LawfulEqCmp.compare_eq_iff_eq.1 here'
    · exact alone d' p' n found' there' there
  · split at found'
    · rename_i here'
      have here' : c = d' := Std.LawfulEqCmp.compare_eq_iff_eq.1 here'
      subst here'
      cases found'
      exact (alone d p n found there there').symm
    · exact apart d d' p p' n found found' there there'

theorem Apart.erase (apart : ix.Apart) (c : String) : Apart { ix with partitions := ix.partitions.erase c } := by
  intro d d' p p' n found found'
  rw [Std.ExtTreeMap.getElem?_erase] at found found'
  split at found
  · cases found
  · split at found'
    · cases found'
    · exact apart d d' p p' n found found'

/-- The rows of a replaced partition stand under numbers that nobody had. -/
theorem lt_of_mem_replaced {members : List Member} {q : Partition} {last : Nat} (own : q.WellFormed c last)
    (replaced : ix.replacePartition c members =
      (.ok (), { partitions := ix.partitions.insert c q, lastSeq := last })) : ∀ n ∈ q.rows, ix.lastSeq < n := by
  intro n mem
  have there := Std.ExtTreeMap.getElem?_eq_some_getElem mem
  have number := (own.row n _ there).1
  rw [← number]
  exact lt_seq_of_replacePartition replaced _ (own.mem_entries.2 (number.symm ▸ there))

/-- No request gives one number to two partitions. -/
theorem Apart.perform (apart : ix.Apart) (wf : ix.WellFormed) (call : IndexCall) : (ix.perform call).2.Apart := by
  cases call with
  | createPartition c =>
    simp only [MemoryIndex.perform]
    rcases ix.createPartition_cases c with ⟨-, refused⟩ | ⟨-, done⟩
    · rw [refused]
      exact apart
    · rw [done]
      exact apart.write wf fun n mem => absurd mem Std.ExtTreeMap.not_mem_empty
  | dropPartition c => exact apart.erase c
  | insert c m =>
    simp only [MemoryIndex.perform]
    rcases ix.insert_cases c m with ⟨e, refused⟩ | ⟨p, found, -, done⟩
    · rw [refused]
      exact apart
    · rw [done]
      apply apart.write wf
      intro n mem
      rcases Std.ExtTreeMap.mem_insert.1 mem with new | old
      · right
        rw [← Std.LawfulEqCmp.compare_eq_iff_eq.1 new]
        exact Nat.lt_succ_self ix.lastSeq
      · exact .inl ⟨p, found, old⟩
  | remove c id =>
    simp only [MemoryIndex.perform]
    rcases ix.remove_cases c id with ⟨-, refused⟩ | ⟨p, found, done⟩
    · rw [refused]
      exact apart
    · rw [done]
      apply apart.write wf
      intro n mem
      refine .inl ⟨p, found, ?_⟩
      simp only [Partition.remove] at mem
      split at mem
      · exact mem
      · exact (Std.ExtTreeMap.mem_erase.1 mem).2
  | replacePartition c members =>
    simp only [MemoryIndex.perform]
    rcases ix.replacePartition_cases c members with ⟨e, last, -, refused⟩ | ⟨q, last, -, done, own, -⟩
    · rw [refused]
      exact apart
    · rw [done]
      exact apart.write wf fun n mem => .inr (lt_of_mem_replaced own done n mem)
  | hasPartition | partitions | contains | count | select | selectAfter => exact apart

/-! ### Whole runs -/

theorem numbered_empty : Numbered [] {} :=
  ⟨wellFormed_empty, apart_empty, rfl⟩

/-- One request. -/
theorem Numbered.perform (numbered : ix.Numbered drawn) (call : IndexCall) :
    (ix.perform call).2.Numbered (drawn ++ ix.draws call) :=
  ⟨perform_wellFormed numbered.wellFormed call, numbered.apart.perform numbered.wellFormed call,
    numbered.counted ▸ ix.range'_append_draws call⟩

/-- Requests one after the other. -/
theorem Numbered.after (numbered : ix.Numbered drawn) (calls : List IndexCall) :
    (ix.after calls).Numbered (drawn ++ ix.drawnBy calls) := by
  induction calls generalizing ix drawn with
  | nil => exact (List.append_nil drawn).symm ▸ numbered
  | cons call rest ih =>
    have later := ih (numbered.perform call)
    rwa [List.append_assoc] at later

/-- What was drawn is no larger than the last number. -/
theorem Numbered.le_lastSeq (numbered : ix.Numbered drawn) : ∀ n ∈ drawn, n ≤ ix.lastSeq := by
  intro n mem
  rw [numbered.counted, List.mem_range'_1] at mem
  omega

/-- Two rows with one number are one row of one partition. -/
theorem Numbered.eq_of_seq (numbered : ix.Numbered drawn) {c d : String} {p q : Partition} {row other : IndexEntry}
    (found : ix.partitions[c]? = some p) (found' : ix.partitions[d]? = some q) (there : row ∈ p.entries)
    (there' : other ∈ q.entries) (same : row.seq = other.seq) : c = d ∧ row = other := by
  have here := (numbered.wellFormed c p found).mem_entries.1 there
  have here' := (numbered.wellFormed d q found').mem_entries.1 there'
  rw [← same] at here'
  have together := numbered.apart c d p q row.seq found found'
    (Std.ExtTreeMap.mem_iff_isSome_getElem?.2 (Option.isSome_of_mem here))
    (Std.ExtTreeMap.mem_iff_isSome_getElem?.2 (Option.isSome_of_mem here'))
  subst together
  rw [found] at found'
  cases found'
  exact ⟨rfl, Option.some.inj (here.symm.trans here')⟩

/-- A row that is inserted stands under a number above all drawn so far. -/
theorem Numbered.inserted (numbered : ix.Numbered drawn) {m : Member} {row : IndexEntry}
    (granted : (ix.perform (.insert c m)).1 = .ok row) :
    (∀ n ∈ drawn, n < row.seq) ∧
      ∃ p, (ix.perform (.insert c m)).2.partitions[c]? = some p ∧ p.rows[row.seq]? = some row := by
  simp only [MemoryIndex.perform] at granted ⊢
  rcases ix.insert_cases c m with ⟨e, refused⟩ | ⟨p, -, -, done⟩
  · rw [refused] at granted
    cases granted
  · rw [done] at granted ⊢
    cases granted
    exact ⟨fun n mem => Nat.lt_succ_of_le (numbered.le_lastSeq n mem), p.add (ix.nextEntry c m),
      Std.ExtTreeMap.getElem?_insert_self, Std.ExtTreeMap.getElem?_insert_self⟩

/-- So do all rows of a partition that is replaced, one above the other in the order of the members. -/
theorem Numbered.replaced (numbered : ix.Numbered drawn) {members : List Member}
    (granted : (ix.perform (.replacePartition c members)).1 = .ok ()) :
    ∃ p, (ix.perform (.replacePartition c members)).2.partitions[c]? = some p ∧ p.members = members ∧
      (p.entries.Pairwise fun a b => a.seq < b.seq) ∧ ∀ row ∈ p.entries, ∀ n ∈ drawn, n < row.seq := by
  simp only [MemoryIndex.perform] at granted ⊢
  rcases ix.replacePartition_cases c members with ⟨e, last, -, refused⟩ | ⟨q, last, -, done, own, listed⟩
  · rw [refused] at granted
    cases granted
  · rw [done]
    refine ⟨q, Std.ExtTreeMap.getElem?_insert_self, listed, own.entries_sorted, fun row there n mem => ?_⟩
    exact (numbered.le_lastSeq n mem).trans_lt (lt_seq_of_replacePartition done row there)

/-- **Numbers of rows are used once.** Ask an empty index in memory anything, any number of times, whether it is granted or
refused. The numbers drawn so far are one, two, three and so on, so fewer than `2 ^ 64` draws never leave 64 bits. In each
partition the rows by number and the numbers by member are inverse to each other, and no two rows of the index have one
number. Whatever is asked next, a row that is inserted has a number above all drawn so far, and so have all rows of a
partition that is replaced, which list the members in order under increasing numbers; and a request that is refused leaves
every partition as it was. -/
theorem numbers_used_once (calls : List IndexCall) :
    let ix := after {} calls
    let drawn := drawnBy {} calls
    drawn = List.range' 1 drawn.length ∧
      (∀ (c : String) (p : Partition), ix.partitions[c]? = some p → p.Inverse c) ∧
      (∀ (c d : String) (p q : Partition) (row other : IndexEntry), ix.partitions[c]? = some p →
        ix.partitions[d]? = some q → row ∈ p.entries → other ∈ q.entries → row.seq = other.seq →
          c = d ∧ row = other) ∧
      (∀ c m row, (ix.perform (.insert c m)).1 = .ok row → (∀ n ∈ drawn, n < row.seq) ∧
        ∃ p, (ix.perform (.insert c m)).2.partitions[c]? = some p ∧ p.rows[row.seq]? = some row) ∧
      (∀ c members, (ix.perform (.replacePartition c members)).1 = .ok () →
        ∃ p, (ix.perform (.replacePartition c members)).2.partitions[c]? = some p ∧ p.members = members ∧
          (p.entries.Pairwise fun a b => a.seq < b.seq) ∧ ∀ row ∈ p.entries, ∀ n ∈ drawn, n < row.seq) ∧
      ∀ call e, (ix.perform call).1 = .error e → (ix.perform call).2.partitions = ix.partitions := by
  intro ix drawn
  have numbered : ix.Numbered drawn := numbered_empty.after calls
  refine ⟨?_, fun c p found => (numbered.wellFormed c p found).inverse, fun c d p q row other => numbered.eq_of_seq,
    fun c m row => numbered.inserted, fun c members => numbered.replaced, fun call e => partitions_of_error⟩
  rw [numbered.counted, List.length_range']

/-- The replacement fails at the member that comes again, and the numbers drawn until then are not drawn again. -/
example :
    let row : String → Member := fun id => { id, type := .resource, addedAt := .epoch }
    drawnBy {} [.createPartition "a", .replacePartition "a" [row "x", row "y", row "x"], .insert "a" (row "z")] =
      [1, 2, 3] := by
  decide +kernel

end MemoryIndex

end Containment
