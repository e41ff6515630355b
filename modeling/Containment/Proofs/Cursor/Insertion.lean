/-
Module: Containment.Proofs.Cursor.Insertion
Purpose: A cursor in insertion order among changes. Whatever is inserted into the partition and removed from it
  between two batches, a drain yields rows in the order of their numbers, each of them there when its batch was
  read, and misses no row that was there all along. The invariant is the list of rows still ahead of a cursor: a
  batch takes its front, and what it leaves stays ahead of the cursor in whatever the partition becomes.
Main exports: Cursor.Change, Cursor.Sighting, Cursor.watch, Cursor.ahead, Cursor.Flows.mem_batch_or_ahead,
  Cursor.Flows.next, Cursor.Flows.watch, Cursor.watch_insertion
-/
import Containment.Proofs.Cursor.Batches

namespace Containment

namespace Cursor

/-! ### A drain that is watched -/

/-- A change of a partition that someone makes beside a cursor. -/
inductive Change where
  | insert (member : Member)
  | remove (memberId : String)
deriving Repr, DecidableEq

/-- The request that makes the change. -/
def Change.call (container : String) : Change → IndexCall
  | insert member => .insert container member
  | remove memberId => .remove container memberId

/-- What is seen of a batch: the cursor that asked for it, the rows that the partition had, and the rows that
the cursor yielded. -/
structure Sighting where
  cursor : Cursor
  rows : List IndexEntry
  batch : List IndexEntry
deriving Repr, DecidableEq

/-- The world after changes of a container's partition. -/
def disturb (container : String) (w : World) (changes : List Change) : World :=
  { w with index := w.index.after (changes.map (Change.call container)) }

/-- Ask for one batch after the other, in a context that goes on, with changes of the partition before each of
them. What is seen of every batch, and the cursor at the end. -/
def watch : Cursor → World → List (List Change) → Except RepositoryError (List Sighting × Cursor)
  | cursor, _, [] => .ok ([], cursor)
  | cursor, w, changes :: rest =>
    let w := disturb cursor.container w changes
    match (Repository.nextBatch cursor).run.run none w with
    | (.error e, _) => .error e
    | (.ok (batch, next), w') => do
      let rows ← (w.index.rows cursor.container).mapError .index
      let (seen, final) ← next.watch w' rest
      pure ({ cursor, rows, batch } :: seen, final)

/-- All rows yielded, in their order. -/
def yields (seen : List Sighting) : List IndexEntry :=
  seen.flatMap Sighting.batch

/-- Whether a row passes the cursor's filter. -/
def passes (cursor : Cursor) (row : IndexEntry) : Bool :=
  typePasses cursor.options.memberType row.type

/-- The rows of a partition that are ahead of a cursor in insertion order. -/
def ahead (cursor : Cursor) (rows : List IndexEntry) : List IndexEntry :=
  match cursor.position with
  | .start => (rows.filter cursor.passes).drop cursor.options.offset
  | .afterSeq seq => rows.filter fun row => seq < row.seq && cursor.passes row
  | .atOffset _ | .done => []

/-! ### One batch -/

/-- A cursor in insertion order without a limit, as batches leave it. -/
structure Flows (cursor : Cursor) : Prop where
  sorted : cursor.options.sort = .insertion
  unlimited : cursor.options.limit = none
  positive : 0 < cursor.batchSize
  keyed : ∀ offset, cursor.position ≠ .atOffset offset

variable {cursor : Cursor} {rows : List IndexEntry}

theorem flows_start (limits : Limits) (container : String) {options : ListOptions} (size : Nat)
    (sorted : options.sort = .insertion) (unlimited : options.limit = none) :
    (start limits container options size).Flows := by
  constructor
  · exact sorted
  · exact unlimited
  · exact Nat.lt_of_lt_of_le Nat.zero_lt_one (Nat.le_max_right _ _)
  · intro offset impossible
    cases impossible

theorem Flows.take_eq (flows : cursor.Flows) : cursor.take = cursor.batchSize := by
  rw [take, flows.unlimited]

theorem ahead_sublist (cursor : Cursor) (rows : List IndexEntry) : (cursor.ahead rows).Sublist rows := by
  rw [ahead]
  split
  · exact (List.drop_sublist _ _).trans List.filter_sublist
  · exact List.filter_sublist
  · exact List.nil_sublist rows
  · exact List.nil_sublist rows

theorem passes_of_mem_ahead {row : IndexEntry} (mem : row ∈ cursor.ahead rows) : cursor.passes row = true := by
  rw [ahead] at mem
  split at mem
  · exact (List.mem_filter.1 (List.mem_of_mem_drop mem)).2
  · exact (Bool.and_eq_true _ _ ▸ (List.mem_filter.1 mem).2).2
  · cases mem
  · cases mem

theorem ahead_of_isExhausted (exhausted : cursor.isExhausted = true) (rows : List IndexEntry) :
    cursor.ahead rows = [] := by
  have done : cursor.position = .done := eq_of_beq exhausted
  rw [ahead, done]

/-- The batch of a cursor: the front of what is ahead of it. -/
def batchOf (cursor : Cursor) (rows : List IndexEntry) : List IndexEntry :=
  (cursor.ahead rows).take cursor.batchSize

theorem Flows.advance (flows : cursor.Flows) (batch : List IndexEntry) : (cursor.advance batch).Flows := by
  constructor
  · exact flows.sorted
  · exact flows.unlimited
  · exact flows.positive
  · intro offset at_offset
    simp only [Cursor.advance, flows.sorted] at at_offset
    split at at_offset
    · cases at_offset
    · cases at_offset

/-- The position after a batch: after its last row, or at the end if the batch is not full. -/
theorem Flows.position_advance (flows : cursor.Flows) (batch : List IndexEntry) :
    batch.length < cursor.batchSize ∧ (cursor.advance batch).position = .done ∨
      ∃ last, batch.getLast? = some last ∧ (cursor.advance batch).position = .afterSeq last.seq := by
  simp only [Cursor.advance, flows.take_eq, flows.sorted]
  by_cases short : batch.length < cursor.batchSize
  · exact .inl ⟨short, if_pos short⟩
  · right
    have nonempty : batch ≠ [] := by
      rintro rfl
      exact short flows.positive
    refine ⟨batch.getLast nonempty, List.getLast?_eq_some_getLast nonempty, ?_⟩
    rw [if_neg short, List.getLast?_eq_some_getLast nonempty]
    rfl

/-- What a batch leaves of the rows ahead stays ahead of the cursor in every partition that still has it. -/
theorem Flows.mem_batch_or_ahead (flows : cursor.Flows) (ordered : rows.Pairwise fun a b => a.seq < b.seq)
    {row : IndexEntry} (mem : row ∈ cursor.ahead rows) :
    row ∈ cursor.batchOf rows ∨
      ∀ later : List IndexEntry, row ∈ later → row ∈ (cursor.advance (cursor.batchOf rows)).ahead later := by
  have passing := passes_of_mem_ahead mem
  have own := ordered.sublist (cursor.ahead_sublist rows)
  rw [← List.take_append_drop cursor.batchSize (cursor.ahead rows)] at mem own
  rcases List.mem_append.1 mem with front | rest
  · exact .inl front
  · right
    intro later there
    rcases flows.position_advance (cursor.batchOf rows) with ⟨short, -⟩ | ⟨last, isLast, position⟩
    · have all : (cursor.ahead rows).length ≤ cursor.batchSize := by
        rw [batchOf, List.length_take] at short
        omega
      rw [List.drop_eq_nil_of_le all] at rest
      cases rest
    · have less := (List.pairwise_append.1 own).2.2 last (List.mem_of_getLast? isLast) row rest
      rw [ahead, position]
      exact List.mem_filter.2 ⟨there, Bool.and_eq_true_iff.2 ⟨decide_eq_true less, passing⟩⟩

/-- Whether a row with a number can still come from a cursor. -/
def below (cursor : Cursor) (n : Nat) : Prop :=
  match cursor.position with
  | .start | .atOffset _ => True
  | .afterSeq seq => seq < n
  | .done => False

theorem below_of_mem_ahead {row : IndexEntry} (mem : row ∈ cursor.ahead rows) : cursor.below row.seq := by
  rw [below]
  rw [ahead] at mem
  cases position : cursor.position with
  | start | atOffset => trivial
  | afterSeq seq =>
    rw [position] at mem
    exact of_decide_eq_true (Bool.and_eq_true_iff.1 (List.mem_filter.1 mem).2).1
  | done =>
    rw [position] at mem
    cases mem

theorem below.mono {m n : Nat} (given : cursor.below m) (le : m ≤ n) : cursor.below n := by
  rw [below] at given ⊢
  split at given
  · trivial
  · trivial
  · exact given.trans_le le
  · exact given

/-- What can come after a batch has a higher number than all rows of the batch, and could have come before. -/
theorem Flows.below_advance (flows : cursor.Flows) (ordered : rows.Pairwise fun a b => a.seq < b.seq) {n : Nat}
    (coming : (cursor.advance (cursor.batchOf rows)).below n) :
    (∀ row ∈ cursor.batchOf rows, row.seq < n) ∧ cursor.below n := by
  rcases flows.position_advance (cursor.batchOf rows) with ⟨-, position⟩ | ⟨last, isLast, position⟩
  · rw [below, position] at coming
    exact coming.elim
  · have own : (cursor.batchOf rows).Pairwise fun a b => a.seq < b.seq :=
      ordered.sublist ((List.take_sublist _ _).trans (cursor.ahead_sublist rows))
    rw [below, position] at coming
    constructor
    · intro row mem
      obtain ⟨front, batch_eq⟩ := List.getLast?_eq_some_iff.1 isLast
      rw [batch_eq] at mem own
      rcases List.mem_append.1 mem with earlier | same
      · have less := (List.pairwise_append.1 own).2.2 row earlier last (List.mem_singleton.2 rfl)
        exact less.trans coming
      · rw [List.mem_singleton.1 same]
        exact coming
    · have mem : last ∈ cursor.ahead rows := List.mem_of_mem_take (List.mem_of_getLast? isLast)
      exact (below_of_mem_ahead mem).mono coming.le

/-- An exhausted cursor yields nothing and stays as it is. -/
theorem Flows.advance_of_isExhausted (flows : cursor.Flows) (exhausted : cursor.isExhausted = true)
    (rows : List IndexEntry) : cursor.batchOf rows = [] ∧ cursor.advance (cursor.batchOf rows) = cursor := by
  have nothing : cursor.batchOf rows = [] := by
    rw [batchOf, ahead_of_isExhausted exhausted, List.take_nil]
  have done : cursor.position = .done := eq_of_beq exhausted
  refine ⟨nothing, ?_⟩
  rw [nothing, Cursor.advance, flows.take_eq]
  simp only [List.length_nil, if_pos flows.positive, Nat.add_zero]
  rw [← done]

/-! ### Asking for a batch -/

theorem Flows.fetched (flows : cursor.Flows) (going : cursor.isExhausted = false) (rows : List IndexEntry) :
    cursor.fetched rows = cursor.batchOf rows := by
  cases position : cursor.position with
  | start =>
    simp only [Cursor.fetched, batchOf, ahead, position, IndexQuery.answer, window, IndexQuery.window, flows.sorted,
      SortOrder.arrange, flows.take_eq]
    rfl
  | afterSeq seq =>
    simp only [Cursor.fetched, batchOf, ahead, position, IndexEntry.following, flows.take_eq]
    rfl
  | atOffset offset => exact absurd position (flows.keyed offset)
  | done =>
    rw [isExhausted, position] at going
    cases going

/-- The next batch is the front of the rows ahead. -/
theorem Flows.next (flows : cursor.Flows) (rows : List IndexEntry) :
    cursor.next rows = (cursor.batchOf rows, cursor.advance (cursor.batchOf rows)) := by
  rw [Cursor.next]
  cases exhausted : cursor.isExhausted with
  | true =>
    obtain ⟨nothing, same⟩ := flows.advance_of_isExhausted exhausted rows
    rw [if_pos rfl, same, nothing]
  | false =>
    have wanted : cursor.take ≠ 0 := by
      rw [flows.take_eq]
      exact Nat.ne_of_gt flows.positive
    rw [if_neg Bool.false_ne_true, if_neg wanted, flows.fetched exhausted]

open Repository in
/-- In a world without faults, a cursor gets the front of the rows ahead of it. -/
theorem Flows.nextBatch (flows : cursor.Flows) {w : World} (clean : w.faults = []) {held : Catalogue}
    (keeps : w.index.Keeps held) (found : held[cursor.container]? = some rows) :
    (nextBatch cursor).Succeeds w fun got w' =>
      got = (cursor.batchOf rows, cursor.advance (cursor.batchOf rows)) ∧ w' = w := by
  rw [← flows.next rows]
  exact succeeds_nextBatch clean keeps found

/-! ### A whole drain -/

theorem keeps_disturb {w : World} {held : Catalogue} (keeps : w.index.Keeps held) (container : String)
    (changes : List Change) :
    ∃ held', (disturb container w changes).index.Keeps held' ∧ ∀ d, held'.contains d = held.contains d := by
  induction changes generalizing w held with
  | nil => exact ⟨held, keeps, fun d => rfl⟩
  | cons change rest ih =>
    have one : ∃ held', (w.index.perform (change.call container)).2.Keeps held' ∧
        ∀ d, held'.contains d = held.contains d := by
      cases change with
      | insert member => exact keeps.insert container member
      | remove memberId => exact keeps.remove container memberId
    obtain ⟨held₁, keeps₁, same₁⟩ := one
    obtain ⟨held', keeps', same'⟩ := ih (w := { w with index := (w.index.perform (change.call container)).2 }) keeps₁
    exact ⟨held', keeps', fun d => (same' d).trans (same₁ d)⟩

/-- What is seen of a drain that begins with a cursor and ends with another. -/
structure Drained (cursor : Cursor) (seen : List Sighting) (final : Cursor) : Prop where
  begins : ∀ s ∈ seen.head?, s.cursor = cursor
  idle : seen = [] → final = cursor
  read : ∀ s ∈ seen, ∀ row ∈ s.batch, row ∈ s.rows ∧ cursor.passes row = true
  ordered : (yields seen).Pairwise fun a b => a.seq < b.seq
  below : ∀ row ∈ yields seen, cursor.below row.seq
  short : ∀ s ∈ seen, s.batch.length < s.cursor.batchSize → final.isExhausted = true
  stays : cursor.isExhausted = true → final.isExhausted = true
  complete : final.isExhausted = true → ∀ first ∈ seen.head?, ∀ row ∈ cursor.ahead first.rows,
    (∀ s ∈ seen, s.cursor.isExhausted = false → row ∈ s.rows) → row ∈ yields seen

theorem drained_nil (cursor : Cursor) : cursor.Drained [] cursor := by
  constructor
  · intro s impossible
    cases impossible
  · intro _
    rfl
  · intro s impossible
    cases impossible
  · exact List.Pairwise.nil
  · intro row impossible
    cases impossible
  · intro s impossible
    cases impossible
  · exact id
  · intro _ first impossible
    cases impossible

/-- One batch before a drain. -/
theorem Flows.drained_cons (flows : cursor.Flows) (ordered : rows.Pairwise fun a b => a.seq < b.seq)
    {seen : List Sighting} {final : Cursor} (rest : (cursor.advance (cursor.batchOf rows)).Drained seen final) :
    cursor.Drained ({ cursor, rows, batch := cursor.batchOf rows } :: seen) final := by
  have front : (cursor.batchOf rows).Sublist (cursor.ahead rows) := List.take_sublist _ _
  constructor
  · intro s first
    cases first
    rfl
  · intro impossible
    cases impossible
  · intro s mem row there
    rcases List.mem_cons.1 mem with rfl | later
    · exact ⟨(cursor.ahead_sublist rows).subset (front.subset there), passes_of_mem_ahead (front.subset there)⟩
    · exact rest.read s later row there
  · rw [yields, List.flatMap_cons, List.pairwise_append]
    refine ⟨ordered.sublist (front.trans (cursor.ahead_sublist rows)), rest.ordered, ?_⟩
    intro row there next coming
    exact (flows.below_advance ordered (rest.below next coming)).1 row there
  · intro row there
    rcases List.mem_append.1 there with here | later
    · exact below_of_mem_ahead (front.subset here)
    · exact (flows.below_advance ordered (rest.below row later)).2
  · intro s mem short
    rcases List.mem_cons.1 mem with rfl | later
    · rcases flows.position_advance (cursor.batchOf rows) with ⟨-, position⟩ | ⟨last, isLast, position⟩
      · exact rest.stays (beq_iff_eq.2 position)
      · have full : ¬ (cursor.batchOf rows).length < cursor.take := by
          intro short
          simp only [Cursor.advance, if_pos short] at position
          cases position
        exact absurd (flows.take_eq ▸ short) full
    · exact rest.short s later short
  · intro exhausted
    apply rest.stays
    rw [(flows.advance_of_isExhausted exhausted rows).2]
    exact exhausted
  · intro exhausted first isFirst row mem present
    cases isFirst
    rcases flows.mem_batch_or_ahead ordered mem with here | stays
    · exact List.mem_append_left _ here
    · apply List.mem_append_right
      -- the row is still ahead, so the cursor is not exhausted and there is another batch
      have still := stays rows ((cursor.ahead_sublist rows).subset mem)
      have going : (cursor.advance (cursor.batchOf rows)).isExhausted = false := by
        apply Bool.eq_false_of_not_eq_true
        intro ended
        rw [ahead_of_isExhausted ended] at still
        cases still
      cases seen with
      | nil =>
        rw [rest.idle rfl, going] at exhausted
        cases exhausted
      | cons second others =>
        have again : second.cursor.isExhausted = false := by
          rw [rest.begins second rfl]
          exact going
        have there := present second (List.mem_cons_of_mem _ List.mem_cons_self) again
        exact rest.complete exhausted second rfl row (stays second.rows there) fun s later =>
          present s (List.mem_cons_of_mem _ later)

/-- Every batch of a drain among changes is answered, and the drain is as it should be. -/
theorem Flows.watch (flows : cursor.Flows) {w : World} (clean : w.faults = []) {held : Catalogue}
    (keeps : w.index.Keeps held) (present : held.contains cursor.container = true) (rounds : List (List Change)) :
    ∃ seen final, cursor.watch w rounds = .ok (seen, final) ∧ seen.length = rounds.length ∧
      cursor.Drained seen final := by
  induction rounds generalizing cursor w held with
  | nil => exact ⟨[], cursor, rfl, rfl, drained_nil cursor⟩
  | cons changes rest ih =>
    obtain ⟨held₁, keeps₁, same₁⟩ := keeps_disturb keeps cursor.container changes
    have present₁ : held₁.contains cursor.container = true := (same₁ _).trans present
    have clean₁ : (disturb cursor.container w changes).faults = [] := clean
    obtain ⟨rows, found⟩ : ∃ rows, held₁[cursor.container]? = some rows := by
      rwa [Std.ExtTreeMap.contains_eq_isSome_getElem?, Option.isSome_iff_exists] at present₁
    obtain ⟨_, _, answered, rfl, rfl⟩ := flows.nextBatch clean₁ keeps₁ found
    obtain ⟨seen, final, later, length, drained⟩ := ih (flows.advance (cursor.batchOf rows)) clean₁ keeps₁ present₁
    refine ⟨{ cursor, rows, batch := cursor.batchOf rows } :: seen, final, ?_, ?_, ?_⟩
    · simp only [Cursor.watch, answered, keeps₁.rows found]
      change (do
        let __x ← (cursor.advance (cursor.batchOf rows)).watch (disturb cursor.container w changes) rest
        pure (Sighting.mk cursor rows (cursor.batchOf rows) :: __x.1, __x.2)) = _
      rw [later]
      rfl
    · exact congrArg Nat.succ length
    · exact flows.drained_cons (keeps₁.ordered found) drained

/-- **Cursors in insertion order are stable.** Take an index of either kind, a cursor in insertion order from any
offset, with any filter and any size of batch, and let rows be inserted into its partition and removed from it
before every batch. All batches are answered. The numbers of the rows yielded go up through the whole drain, so
that no row comes twice; each row was in the partition and passed the filter when its batch was read; a batch that
is not full is the last. Once the cursor is exhausted, every matching row that the first batch found past the
offset, and that was there whenever a batch was read, has been yielded just once. -/
theorem watch_insertion (limits : Limits) (container : String) (options : ListOptions) (size : Nat)
    (sorted : options.sort = .insertion) (unlimited : options.limit = none) {w : World} (clean : w.faults = [])
    {held : Catalogue} (keeps : w.index.Keeps held) (present : held.contains container = true)
    (rounds : List (List Change)) :
    ∃ seen final, (start limits container options size).watch w rounds = .ok (seen, final) ∧
      seen.length = rounds.length ∧
      ((yields seen).map IndexEntry.seq).Pairwise (· < ·) ∧
      (∀ s ∈ seen, ∀ row ∈ s.batch, row ∈ s.rows ∧ typePasses options.memberType row.type = true) ∧
      (∀ s ∈ seen, s.batch.length < s.cursor.batchSize → final.isExhausted = true) ∧
      (final.isExhausted = true → ∀ first ∈ seen.head?,
        ∀ row ∈ (first.rows.filter fun row => typePasses options.memberType row.type).drop options.offset,
          (∀ s ∈ seen, s.cursor.isExhausted = false → row ∈ s.rows) → (yields seen).count row = 1) := by
  have flows := flows_start limits container size sorted unlimited
  obtain ⟨seen, final, watched, length, drained⟩ := flows.watch clean keeps present rounds
  refine ⟨seen, final, watched, length, ?_, drained.read, drained.short, ?_⟩
  · exact List.pairwise_map.2 drained.ordered
  · intro exhausted first isFirst row mem stays
    have yielded := drained.complete exhausted first isFirst row mem stays
    have distinct : (yields seen).Nodup := by
      apply drained.ordered.imp
      rintro a _ less rfl
      exact Nat.lt_irrefl a.seq less
    exact List.count_eq_one_of_mem distinct yielded

/-- A partition with a container and some documents. -/
def sampleRows : List IndexCall :=
  let member (id : String) (type : MemberType) : Member := { id, type, addedAt := Time.Instant.epoch }
  [.createPartition "a", .insert "a" (member "1" .resource), .insert "a" (member "2" .resource),
    .insert "a" (member "sub" .container), .insert "a" (member "3" .resource), .insert "a" (member "4" .resource),
    .insert "a" (member "5" .resource)]

/-- Changes on the way: the row that the cursor has come to is removed and its member inserted anew, a row further
on is removed, and a row behind the cursor. -/
def sampleChanges : List (List Change) :=
  [[], [.remove "3", .insert { id := "3", type := .resource, addedAt := Time.Instant.epoch }, .remove "4"],
    [.remove "1"]]

theorem sampleRows_drained :
    let w : World := { (default : World) with index := Index.empty.after sampleRows }
    let options : ListOptions := { offset := 1, memberType := some .resource }
    options.sort = .insertion ∧ options.limit = none ∧ w.faults = [] ∧
      (∃ held, w.index.Keeps held ∧ held.contains "a" = true) ∧
      ∃ seen final, (start {} "a" options 2).watch w sampleChanges = .ok (seen, final) ∧
        seen.length = 3 ∧ ((yields seen).map IndexEntry.seq).Pairwise (· < ·) ∧
        (∀ s ∈ seen, ∀ row ∈ s.batch, row ∈ s.rows ∧ typePasses (some .resource) row.type = true) ∧
        (∀ s ∈ seen, s.batch.length < s.cursor.batchSize → final.isExhausted = true) ∧
        (final.isExhausted = true → ∀ first ∈ seen.head?,
          ∀ row ∈ (first.rows.filter fun row => typePasses (some .resource) row.type).drop 1,
            (∀ s ∈ seen, s.cursor.isExhausted = false → row ∈ s.rows) → (yields seen).count row = 1) ∧
        final.isExhausted = true ∧
        (yields seen).map (fun row => (row.memberId, row.seq)) = [("2", 2), ("3", 4), ("5", 6), ("3", 7)] := by
  intro w options
  obtain ⟨_, m, same, wf, -⟩ := Index.lists_empty.after sampleRows
  have keeps : w.index.Keeps m.catalogue := by
    change (Index.empty.after sampleRows).Keeps m.catalogue
    rw [same]
    exact Index.Keeps.memory wf
  have present : m.catalogue.contains "a" = true := by
    have asked : ((Index.empty.after sampleRows).perform (.hasPartition "a")).1 = .ok true := by decide +kernel
    rw [same] at asked
    rw [MemoryIndex.contains_catalogue]
    exact Except.ok.inj asked
  have ends : ((start {} "a" options 2).watch w sampleChanges).map (fun (seen, final) =>
      (final.isExhausted, (yields seen).map fun row => (row.memberId, row.seq))) =
        .ok (true, [("2", 2), ("3", 4), ("5", 6), ("3", 7)]) := by
    decide +kernel
  obtain ⟨seen, final, watched, length, up, read, short, complete⟩ :=
    watch_insertion {} "a" options 2 rfl rfl (w := w) rfl keeps present sampleChanges
  rw [watched] at ends
  obtain ⟨exhausted, yielded⟩ := Prod.mk.inj (Except.ok.inj ends)
  exact ⟨rfl, rfl, rfl, ⟨_, keeps, present⟩, seen, final, watched, length, up, read, short, complete, exhausted,
    yielded⟩

end Cursor

end Containment
