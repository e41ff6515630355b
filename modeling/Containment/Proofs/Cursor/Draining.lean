/-
Module: Containment.Proofs.Cursor.Draining
Purpose: A drain of a container whose rows stay as they are, in every order, with every filter, offset, limit and size
  of batch. What a cursor is still to yield is one list; a batch takes its front and leaves the rest to the cursor
  after it, so that all batches together are the answer to one question without batches.
Main exports: Cursor.left, Cursor.Poised.next, Cursor.Poised.drained, Cursor.poll, Cursor.drain_eq_select
-/
import Containment.Proofs.Cursor.Insertion
import Containment.Proofs.Index.Ordering

namespace Containment

/-- Rows in order: those with a higher number than the last of some first rows are the others. -/
theorem IndexEntry.filter_above {front rest : List IndexEntry} {last : IndexEntry}
    (ordered : (front ++ rest).Pairwise fun a b => a.seq < b.seq) (isLast : front.getLast? = some last) :
    (front ++ rest).filter (fun row => last.seq < row.seq) = rest := by
  obtain ⟨ordered_front, -, above⟩ := List.pairwise_append.1 ordered
  have none_before : front.filter (fun row => last.seq < row.seq) = [] := by
    rw [List.filter_eq_nil_iff]
    intro row mem
    obtain ⟨earlier, rfl⟩ := List.getLast?_eq_some_iff.1 isLast
    rw [decide_eq_true_eq, Nat.not_lt]
    rcases List.mem_append.1 mem with before | same
    · exact ((List.pairwise_append.1 ordered_front).2.2 row before last (List.mem_singleton.2 rfl)).le
    · rw [List.mem_singleton.1 same]
  have all_after : rest.filter (fun row => last.seq < row.seq) = rest := by
    rw [List.filter_eq_self]
    intro row mem
    exact decide_eq_true (above last (List.mem_of_getLast? isLast) row mem)
  rw [List.filter_append, none_before, all_after, List.nil_append]

namespace Cursor

/-- The rows that pass a cursor's filter, in its order. -/
def matched (cursor : Cursor) (rows : List IndexEntry) : List IndexEntry :=
  (cursor.options.sort.arrange rows).filter cursor.passes

/-- The number of matching rows behind a cursor that counts them. -/
def place (cursor : Cursor) : Option Nat :=
  match cursor.position with
  | .start => some cursor.options.offset
  | .atOffset offset => some offset
  | .afterSeq _ | .done => none

/-- The rows from a cursor's position on. -/
def beyond (cursor : Cursor) (rows : List IndexEntry) : List IndexEntry :=
  match cursor.position with
  | .start => (cursor.matched rows).drop cursor.options.offset
  | .atOffset offset => (cursor.matched rows).drop offset
  | .afterSeq seq => rows.filter fun row => seq < row.seq && cursor.passes row
  | .done => []

/-- The rows that a cursor is still to yield. -/
def left (cursor : Cursor) (rows : List IndexEntry) : List IndexEntry :=
  match cursor.options.limit with
  | none => cursor.beyond rows
  | some limit => (cursor.beyond rows).take (limit - cursor.yielded)

/-- A cursor as batches leave it. -/
structure Poised (cursor : Cursor) (rows : List IndexEntry) : Prop where
  positive : 0 < cursor.batchSize
  numbered : ∀ seq, cursor.position = .afterSeq seq → cursor.options.sort = .insertion
  counted : cursor.yielded + (cursor.left rows).length ≤ rows.length
  limited : ∀ limit, cursor.options.limit = some limit → cursor.yielded ≤ limit

variable {cursor : Cursor} {rows : List IndexEntry}

theorem length_matched_le (cursor : Cursor) (rows : List IndexEntry) : (cursor.matched rows).length ≤ rows.length :=
  (List.length_filter_le _ _).trans (cursor.options.sort.arrange_perm rows).length_eq.le

theorem left_start (limits : Limits) (container : String) (options : ListOptions) (size : Nat)
    (rows : List IndexEntry) : (start limits container options size).left rows =
      IndexQuery.answer { offset := options.offset, limit := options.limit, sort := options.sort
                          memberType := options.memberType } rows := by
  rw [left, IndexQuery.answer, IndexQuery.window]
  cases limited : options.limit with
  | none =>
    have unlimited : (start limits container options size).options.limit = none := limited
    simp only [unlimited]
    rfl
  | some limit =>
    have same : (start limits container options size).options.limit = some limit := limited
    simp only [same]
    rfl

theorem poised_start (limits : Limits) (container : String) (options : ListOptions) (size : Nat)
    (rows : List IndexEntry) : (start limits container options size).Poised rows := by
  have shorter : ((start limits container options size).left rows).length ≤ rows.length := by
    have drop : ((start limits container options size).beyond rows).length ≤ rows.length := by
      rw [beyond]
      change (List.drop options.offset _).length ≤ rows.length
      rw [List.length_drop]
      exact (Nat.sub_le _ _).trans (length_matched_le _ rows)
    rw [left]
    split
    · exact drop
    · exact (List.length_take_le' _ _).trans drop
  constructor
  · exact Nat.lt_of_lt_of_le Nat.zero_lt_one (Nat.le_max_right _ _)
  · intro seq impossible
    cases impossible
  · exact (Nat.zero_add _).trans_le shorter
  · intro limit _
    exact Nat.zero_le limit

/-! ### Positions -/

theorem position_cases (cursor : Cursor) :
    (∃ offset, cursor.place = some offset) ∨ (∃ seq, cursor.position = .afterSeq seq) ∨ cursor.position = .done := by
  rw [place]
  cases cursor.position with
  | start => exact .inl ⟨_, rfl⟩
  | atOffset offset => exact .inl ⟨offset, rfl⟩
  | afterSeq seq => exact .inr (.inl ⟨seq, rfl⟩)
  | done => exact .inr (.inr rfl)

theorem beyond_of_place {offset : Nat} (placed : cursor.place = some offset) (rows : List IndexEntry) :
    cursor.beyond rows = (cursor.matched rows).drop offset := by
  rw [place] at placed
  rw [beyond]
  split at placed
  · cases placed
    rfl
  · cases placed
    rfl
  · cases placed
  · cases placed

theorem beyond_of_done (done : cursor.position = .done) (rows : List IndexEntry) : cursor.beyond rows = [] := by
  rw [beyond, done]

theorem left_of_done (done : cursor.position = .done) (rows : List IndexEntry) : cursor.left rows = [] := by
  rw [left, beyond_of_done done]
  split
  · rfl
  · exact List.take_nil

theorem matched_of_insertion (sorted : cursor.options.sort = .insertion) (rows : List IndexEntry) :
    cursor.matched rows = rows.filter cursor.passes := by
  rw [matched, sorted]
  rfl

/-- A cursor that counts rows counts those of a full batch. -/
theorem position_advance_of_place {offset : Nat} (placed : cursor.place = some offset)
    (unnumbered : cursor.options.sort ≠ .insertion) {batch : List IndexEntry} (full : ¬ batch.length < cursor.take) :
    (cursor.advance batch).position = .atOffset (offset + batch.length) := by
  rw [place] at placed
  simp only [Cursor.advance, if_neg full]
  cases sorted : cursor.options.sort with
  | insertion => exact absurd sorted unnumbered
  | newestFirst | memberId =>
    cases position : cursor.position with
    | start | atOffset =>
      rw [position] at placed
      cases placed
      rfl
    | afterSeq | done =>
      rw [position] at placed
      cases placed

/-! ### One batch -/

theorem take_left (cursor : Cursor) (rows : List IndexEntry) :
    (cursor.left rows).take cursor.batchSize = (cursor.beyond rows).take cursor.take := by
  rw [left, Cursor.take]
  cases cursor.options.limit with
  | none => rfl
  | some limit => exact List.take_take

theorem fetched_eq (cursor : Cursor) (rows : List IndexEntry) :
    cursor.fetched rows = (cursor.beyond rows).take cursor.take := by
  rw [Cursor.fetched, beyond]
  cases cursor.position with
  | start => rfl
  | atOffset offset => rfl
  | afterSeq seq => rfl
  | done => exact List.take_nil.symm

/-- The last row of a batch parts the matching rows in the order of their numbers. -/
theorem filter_matched (ordered : rows.Pairwise fun a b => a.seq < b.seq) (sorted : cursor.options.sort = .insertion)
    {n : Nat} {last : IndexEntry} (isLast : ((cursor.beyond rows).take n).getLast? = some last) :
    (rows.filter fun row => last.seq < row.seq && cursor.passes row) = (cursor.beyond rows).drop n := by
  have own : (cursor.matched rows).Pairwise fun a b => a.seq < b.seq := by
    rw [matched_of_insertion sorted]
    exact ordered.filter _
  rw [← List.filter_filter, ← matched_of_insertion sorted]
  rcases cursor.position_cases with ⟨offset, placed⟩ | ⟨seq, position⟩ | done
  · rw [beyond_of_place placed] at isLast ⊢
    have parts : cursor.matched rows =
        ((cursor.matched rows).take offset ++ ((cursor.matched rows).drop offset).take n) ++
          ((cursor.matched rows).drop offset).drop n := by
      rw [List.append_assoc, List.take_append_drop, List.take_append_drop]
    have last_of_all : ((cursor.matched rows).take offset ++
        ((cursor.matched rows).drop offset).take n).getLast? = some last := by
      rw [List.getLast?_append, isLast, Option.some_or]
    have parted := IndexEntry.filter_above (parts ▸ own) last_of_all
    rwa [← parts] at parted
  · have beyond_eq : cursor.beyond rows = (cursor.matched rows).filter fun row => seq < row.seq := by
      rw [beyond, position, matched_of_insertion sorted, List.filter_filter]
    have later : seq < last.seq := by
      have mem : last ∈ cursor.beyond rows := List.mem_of_mem_take (List.mem_of_getLast? isLast)
      rw [beyond_eq] at mem
      exact of_decide_eq_true (List.mem_filter.1 mem).2
    have narrowed : (cursor.matched rows).filter (fun row => last.seq < row.seq) =
        (cursor.beyond rows).filter fun row => last.seq < row.seq := by
      rw [beyond_eq, List.filter_filter]
      apply List.filter_congr
      intro row _
      rw [Bool.eq_iff_iff, Bool.and_eq_true, decide_eq_true_eq, decide_eq_true_eq]
      exact ⟨fun less => ⟨less, later.trans less⟩, And.left⟩
    have own' : ((cursor.beyond rows).take n ++ (cursor.beyond rows).drop n).Pairwise fun a b => a.seq < b.seq := by
      rw [List.take_append_drop, beyond_eq]
      exact own.filter _
    have parted := IndexEntry.filter_above own' isLast
    rw [List.take_append_drop] at parted
    rw [narrowed, parted]
  · rw [beyond_of_done done, List.take_nil] at isLast
    cases isLast

/-- After a full batch the cursor goes on where the batch ended. -/
theorem Poised.beyond_advance (poised : cursor.Poised rows) (ordered : rows.Pairwise fun a b => a.seq < b.seq)
    (wanted : cursor.take ≠ 0) (full : ((cursor.beyond rows).take cursor.take).length = cursor.take) :
    (cursor.advance ((cursor.beyond rows).take cursor.take)).beyond rows = (cursor.beyond rows).drop cursor.take := by
  have full' : ¬ ((cursor.beyond rows).take cursor.take).length < cursor.take := full.ge.not_gt
  by_cases sorted : cursor.options.sort = .insertion
  · have nonempty : (cursor.beyond rows).take cursor.take ≠ [] := by
      intro empty
      rw [empty] at full
      exact wanted full.symm
    have isLast := List.getLast?_eq_some_getLast nonempty
    have position : (cursor.advance ((cursor.beyond rows).take cursor.take)).position =
        .afterSeq (((cursor.beyond rows).take cursor.take).getLast nonempty).seq := by
      simp only [Cursor.advance, if_neg full', sorted, isLast, Option.map_some, Option.getD_some]
    rw [beyond, position]
    exact filter_matched ordered sorted isLast
  · rcases cursor.position_cases with ⟨offset, placed⟩ | ⟨seq, position⟩ | done
    · have position := position_advance_of_place placed sorted full'
      rw [full] at position
      rw [beyond, position, beyond_of_place placed, List.drop_drop]
      rfl
    · exact absurd (poised.numbered seq position) sorted
    · rw [beyond_of_done done, List.take_nil] at full
      exact absurd full.symm wanted

/-- The cursor after a batch has the rest of the rows left. -/
theorem Poised.left_advance (poised : cursor.Poised rows) (ordered : rows.Pairwise fun a b => a.seq < b.seq)
    (wanted : cursor.take ≠ 0) :
    (cursor.advance ((cursor.beyond rows).take cursor.take)).left rows = (cursor.left rows).drop cursor.batchSize := by
  by_cases short : ((cursor.beyond rows).take cursor.take).length < cursor.take
  · have done : (cursor.advance ((cursor.beyond rows).take cursor.take)).position = .done := by
      simp only [Cursor.advance, if_pos short]
    rw [left_of_done done, eq_comm, List.drop_eq_nil_iff]
    rw [List.length_take] at short
    rw [left, Cursor.take] at *
    cases limited : cursor.options.limit with
    | none =>
      simp only [limited] at short ⊢
      omega
    | some limit =>
      simp only [limited, List.length_take] at short ⊢
      omega
  · have full : ((cursor.beyond rows).take cursor.take).length = cursor.take :=
      (List.length_take_le _ _).antisymm (Nat.le_of_not_lt short)
    have next := poised.beyond_advance ordered wanted full
    have options : (cursor.advance ((cursor.beyond rows).take cursor.take)).options = cursor.options := rfl
    have yielded : (cursor.advance ((cursor.beyond rows).take cursor.take)).yielded = cursor.yielded + cursor.take := by
      simp only [Cursor.advance, full]
    rw [left, left, options, next, yielded]
    rw [Cursor.take] at *
    cases limited : cursor.options.limit with
    | none => simp only
    | some limit =>
      simp only [limited] at wanted ⊢
      rw [List.drop_take]
      by_cases near : limit - cursor.yielded < cursor.batchSize
      · have none_left : limit - (cursor.yielded + min cursor.batchSize (limit - cursor.yielded)) = 0 := by omega
        have none_left' : limit - cursor.yielded - cursor.batchSize = 0 := by omega
        rw [none_left, none_left', List.take_zero, List.take_zero]
      · have whole : min cursor.batchSize (limit - cursor.yielded) = cursor.batchSize := by omega
        rw [whole, Nat.sub_sub]

theorem isExhausted_iff : cursor.isExhausted = true ↔ cursor.position = .done :=
  beq_iff_eq

theorem length_left_le_sub {limit : Nat} (limited : cursor.options.limit = some limit) (rows : List IndexEntry) :
    (cursor.left rows).length ≤ limit - cursor.yielded := by
  simp only [left, limited]
  exact List.length_take_le _ _

/-- A cursor that wants no more rows has none left. -/
theorem Poised.left_of_take_eq_zero (poised : cursor.Poised rows) (unwanted : cursor.take = 0) :
    cursor.left rows = [] := by
  have positive := poised.positive
  cases limited : cursor.options.limit with
  | none =>
    simp only [Cursor.take, limited] at unwanted
    omega
  | some limit =>
    have length := length_left_le_sub limited rows
    simp only [Cursor.take, limited] at unwanted
    apply List.eq_nil_of_length_eq_zero
    omega

theorem Poised.advance (poised : cursor.Poised rows) (ordered : rows.Pairwise fun a b => a.seq < b.seq)
    (wanted : cursor.take ≠ 0) : (cursor.advance ((cursor.beyond rows).take cursor.take)).Poised rows := by
  have batch_length := congrArg List.length (take_left cursor rows)
  have counted := poised.counted
  constructor
  · exact poised.positive
  · intro seq position
    by_cases sorted : cursor.options.sort = .insertion
    · exact sorted
    · simp only [Cursor.advance] at position
      split at position
      · cases position
      · split at position
        · exact absurd ‹cursor.options.sort = .insertion› sorted
        · cases position
        · cases position
  · rw [poised.left_advance ordered wanted]
    change cursor.yielded + _ + _ ≤ _
    rw [← batch_length, Nat.add_assoc, ← List.length_append, List.take_append_drop]
    exact counted
  · intro limit limited
    have limited : cursor.options.limit = some limit := limited
    have length := length_left_le_sub limited rows
    have within := poised.limited limit limited
    change cursor.yielded + _ ≤ limit
    rw [← batch_length, List.length_take]
    omega

/-- The next batch is the front of what a cursor is still to yield, and leaves the rest of it. -/
theorem Poised.next (poised : cursor.Poised rows) (ordered : rows.Pairwise fun a b => a.seq < b.seq) :
    (cursor.next rows).1 = (cursor.left rows).take cursor.batchSize ∧
      (cursor.next rows).2.left rows = (cursor.left rows).drop cursor.batchSize ∧
      (cursor.next rows).2.Poised rows := by
  rw [Cursor.next]
  split
  · rename_i exhausted
    rw [left_of_done (isExhausted_iff.1 exhausted)]
    exact ⟨List.take_nil.symm, List.drop_nil.symm, poised⟩
  · split
    · rename_i unwanted
      have none_left := poised.left_of_take_eq_zero unwanted
      have ended : ({ cursor with position := .done } : Cursor).left rows = [] := left_of_done rfl rows
      rw [none_left, List.take_nil, List.drop_nil]
      refine ⟨rfl, ended, ⟨poised.positive, ?_, ?_, poised.limited⟩⟩
      · intro seq impossible
        cases impossible
      · rw [ended]
        have counted := poised.counted
        rwa [none_left] at counted
    · rename_i wanted
      rw [fetched_eq, take_left]
      exact ⟨rfl, poised.left_advance ordered wanted, poised.advance ordered wanted⟩

/-- An empty batch is the last. -/
theorem isExhausted_next (empty : (cursor.next rows).1 = []) : (cursor.next rows).2.isExhausted = true := by
  rw [isExhausted_iff]
  rw [Cursor.next] at empty ⊢
  split at empty
  · rename_i exhausted
    rw [if_pos exhausted]
    exact isExhausted_iff.1 exhausted
  · rename_i going
    rw [if_neg going]
    split at empty
    · rename_i unwanted
      rw [if_pos unwanted]
    · rename_i wanted
      rw [if_neg wanted]
      change cursor.fetched rows = [] at empty
      simp only [Cursor.advance, empty, List.length_nil, if_pos (Nat.pos_of_ne_zero wanted)]

theorem options_next (cursor : Cursor) (rows : List IndexEntry) :
    (cursor.next rows).2.options = cursor.options ∧ (cursor.next rows).2.batchSize = cursor.batchSize := by
  rw [Cursor.next]
  split
  · exact ⟨rfl, rfl⟩
  · split
    · exact ⟨rfl, rfl⟩
    · exact ⟨rfl, rfl⟩

/-! ### A whole drain -/

/-- Batches enough yield all that is left. -/
theorem Poised.drained (poised : cursor.Poised rows) (ordered : rows.Pairwise fun a b => a.seq < b.seq)
    {batches : Nat} (enough : (cursor.left rows).length < batches) : drained batches cursor rows = cursor.left rows := by
  induction batches generalizing cursor with
  | zero => exact absurd enough (Nat.not_lt_zero _)
  | succ batches ih =>
    obtain ⟨batch, rest, poised'⟩ := poised.next ordered
    have positive := poised.positive
    simp only [Cursor.drained, List.isEmpty_iff]
    by_cases empty : (cursor.next rows).1 = []
    · rw [if_pos empty]
      rw [batch, List.take_eq_nil_iff] at empty
      exact (empty.resolve_left positive.ne').symm
    · have nonempty : cursor.left rows ≠ [] := by
        intro none_left
        rw [batch, none_left, List.take_nil] at empty
        exact empty rfl
      have length := List.length_pos_iff.2 nonempty
      have fewer : ((cursor.next rows).2.left rows).length < batches := by
        rw [rest, List.length_drop]
        omega
      rw [if_neg empty, ih poised' fewer, batch, rest, List.take_append_drop]

end Cursor

/-- A world that fails no request and whose index keeps these rows for a container. -/
def World.Presents (w : World) (container : String) (rows : List IndexEntry) : Prop :=
  w.faults = [] ∧ ∃ held : Catalogue, w.index.Keeps held ∧ held[container]? = some rows

namespace Cursor

/-- Ask for one batch in each of these worlds, in a context that goes on. What is seen of every batch, and the
cursor at the end. -/
def poll : Cursor → List World → Except RepositoryError (List Sighting × Cursor)
  | cursor, [] => .ok ([], cursor)
  | cursor, w :: later => do
    let (batch, next) ← ((Repository.nextBatch cursor).run.run none w).1
    let rows ← (w.index.rows cursor.container).mapError .index
    let (seen, final) ← next.poll later
    pure ({ cursor, rows, batch } :: seen, final)

/-- A batch is no larger than its cursor wants, and the sums that the cursor takes from it stay within the number
of rows and its limit. -/
structure Sighting.Fits (s : Sighting) : Prop where
  size : s.batch.length ≤ s.cursor.batchSize
  yielded : s.cursor.yielded + s.batch.length ≤ s.rows.length
  limited : ∀ limit, s.cursor.options.limit = some limit → s.cursor.yielded + s.batch.length ≤ limit
  place : ∀ offset, s.cursor.place = some offset → s.batch ≠ [] → offset + s.batch.length ≤ s.rows.length

/-- What is seen when a cursor is polled among rows that stay as they are. -/
structure Polled (cursor : Cursor) (rows : List IndexEntry) (seen : List Sighting) (final : Cursor) : Prop where
  idle : seen = [] → final = cursor
  parts : cursor.left rows = yields seen ++ final.left rows
  ends : (cursor.left rows).length < seen.length → final.isExhausted = true
  fits : ∀ s ∈ seen, s.Fits ∧ s.cursor.batchSize = cursor.batchSize ∧ s.rows = rows
  quiet : seen.Pairwise fun s t => s.batch = [] → t.batch = []

variable {cursor : Cursor} {rows : List IndexEntry}

theorem Poised.fits (poised : cursor.Poised rows) (ordered : rows.Pairwise fun a b => a.seq < b.seq) :
    Sighting.Fits { cursor, rows, batch := (cursor.next rows).1 } := by
  obtain ⟨batch, -, -⟩ := poised.next ordered
  have counted := poised.counted
  constructor
  · simp only [batch]
    exact List.length_take_le _ _
  · simp only [batch, List.length_take]
    omega
  · intro limit limited
    have limited : cursor.options.limit = some limit := limited
    have length := length_left_le_sub limited rows
    have within := poised.limited limit limited
    simp only [batch, List.length_take]
    omega
  · intro offset placed nonempty
    have matched := cursor.length_matched_le rows
    have length := List.length_pos_iff.2 nonempty
    simp only [batch, take_left, beyond_of_place placed, List.length_take, List.length_drop] at length ⊢
    omega

/-- One batch before others. -/
theorem Poised.polled_cons (poised : cursor.Poised rows) (ordered : rows.Pairwise fun a b => a.seq < b.seq)
    {seen : List Sighting} {final : Cursor} (rest : (cursor.next rows).2.Polled rows seen final) :
    cursor.Polled rows ({ cursor, rows, batch := (cursor.next rows).1 } :: seen) final := by
  obtain ⟨batch, left_next, -⟩ := poised.next ordered
  have positive := poised.positive
  constructor
  · intro impossible
    cases impossible
  · rw [yields, List.flatMap_cons, List.append_assoc, ← yields, ← rest.parts, left_next, batch, List.take_append_drop]
  · intro enough
    rw [List.length_cons] at enough
    cases seen with
    | nil =>
      have empty : (cursor.next rows).1 = [] := by
        rw [batch, List.eq_nil_of_length_eq_zero (Nat.lt_one_iff.1 enough), List.take_nil]
      rw [rest.idle rfl]
      exact isExhausted_next empty
    | cons second others =>
      apply rest.ends
      rw [left_next, List.length_drop, List.length_cons]
      rw [List.length_cons] at enough
      omega
  · intro s mem
    rcases List.mem_cons.1 mem with rfl | later
    · exact ⟨poised.fits ordered, rfl, rfl⟩
    · obtain ⟨fits, size, same⟩ := rest.fits s later
      exact ⟨fits, size.trans (cursor.options_next rows).2, same⟩
  · refine List.pairwise_cons.2 ⟨?_, rest.quiet⟩
    intro t later empty
    have none_left : (cursor.next rows).2.left rows = [] := by
      rw [batch, List.take_eq_nil_iff] at empty
      rw [left_next, empty.resolve_left positive.ne', List.drop_nil]
    have nothing : yields seen = [] := (List.append_eq_nil_iff.1 (rest.parts.symm.trans none_left)).1
    exact List.flatMap_eq_nil_iff.1 nothing t later

/-- Wherever a cursor is polled, the container's rows alone decide what is seen. -/
theorem Poised.polled (poised : cursor.Poised rows) (ordered : rows.Pairwise fun a b => a.seq < b.seq)
    {worlds : List World} (presents : ∀ w ∈ worlds, w.Presents cursor.container rows) :
    ∃ seen final, cursor.poll worlds = .ok (seen, final) ∧ seen.length = worlds.length ∧
      cursor.Polled rows seen final := by
  induction worlds generalizing cursor with
  | nil =>
    refine ⟨[], cursor, rfl, rfl, fun _ => rfl, rfl, ?_, ?_, List.Pairwise.nil⟩
    · intro impossible
      exact absurd impossible (Nat.not_lt_zero _)
    · intro s impossible
      cases impossible
  | cons w later ih =>
    obtain ⟨clean, held, keeps, found⟩ := presents w List.mem_cons_self
    obtain ⟨_, _, answered, rfl, rfl⟩ := Repository.succeeds_nextBatch clean keeps found
    obtain ⟨-, -, poised'⟩ := poised.next ordered
    have own := cursor.container_next rows
    obtain ⟨seen, final, polled, length, rest⟩ := ih poised' fun v mem =>
      own ▸ presents v (List.mem_cons_of_mem _ mem)
    refine ⟨{ cursor, rows, batch := (cursor.next rows).1 } :: seen, final, ?_, congrArg Nat.succ length,
      poised.polled_cons ordered rest⟩
    simp only [poll, answered, keeps.rows found]
    change (do
      let __x ← (cursor.next rows).2.poll later
      pure (Sighting.mk cursor rows (cursor.next rows).1 :: __x.1, __x.2)) = _
    rw [polled]
    rfl

/-- **A drain is one question without batches.** Take an index of either kind that keeps some rows for a container,
and a cursor over it in any order, with any filter, offset and limit and any size of batch. The drain ends after no
more batches than there are rows and one, and yields just what the index answers to one question for all of it; the
size of the batches does not matter. Ask for the batches in whatever worlds in which the rows of this container are
the same: the batches in their order make up the same answer, none is larger than the size of a batch, no sum that
the cursor takes exceeds the number of rows or its limit, and behind an empty batch come empty batches only. -/
theorem drain_eq_select (limits : Limits) (container : String) (options : ListOptions) (size : Nat) {w : World}
    {rows : List IndexEntry} (presents : w.Presents container rows) :
    let cursor := start limits container options size
    let query : IndexQuery := { offset := options.offset, limit := options.limit, sort := options.sort
                                memberType := options.memberType }
    w.index.perform (.select container query) = (.ok (query.answer rows), w.index) ∧
      (∀ batches, rows.length < batches →
        (Repository.drainWithin batches cursor).run.run none w = (.ok (query.answer rows), w)) ∧
      (rows.length < Repository.drainBatches →
        (Repository.drain cursor).run.run none w = (.ok (query.answer rows), w)) ∧
      ∀ worlds : List World, (∀ v ∈ worlds, v.Presents container rows) →
        ∃ seen final, cursor.poll worlds = .ok (seen, final) ∧ seen.length = worlds.length ∧
          yields seen <+: query.answer rows ∧
          (rows.length < worlds.length → yields seen = query.answer rows ∧ final.isExhausted = true) ∧
          (∀ s ∈ seen, s.Fits ∧ s.rows = rows ∧
            s.cursor.batchSize = max (if size = 0 then limits.cursorBatchSize else size) 1) ∧
          seen.Pairwise fun s t => s.batch = [] → t.batch = [] := by
  intro cursor query
  obtain ⟨clean, held, keeps, found⟩ := presents
  have ordered := keeps.ordered found
  have poised : cursor.Poised rows := poised_start limits container options size rows
  have all : cursor.left rows = query.answer rows := left_start limits container options size rows
  have within : (query.answer rows).length ≤ rows.length := by
    rw [← all]
    exact (Nat.le_add_left _ _).trans poised.counted
  have drains : ∀ batches, rows.length < batches →
      (Repository.drainWithin batches cursor).run.run none w = (.ok (query.answer rows), w) := by
    intro batches enough
    have ends : (Repository.drainWithin batches cursor).Succeeds w _ :=
      Repository.succeeds_drainWithin clean keeps found batches
    obtain ⟨_, _, drained, rfl, rfl⟩ := ends
    rw [poised.drained ordered (all ▸ within.trans_lt enough), all] at drained
    exact drained
  refine ⟨keeps.select found query, drains, drains _, ?_⟩
  intro worlds presents
  obtain ⟨seen, final, polled, length, told⟩ := poised.polled ordered presents
  refine ⟨seen, final, polled, length, ?_, ?_, ?_, told.quiet⟩
  · exact ⟨final.left rows, all ▸ told.parts.symm⟩
  · intro enough
    have exhausted := told.ends (all ▸ length ▸ within.trans_lt enough)
    have parts := told.parts
    rw [left_of_done (isExhausted_iff.1 exhausted), List.append_nil, all] at parts
    exact ⟨parts.symm, exhausted⟩
  · intro s mem
    obtain ⟨fits, same, here⟩ := told.fits s mem
    exact ⟨fits, here, same⟩

/-- The rows of the sample partition. -/
def sampleListed : List IndexEntry :=
  let row (memberId : String) (type : MemberType) (seq : Nat) : IndexEntry :=
    { containerId := "a", memberId, type, insertedAt := Time.Instant.epoch, seq }
  [row "1" .resource 1, row "2" .resource 2, row "sub" .container 3, row "3" .resource 4, row "4" .resource 5,
    row "5" .resource 6]

/-- Documents with the last first, without the first of them and four at most, in batches of two. -/
theorem sampleRows_newest_first :
    let w : World := { (default : World) with index := Index.empty.after sampleRows }
    let options : ListOptions := { offset := 1, limit := some 4, sort := .newestFirst, memberType := some .resource }
    let cursor := start {} "a" options 2
    let query : IndexQuery := { offset := 1, limit := some 4, sort := .newestFirst, memberType := some .resource }
    w.Presents "a" sampleListed ∧
      (Repository.drain cursor).run.run none w = (.ok (query.answer sampleListed), w) ∧
      (query.answer sampleListed).map IndexEntry.memberId = ["4", "3", "2", "1"] ∧
      ∃ seen final, cursor.poll (List.replicate 7 w) = .ok (seen, final) ∧ yields seen = query.answer sampleListed ∧
        (∀ s ∈ seen, s.Fits ∧ s.cursor.batchSize = 2) ∧ final.isExhausted = true := by
  intro w options cursor query
  obtain ⟨_, m, same, wf, -⟩ := Index.lists_empty.after sampleRows
  have keeps : w.index.Keeps m.catalogue := by
    change (Index.empty.after sampleRows).Keeps m.catalogue
    rw [same]
    exact Index.Keeps.memory wf
  have present : m.catalogue.contains "a" = true := by
    have asked : ((Index.empty.after sampleRows).perform (.hasPartition "a")).1 = .ok true := by decide +kernel
    rw [same] at asked
    rw [MemoryIndex.contains_catalogue]
    exact Except.ok.inj asked
  obtain ⟨rows, found⟩ : ∃ rows, m.catalogue["a"]? = some rows := by
    rwa [Std.ExtTreeMap.contains_eq_isSome_getElem?, Option.isSome_iff_exists] at present
  have listed : w.index.rows "a" = .ok sampleListed := by decide +kernel
  obtain rfl : rows = sampleListed := Except.ok.inj ((keeps.rows found).symm.trans listed)
  have presents : w.Presents "a" sampleListed := ⟨rfl, m.catalogue, keeps, found⟩
  obtain ⟨-, -, drained, polled⟩ := drain_eq_select {} "a" options 2 presents
  obtain ⟨seen, final, seen_eq, -, -, whole, fits, -⟩ := polled (List.replicate 7 w) fun v mem =>
    List.eq_of_mem_replicate mem ▸ presents
  obtain ⟨answered, exhausted⟩ := whole (by decide)
  -- equally old rows come in reverse order
  have newest : sampleListed.reverse = SortOrder.newestFirst.arrange sampleListed :=
    SortOrder.newestFirst.eq_arrange (by decide) (by decide) (by decide +kernel) fun _ => List.mem_reverse
  have names : (query.answer sampleListed).map IndexEntry.memberId = ["4", "3", "2", "1"] := by
    rw [IndexQuery.answer, ← newest]
    decide +kernel
  refine ⟨presents, drained (by decide), names, seen, final, seen_eq, answered, ?_, exhausted⟩
  intro s mem
  obtain ⟨within, -, size⟩ := fits s mem
  exact ⟨within, size⟩

end Cursor

end Containment
