/-
Module: Containment.Proofs.Cursor.Numbers
Purpose: What readers see of the numbers of rows: nothing but their order. Two lists of rows that repeat the same members
  under numbers that go up give the same counts, and the same pages but for the numbers, and so does a cursor that
  remembers no number yet. A cursor that remembers a number below all of them begins again with the first row.
Main exports: IndexEntry.unnumbered, IndexEntry.Repeats, IndexEntry.Repeats.answer, Cursor.drained_renumber,
  IndexEntry.Repeats.drained, Cursor.drained_of_below
-/
import Containment.Proofs.Cursor.Batches

namespace Containment

namespace IndexEntry

/-- A row without its number. -/
def unnumbered (row : IndexEntry) : IndexEntry :=
  { row with seq := 0 }

@[simp]
theorem map_unnumbered_renumber (ρ : Nat → Nat) (rows : List IndexEntry) :
    (rows.map (renumber ρ)).map unnumbered = rows.map unnumbered := by
  rw [List.map_map]
  rfl

/-- The rows of members, numbered by their places. -/
def placed (container : String) (members : List Member) : List IndexEntry :=
  members.mapIdx fun place m => ofMember container m place

/-- The number of the row at a place. Beyond the last row the numbers go on above all of them. -/
def numberAt (rows : List IndexEntry) (place : Nat) : Nat :=
  (rows[place]?.map seq).getD (rows.getLast?.elim 0 seq + 1 + place)

/-- Rows of one container in the order of their numbers, one for each of these members. -/
structure Repeats (container : String) (members : List Member) (rows : List IndexEntry) : Prop where
  ordered : rows.Pairwise fun a b => a.seq < b.seq
  own : ∀ row ∈ rows, row.containerId = container
  members : rows.map toMember = members

variable {container : String} {members : List Member} {rows rows' : List IndexEntry}

theorem strictMono_numberAt (ordered : rows.Pairwise fun a b => a.seq < b.seq) : StrictMono (numberAt rows) := by
  apply strictMono_nat_of_lt_succ
  intro place
  by_cases inside : place < rows.length
  · have here : rows[place]? = some rows[place] := List.getElem?_eq_getElem inside
    by_cases more : place + 1 < rows.length
    · have there : rows[place + 1]? = some rows[place + 1] := List.getElem?_eq_getElem more
      rw [numberAt, numberAt, here, there]
      exact List.pairwise_iff_getElem.1 ordered place (place + 1) inside more (Nat.lt_succ_self place)
    · have beyond : rows[place + 1]? = none := List.getElem?_eq_none (Nat.le_of_not_lt more)
      have length : rows.length - 1 = place := by omega
      have last : rows.getLast? = some rows[place] := by rw [List.getLast?_eq_getElem?, length, here]
      rw [numberAt, numberAt, here, beyond, last, Option.map_some, Option.getD_some, Option.map_none, Option.getD_none,
        Option.elim_some]
      omega
  · have here : rows[place]? = none := List.getElem?_eq_none (Nat.le_of_not_lt inside)
    have there : rows[place + 1]? = none := List.getElem?_eq_none (by omega)
    rw [numberAt, numberAt, here, there, Option.map_none, Option.getD_none, Option.getD_none]
    omega

/-- Such rows are those of the places under other numbers in the same order. -/
theorem Repeats.renumber_placed (repeats : Repeats container members rows) :
    (placed container members).map (renumber (numberAt rows)) = rows := by
  apply List.ext_getElem?
  intro place
  rw [placed, List.getElem?_map, List.getElem?_mapIdx, ← repeats.members, List.getElem?_map]
  cases found : rows[place]? with
  | none => rfl
  | some row =>
    have number : numberAt rows place = row.seq := by rw [numberAt, found, Option.map_some, Option.getD_some]
    have own := repeats.own row (List.mem_of_getElem? found)
    simp only [Option.map_some, ofMember_renumber, number]
    rw [← own]
    rfl

theorem Repeats.answer_eq (repeats : Repeats container members rows) (query : IndexQuery) :
    query.answer rows = (query.answer (placed container members)).map (renumber (numberAt rows)) := by
  have answered := query.answer_renumber (strictMono_numberAt repeats.ordered) (placed container members)
  rwa [repeats.renumber_placed] at answered

/-- Pages differ in the numbers of their rows only. -/
theorem Repeats.answer (repeats : Repeats container members rows) (repeats' : Repeats container members rows')
    (query : IndexQuery) : (query.answer rows').map unnumbered = (query.answer rows).map unnumbered := by
  rw [repeats.answer_eq query, repeats'.answer_eq query, map_unnumbered_renumber, map_unnumbered_renumber]

theorem Repeats.countP (repeats : Repeats container members rows) (repeats' : Repeats container members rows')
    (type : Option MemberType) : (rows'.countP fun row => typePasses type row.type) =
      rows.countP fun row => typePasses type row.type := by
  have counted : ∀ {rows}, Repeats container members rows →
      (rows.countP fun row => typePasses type row.type) = members.countP fun m => typePasses type m.type := by
    intro rows repeats
    rw [← repeats.members, List.countP_map]
    rfl
  rw [counted repeats, counted repeats']

end IndexEntry

namespace Cursor

open IndexEntry

/-- The cursor with another number, where it remembers one. -/
def renumber (ρ : Nat → Nat) (cursor : Cursor) : Cursor :=
  { cursor with
    position := match cursor.position with
      | .afterSeq seq => .afterSeq (ρ seq)
      | position => position }

/-- The cursor remembers the number of a row. -/
def IsNumbered (cursor : Cursor) : Prop :=
  ∃ seq, cursor.position = .afterSeq seq

/-- The cursor back at the first row. What it has yielded so far still counts towards its limit. -/
def restarted (cursor : Cursor) : Cursor :=
  { cursor with options := { cursor.options with offset := 0 }, position := .start }

variable {cursor : Cursor} {rows : List IndexEntry} {ρ : Nat → Nat}

theorem not_isNumbered_restarted : ¬ cursor.restarted.IsNumbered := by
  intro numbered
  obtain ⟨seq, impossible⟩ := numbered
  cases impossible

theorem renumber_of_not_isNumbered (unnumbered : ¬ cursor.IsNumbered) (ρ : Nat → Nat) :
    cursor.renumber ρ = cursor := by
  rcases cursor with ⟨container, options, batchSize, position, yielded⟩
  cases position with
  | afterSeq seq => exact absurd ⟨seq, rfl⟩ unnumbered
  | start | atOffset offset | done => rfl

theorem fetched_renumber (up : StrictMono ρ) (cursor : Cursor) (rows : List IndexEntry) :
    (cursor.renumber ρ).fetched (rows.map (IndexEntry.renumber ρ)) =
      (cursor.fetched rows).map (IndexEntry.renumber ρ) := by
  rcases cursor with ⟨container, options, batchSize, position, yielded⟩
  cases position with
  | start | atOffset offset => exact IndexQuery.answer_renumber up _ rows
  | afterSeq seq => exact following_renumber up seq _ _ rows
  | done => rfl

/-- A batch that was asked for moves a cursor in the same way under other numbers. -/
theorem advance_renumber (cursor : Cursor) (batch : List IndexEntry) (asked : cursor.take ≠ 0) :
    (cursor.renumber ρ).advance (batch.map (IndexEntry.renumber ρ)) = (cursor.advance batch).renumber ρ := by
  have take : (cursor.renumber ρ).take = cursor.take := rfl
  by_cases short : batch.length < cursor.take
  · simp only [advance, take, List.length_map, if_pos short]
    rfl
  · have last : ∃ row, batch.getLast? = some row := by
      cases batch with
      | nil => exact absurd (Nat.pos_of_ne_zero asked) short
      | cons row rest => exact ⟨_, List.getLast?_cons⟩
    obtain ⟨row, last⟩ := last
    simp only [advance, take, List.length_map, if_neg short, List.getLast?_map, last, Option.map_some, Option.getD_some]
    rcases cursor with ⟨container, options, batchSize, position, yielded⟩
    rcases options with ⟨offset, limit, sort, type⟩
    cases sort with
    | insertion => rfl
    | newestFirst | memberId => cases position <;> rfl

theorem next_renumber (up : StrictMono ρ) (cursor : Cursor) (rows : List IndexEntry) :
    (cursor.renumber ρ).next (rows.map (IndexEntry.renumber ρ)) =
      ((cursor.next rows).1.map (IndexEntry.renumber ρ), (cursor.next rows).2.renumber ρ) := by
  have exhausted : (cursor.renumber ρ).isExhausted = cursor.isExhausted := by
    rcases cursor with ⟨container, options, batchSize, position, yielded⟩
    cases position <;> rfl
  have take : (cursor.renumber ρ).take = cursor.take := rfl
  rw [next, next, exhausted, take]
  by_cases spent : cursor.isExhausted = true
  · rw [if_pos spent, if_pos spent]
    rfl
  · rw [if_neg spent, if_neg spent]
    by_cases asked : cursor.take = 0
    · rw [if_pos asked, if_pos asked]
      rfl
    · rw [if_neg asked, if_neg asked, fetched_renumber up, advance_renumber cursor _ asked]

/-- What a cursor yields keeps its order when all numbers do. -/
theorem drained_renumber (up : StrictMono ρ) (batches : Nat) (cursor : Cursor) (rows : List IndexEntry) :
    (cursor.renumber ρ).drained batches (rows.map (IndexEntry.renumber ρ)) =
      (cursor.drained batches rows).map (IndexEntry.renumber ρ) := by
  induction batches generalizing cursor with
  | zero => rfl
  | succ batches ih =>
    simp only [drained, next_renumber up, List.isEmpty_map]
    by_cases spent : (cursor.next rows).1.isEmpty = true
    · rw [if_pos spent, if_pos spent]
      rfl
    · rw [if_neg spent, if_neg spent, ih, List.map_append]

/-! ### A cursor that falls behind all rows -/

/-- The cursor with another number of rows to leave out at its beginning. -/
def skipping (cursor : Cursor) (offset : Nat) : Cursor :=
  { cursor with options := { cursor.options with offset } }

theorem advance_skipping (sorted : cursor.options.sort = .insertion) (offset : Nat) (batch : List IndexEntry) :
    (cursor.skipping offset).advance batch = (cursor.advance batch).skipping offset := by
  rcases cursor with ⟨container, ⟨offset', limit, sort, type⟩, batchSize, position, yielded⟩
  cases sorted
  rfl

theorem next_skipping (sorted : cursor.options.sort = .insertion) (begun : cursor.position ≠ .start) (offset : Nat)
    (rows : List IndexEntry) : (cursor.skipping offset).next rows =
      ((cursor.next rows).1, (cursor.next rows).2.skipping offset) := by
  have fetched : (cursor.skipping offset).fetched rows = cursor.fetched rows := by
    rcases cursor with ⟨container, options, batchSize, position, yielded⟩
    cases position with
    | start => exact absurd rfl begun
    | afterSeq seq | atOffset from' | done => rfl
  have exhausted : (cursor.skipping offset).isExhausted = cursor.isExhausted := rfl
  have take : (cursor.skipping offset).take = cursor.take := rfl
  rw [next, next, exhausted, take, fetched, advance_skipping sorted]
  split
  · rfl
  · split <;> rfl

/-- A batch does not bring a cursor in insertion order back to its beginning. -/
theorem begun_advance (sorted : cursor.options.sort = .insertion) (batch : List IndexEntry) :
    (cursor.advance batch).position ≠ .start := by
  simp only [advance, sorted]
  split
  · intro impossible
    cases impossible
  · intro impossible
    cases impossible

theorem begun_next (sorted : cursor.options.sort = .insertion) (begun : cursor.position ≠ .start)
    (rows : List IndexEntry) :
    (cursor.next rows).2.options.sort = .insertion ∧ (cursor.next rows).2.position ≠ .start := by
  rw [next]
  split
  · exact ⟨sorted, begun⟩
  · split
    · refine ⟨sorted, fun impossible => ?_⟩
      cases impossible
    · exact ⟨sorted, begun_advance sorted _⟩

/-- Once a cursor in insertion order has begun, it does not matter how many rows it left out at its beginning. -/
theorem drained_skipping (sorted : cursor.options.sort = .insertion) (begun : cursor.position ≠ .start) (offset : Nat)
    (batches : Nat) (rows : List IndexEntry) :
    (cursor.skipping offset).drained batches rows = cursor.drained batches rows := by
  induction batches generalizing cursor with
  | zero => rfl
  | succ batches ih =>
    obtain ⟨sorted', begun'⟩ := begun_next sorted begun rows
    simp only [drained, next_skipping sorted begun, ih sorted' begun']

/-- A cursor in insertion order begins again with the first row if it remembers a number below all of them. -/
theorem drained_of_below (sorted : cursor.options.sort = .insertion) {seq : Nat}
    (reached : cursor.position = .afterSeq seq) (below : ∀ row ∈ rows, seq < row.seq) (batches : Nat) :
    cursor.drained batches rows = cursor.restarted.drained batches rows := by
  have fetched : cursor.restarted.fetched rows = cursor.fetched rows := by
    have all : rows.filter (fun row => seq < row.seq && typePasses cursor.options.memberType row.type) =
        rows.filter fun row => typePasses cursor.options.memberType row.type := by
      apply List.filter_congr
      intro row mem
      rw [decide_eq_true (below row mem), Bool.true_and]
    rcases cursor with ⟨container, ⟨offset, limit, sort, type⟩, batchSize, position, yielded⟩
    cases sorted
    cases reached
    simp only [Cursor.fetched, restarted, following, all]
    rfl
  cases batches with
  | zero => rfl
  | succ batches =>
    have going : cursor.isExhausted = false := by
      rw [isExhausted, reached]
      rfl
    have advanced : ∀ batch, cursor.restarted.advance batch = (cursor.advance batch).skipping 0 := by
      intro batch
      rcases cursor with ⟨container, ⟨offset, limit, sort, type⟩, batchSize, position, yielded⟩
      cases sorted
      rfl
    have going' : cursor.restarted.isExhausted = false := rfl
    have take : cursor.restarted.take = cursor.take := rfl
    by_cases asked : cursor.take = 0
    · simp only [drained, next, going, going', take, if_pos asked, Bool.false_eq_true, if_false, List.isEmpty_nil,
        if_true]
    · have stays : ∀ batch, (cursor.advance batch).options.sort = .insertion := fun _ => sorted
      simp only [drained, next, going, going', take, if_neg asked, Bool.false_eq_true, if_false, fetched, advanced,
        drained_skipping (stays _) (begun_advance sorted _)]

end Cursor

/-- What a cursor yields that remembers no number differs in the numbers of rows only. -/
theorem IndexEntry.Repeats.drained {container : String} {members : List Member} {rows rows' : List IndexEntry}
    (repeats : Repeats container members rows) (repeats' : Repeats container members rows') {cursor : Cursor}
    (unnumbered : ¬ cursor.IsNumbered) (batches : Nat) :
    (cursor.drained batches rows').map IndexEntry.unnumbered =
      (cursor.drained batches rows).map IndexEntry.unnumbered := by
  have drained : ∀ {rows}, Repeats container members rows → cursor.drained batches rows =
      (cursor.drained batches (placed container members)).map (renumber (numberAt rows)) := by
    intro rows repeats
    have ordered := strictMono_numberAt repeats.ordered
    have moved := Cursor.drained_renumber ordered batches cursor (placed container members)
    rwa [repeats.renumber_placed, Cursor.renumber_of_not_isNumbered unnumbered] at moved
  rw [drained repeats, drained repeats', map_unnumbered_renumber, map_unnumbered_renumber]

end Containment
