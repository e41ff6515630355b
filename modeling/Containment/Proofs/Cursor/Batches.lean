/-
Module: Containment.Proofs.Cursor.Batches
Purpose: What a cursor of any order yields, told from the rows that the index keeps for its container: the next batch with
  the cursor after it, and all that some batches yield. Undisturbed, a cursor is always answered and changes nothing.
Main exports: Cursor.fetched, Cursor.next, Cursor.drained, Repository.succeeds_nextBatch,
  Repository.succeeds_drainWithin
-/
import Containment.Proofs.Index.Keeping
import Containment.Proofs.Undisturbed
import Containment.Repository.Cursor

namespace Containment

namespace Cursor

/-- The rows of a cursor's next batch. -/
def fetched (cursor : Cursor) (rows : List IndexEntry) : List IndexEntry :=
  match cursor.position with
  | .start => (cursor.window cursor.options.offset).answer rows
  | .atOffset offset => (cursor.window offset).answer rows
  | .afterSeq seq => IndexEntry.following seq cursor.take cursor.options.memberType rows
  | .done => []

/-- The next batch, and the cursor after it. -/
def next (cursor : Cursor) (rows : List IndexEntry) : List IndexEntry × Cursor :=
  if cursor.isExhausted then ([], cursor)
  else if cursor.take = 0 then ([], { cursor with position := .done })
  else (cursor.fetched rows, cursor.advance (cursor.fetched rows))

/-- What so many batches yield. -/
def drained : Nat → Cursor → List IndexEntry → List IndexEntry
  | 0, _, _ => []
  | batches + 1, cursor, rows =>
    let (batch, cursor) := cursor.next rows
    if batch.isEmpty then [] else batch ++ drained batches cursor rows

theorem container_next (cursor : Cursor) (rows : List IndexEntry) :
    (cursor.next rows).2.container = cursor.container := by
  rw [Cursor.next]
  split
  · rfl
  · split <;> rfl

end Cursor

namespace Repository

open Containment.Action

variable {w : World} {held : Catalogue} {rows : List IndexEntry} {cursor : Cursor}

theorem succeeds_fetchHeld (clean : w.faults = []) (keeps : w.index.Keeps held)
    (found : held[cursor.container]? = some rows) :
    (fetchHeld cursor).Succeeds w fun batch w' => batch = cursor.fetched rows ∧ w' = w := by
  simp only [fetchHeld, fetch, Cursor.fetched]
  cases cursor.position with
  | start =>
    apply succeeds_tryIndex_bind clean (keeps.select found _)
    exact succeeds_pure ⟨rfl, rfl⟩
  | atOffset offset =>
    apply succeeds_tryIndex_bind clean (keeps.select found _)
    exact succeeds_pure ⟨rfl, rfl⟩
  | afterSeq seq =>
    apply succeeds_tryIndex_bind clean (keeps.selectAfter found _ _ _)
    exact succeeds_pure ⟨rfl, rfl⟩
  | done => exact succeeds_pure ⟨rfl, rfl⟩

theorem succeeds_nextBatch (clean : w.faults = []) (keeps : w.index.Keeps held)
    (found : held[cursor.container]? = some rows) :
    (nextBatch cursor).Succeeds w fun got w' => got = cursor.next rows ∧ w' = w := by
  simp only [nextBatch, Cursor.next]
  split
  · exact succeeds_pure ⟨rfl, rfl⟩
  · split
    · exact succeeds_pure ⟨rfl, rfl⟩
    · apply (succeeds_fetchHeld clean keeps found).withLock.bind
      rintro _ _ ⟨rfl, rfl⟩
      exact succeeds_pure ⟨rfl, rfl⟩

theorem succeeds_drainWithin (clean : w.faults = []) (keeps : w.index.Keeps held)
    (found : held[cursor.container]? = some rows) (batches : Nat) :
    (drainWithin batches cursor).Succeeds w fun entries w' => entries = cursor.drained batches rows ∧ w' = w := by
  induction batches generalizing cursor with
  | zero => exact succeeds_pure ⟨rfl, rfl⟩
  | succ batches ih =>
    simp only [drainWithin, Cursor.drained]
    apply (succeeds_nextBatch clean keeps found).bind
    rintro _ _ ⟨rfl, rfl⟩
    split
    · exact succeeds_pure ⟨rfl, rfl⟩
    · apply (ih (cursor.container_next rows ▸ found)).bind
      rintro _ _ ⟨rfl, rfl⟩
      exact succeeds_pure ⟨rfl, rfl⟩

end Repository

end Containment
