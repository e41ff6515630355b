/-
Module: Containment.Repository.Cursor
Purpose: Reading the members of a container batch by batch. A cursor in insertion order remembers the
  number of the last row, so that changes behind it do not shift it; in other orders it counts rows.
Main exports: Cursor, Cursor.start, nextBatch, drain
-/
import Containment.Program
import Containment.Repository.Options
import Containment.Text.Quoted

namespace Containment

open Text

/-- How far a cursor has come. -/
inductive Cursor.Position where
  | start
  | afterSeq (seq : Nat)
  | atOffset (offset : Nat)
  | done
deriving Repr, DecidableEq, Inhabited

/-- A reader of a container's members. -/
structure Cursor where
  container : String
  options : ListOptions
  batchSize : Nat
  position : Cursor.Position := .start
  yielded : Nat := 0
deriving Repr, DecidableEq, Inhabited

namespace Cursor

/-- A cursor at the beginning. A batch size of zero stands for the usual one; no batch is smaller than
one. -/
def start (limits : Limits) (container : String) (options : ListOptions) (batchSize : Nat) : Cursor :=
  { container, options
    batchSize := max (if batchSize = 0 then limits.cursorBatchSize else batchSize) 1 }

/-- Whether nothing is left to read. -/
def isExhausted (cursor : Cursor) : Bool :=
  cursor.position == .done

/-- The size of the next batch: less than a full one only if the caller's limit is near. -/
def take (cursor : Cursor) : Nat :=
  match cursor.options.limit with
  | none => cursor.batchSize
  | some limit => min cursor.batchSize (limit - cursor.yielded)

/-- The question for the window of the next batch in an order without numbers. -/
def window (cursor : Cursor) (offset : Nat) : IndexQuery :=
  { offset, limit := some cursor.take, sort := cursor.options.sort
    memberType := cursor.options.memberType }

/-- The cursor after a batch. A batch that is not full is the last one. -/
def advance (cursor : Cursor) (batch : List IndexEntry) : Cursor :=
  let position : Position :=
    if batch.length < cursor.take then .done
    else
      match cursor.options.sort, cursor.position with
      | .insertion, _ => .afterSeq ((batch.getLast?.map IndexEntry.seq).getD 0)
      | _, .atOffset offset => .atOffset (offset + batch.length)
      | _, _ => .atOffset (cursor.options.offset + batch.length)
  { cursor with position, yielded := cursor.yielded + batch.length }

/-- The text of a position. -/
def Position.describe : Position → String
  | .start => "Start"
  | .afterSeq seq => s!"AfterSeq({seq})"
  | .atOffset offset => s!"AtOffset({offset})"
  | .done => "Done"

/-- The state of a cursor in one line. -/
def describe (cursor : Cursor) : String :=
  s!"MemberCursor \x7b container_id: {quoted cursor.container}, batch_size: {cursor.batchSize}, " ++
    s!"position: {cursor.position.describe}, yielded: {cursor.yielded} \x7d"

end Cursor

namespace Repository

open Containment.Action

/-- The rows of the next batch. -/
def fetch (cursor : Cursor) : Action (Except IndexError (List IndexEntry)) :=
  match cursor.position with
  | .start => tryIndex (.select cursor.container (cursor.window cursor.options.offset))
  | .atOffset offset => tryIndex (.select cursor.container (cursor.window offset))
  | .afterSeq seq =>
    tryIndex (.selectAfter cursor.container seq cursor.take cursor.options.memberType)
  | .done => pure (.ok [])

/-- The part of `nextBatch` that runs while the container is shared. -/
def fetchHeld (cursor : Cursor) : Action (List IndexEntry) := do
  match ← fetch cursor with
  | .ok batch => pure batch
  | .error (.partitionNotFound id) => throw (.notFound id)
  | .error e => throw (.index e)

/-- The next batch and the cursor after it. The batch is empty once nothing is left. -/
def nextBatch (cursor : Cursor) : Action (List IndexEntry × Cursor) := do
  if cursor.isExhausted then pure ([], cursor)
  else if cursor.take = 0 then pure ([], { cursor with position := .done })
  else
    let batch ← reading cursor.container (fetchHeld cursor)
    pure (batch, cursor.advance batch)

/-- All entries that at most `batches` batches yield. -/
def drainWithin : Nat → Cursor → Action (List IndexEntry)
  | 0, _ => pure []
  | batches + 1, cursor => do
    let (batch, cursor) ← nextBatch cursor
    if batch.isEmpty then pure []
    else
      let rest ← drainWithin batches cursor
      pure (batch ++ rest)

/-- More batches than an index can number rows. -/
def drainBatches : Nat := 0x10000000000000000

/-- All entries that a cursor yields. -/
def drain (cursor : Cursor) : Action (List IndexEntry) :=
  drainWithin drainBatches cursor

end Repository

end Containment
