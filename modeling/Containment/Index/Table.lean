/-
Module: Containment.Index.Table
Purpose: A membership index in a database with one table of rows for all containers. A row holds the
  member's kind as text and its time in whole milliseconds, so a row that was changed from outside may
  not stand for any entry; every request is one transaction.
Main exports: TableRow, TableIndex, TableRow.decode, TableIndex.perform
-/
import Containment.Index.Call
import Std.Data.ExtTreeSet

namespace Containment

open Time

/-- A row of the table. -/
structure TableRow where
  seq : Int
  containerId : String
  memberId : String
  memberType : String
  insertedAtMs : Int
deriving Repr, DecidableEq, Inhabited

namespace TableRow

/-- The entry that a row stands for. -/
def decode (row : TableRow) : Except IndexError IndexEntry := do
  let type ← (MemberType.parse row.memberType).mapError fun fault =>
    .corrupt (.unknownMemberType row.seq fault)
  let some insertedAt := Instant.ofMillis? row.insertedAtMs
    | throw (.corrupt (.badTimestamp row.seq row.insertedAtMs))
  if row.seq < 0 then throw (.corrupt (.negativeSeq row.seq))
  pure
    { containerId := row.containerId, memberId := row.memberId, type, insertedAt
      seq := row.seq.toNat }

/-- The row of a member: its time loses what is below a millisecond. -/
def ofMember (container : String) (m : Member) (seq : Int) : TableRow :=
  { seq, containerId := container, memberId := m.id, memberType := m.type.name
    insertedAtMs := m.addedAt.toMillis }

/-- Whether the row's text is the name of a kind. Other spellings of it do not count. -/
def hasType (wanted : Option MemberType) (row : TableRow) : Bool :=
  wanted.all (·.name == row.memberType)

/-- Whether the first of two rows comes first when the newest comes first. -/
def newer (a b : TableRow) : Bool :=
  ((compare b.insertedAtMs a.insertedAtMs).then (compare b.seq a.seq)).isLE

end TableRow

/-- The containers with a partition, the rows by number, and the highest number ever committed by an
insertion. -/
structure TableIndex where
  partitions : Std.ExtTreeSet String := ∅
  rows : Std.ExtTreeMap Int TableRow := ∅
  lastSeq : Int := 0
deriving Inhabited

namespace TableIndex

/-- The largest row number. -/
def maxSeq : Int := 0x7fffffffffffffff

/-- The number of the next row: above all rows there are and all that there were. -/
def nextSeq (t : TableIndex) : Int :=
  max t.lastSeq (t.rows.maxKey?.getD 0) + 1

/-- The rows of a container in the order of their numbers. -/
def rowsOf (t : TableIndex) (container : String) : List TableRow :=
  t.rows.values.filter (·.containerId == container)

/-- Whether a member has a row. -/
def hasRow (t : TableIndex) (container memberId : String) : Bool :=
  (t.rowsOf container).any (·.memberId == memberId)

/-- The table without the rows that a condition names. -/
def dropRows (t : TableIndex) (condition : TableRow → Bool) : TableIndex :=
  { t with rows := t.rows.filter fun _ row => !condition row }

/-- Add a row. -/
def insertRow (t : TableIndex) (container : String) (m : Member) :
    Except IndexError (IndexEntry × TableIndex) :=
  if t.hasRow container m.id then .error (.duplicateEntry container m.id)
  else if maxSeq < t.nextSeq then .error (.database .full)
  else
    let row := TableRow.ofMember container m t.nextSeq
    row.decode.map fun entry =>
      (entry, { t with rows := t.rows.insert row.seq row, lastSeq := row.seq })

/-- The rows in an order. -/
def sorted (t : TableIndex) (container : String) : SortOrder → List TableRow
  | .insertion => t.rowsOf container
  | .newestFirst => (t.rowsOf container).mergeSort TableRow.newer
  | .memberId => (t.rowsOf container).mergeSort fun a b => (compare a.memberId b.memberId).isLE

/-- Answer only about a container with a partition. -/
def ask {α : Type} (t : TableIndex) (container : String) (answer : Except IndexError α) :
    Except IndexError α :=
  if t.partitions.contains container then answer else .error (.partitionNotFound container)

/-- Do all of a transaction or nothing. -/
def commit {α : Type} (t : TableIndex) (outcome : Except IndexError (α × TableIndex)) :
    Except IndexError α × TableIndex :=
  match outcome with
  | .ok (answer, t') => (.ok answer, t')
  | .error e => (.error e, t)

/-- Add the rows of several members. -/
def insertRows (t : TableIndex) (container : String) : List Member → Except IndexError TableIndex
  | [] => .ok t
  | m :: rest => do
    let (_, t) ← t.insertRow container m
    insertRows t container rest

/-- Give a container a partition with just these members, whether it had one or not. -/
def replacePartition (t : TableIndex) (container : String) (members : List Member) :
    Except IndexError (Unit × TableIndex) := do
  let cleared := t.dropRows (·.containerId == container)
  let seeded := { cleared with partitions := cleared.partitions.insert container }
  let filled ← seeded.insertRows container members
  pure ((), filled)

/-- Answer a request. -/
def perform (t : TableIndex) : (call : IndexCall) → Except IndexError call.Answer × TableIndex
  | .createPartition c =>
      if t.partitions.contains c then (.error (.partitionExists c), t)
      else (.ok (), { t with partitions := t.partitions.insert c })
  | .dropPartition c =>
      (.ok (t.partitions.contains c),
        { t.dropRows (·.containerId == c) with partitions := t.partitions.erase c })
  | .hasPartition c => (.ok (t.partitions.contains c), t)
  | .partitions => (.ok t.partitions.toList, t)
  | .insert c m => t.commit (t.ask c (t.insertRow c m))
  | .remove c id =>
      t.commit (t.ask c (.ok (t.hasRow c id,
        t.dropRows fun row => row.containerId == c && row.memberId == id)))
  | .contains c id => (.ok (t.hasRow c id), t)
  | .count c type => (t.ask c (.ok ((t.rowsOf c).countP (TableRow.hasType type))), t)
  | .select c query =>
      (t.ask c ((query.window ((t.sorted c query.sort).filter
        (TableRow.hasType query.memberType))).mapM TableRow.decode), t)
  | .selectAfter c after limit type =>
      (t.ask c ((((t.rowsOf c).filter fun row => decide ((after : Int) < row.seq) && row.hasType type).take
        limit).mapM TableRow.decode), t)
  | .replacePartition c members => t.commit (t.replacePartition c members)

/-- Change a row from outside: every row of the member is replaced by what `change` makes of it.
The answer is the number of rows changed. -/
def alter (t : TableIndex) (container memberId : String) (change : TableRow → TableRow) :
    Nat × TableIndex :=
  let chosen (row : TableRow) : Bool := row.containerId == container && row.memberId == memberId
  let changed := t.rows.values.filter chosen
  (changed.length,
    { t with
      rows := changed.foldl (fun rows row => rows.insert (change row).seq (change row))
        (t.dropRows chosen).rows })

end TableIndex

end Containment
