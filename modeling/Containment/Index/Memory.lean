/-
Module: Containment.Index.Memory
Purpose: A membership index in memory. A partition keeps its rows by their number and the number of each
  member's row, so that both listing in order and looking up a member are direct.
Main exports: Partition, MemoryIndex, MemoryIndex.perform
-/
import Containment.Index.Call

namespace Containment

open Time

/-- The rows of one container: rows by number, and the number of each member's row. -/
structure Partition where
  rows : Std.ExtTreeMap Nat IndexEntry := ∅
  seqOf : Std.ExtTreeMap String Nat := ∅
deriving Inhabited

namespace Partition

/-- The rows in the order of their insertion. -/
def entries (p : Partition) : List IndexEntry :=
  p.rows.values

/-- Add a row with a new number. -/
def add (p : Partition) (entry : IndexEntry) : Partition :=
  { rows := p.rows.insert entry.seq entry, seqOf := p.seqOf.insert entry.memberId entry.seq }

/-- Take the row of a member out, if there is one. -/
def remove (p : Partition) (memberId : String) : Bool × Partition :=
  match p.seqOf[memberId]? with
  | none => (false, p)
  | some seq => (true, { rows := p.rows.erase seq, seqOf := p.seqOf.erase memberId })

/-- Whether the first of two rows comes first when the newest comes first; of two equally old rows, the
later one does. -/
def newer (a b : IndexEntry) : Bool :=
  ((compare b.insertedAt a.insertedAt).then (compare b.seq a.seq)).isLE

/-- The rows in an order. -/
def sorted (p : Partition) : SortOrder → List IndexEntry
  | .insertion => p.entries
  | .newestFirst => p.entries.mergeSort newer
  | .memberId => p.entries.mergeSort fun a b => (compare a.memberId b.memberId).isLE

/-- Answer a question. -/
def select (p : Partition) (query : IndexQuery) : List IndexEntry :=
  query.window ((p.sorted query.sort).filter query.accepts)

/-- The first rows with a number above `after`. -/
def selectAfter (p : Partition) (after limit : Nat) (type : Option MemberType) : List IndexEntry :=
  (p.entries.filter fun e => after < e.seq && typePasses type e.type).take limit

/-- The number of rows of a kind. -/
def count (p : Partition) : Option MemberType → Nat
  | none => p.rows.size
  | some type => p.entries.countP (·.type == type)

end Partition

/-- Partitions by container, and the number that was given out last. -/
structure MemoryIndex where
  partitions : Std.ExtTreeMap String Partition := ∅
  lastSeq : Nat := 0
deriving Inhabited

namespace MemoryIndex

/-- The row of a member under the next number. -/
def nextEntry (ix : MemoryIndex) (container : String) (m : Member) : IndexEntry :=
  { containerId := container, memberId := m.id, type := m.type, insertedAt := m.addedAt
    seq := ix.lastSeq + 1 }

/-- The index with another partition of a container. -/
def put (ix : MemoryIndex) (container : String) (p : Partition) : MemoryIndex :=
  { ix with partitions := ix.partitions.insert container p }

/-- Start a partition. -/
def createPartition (ix : MemoryIndex) (container : String) : Except IndexError Unit × MemoryIndex :=
  if ix.partitions.contains container then (.error (.partitionExists container), ix)
  else (.ok (), ix.put container {})

/-- List a member in a partition. -/
def insert (ix : MemoryIndex) (container : String) (m : Member) :
    Except IndexError IndexEntry × MemoryIndex :=
  match ix.partitions[container]? with
  | none => (.error (.partitionNotFound container), ix)
  | some p =>
    if p.seqOf.contains m.id then (.error (.duplicateEntry container m.id), ix)
    else
      let entry := ix.nextEntry container m
      (.ok entry, { partitions := ix.partitions.insert container (p.add entry), lastSeq := entry.seq })

/-- Strike a member off a partition. -/
def remove (ix : MemoryIndex) (container memberId : String) : Except IndexError Bool × MemoryIndex :=
  match ix.partitions[container]? with
  | none => (.error (.partitionNotFound container), ix)
  | some p =>
    let (found, p) := p.remove memberId
    (.ok found, ix.put container p)

/-- Number the members of a new partition one after the other. A repeated member ends it; the numbers
given out by then are not given out again. -/
def fill (container : String) : List Member → Partition → MemoryIndex →
    Except IndexError Partition × MemoryIndex
  | [], p, ix => (.ok p, ix)
  | m :: rest, p, ix =>
    if p.seqOf.contains m.id then (.error (.duplicateEntry container m.id), ix)
    else
      let entry := ix.nextEntry container m
      fill container rest (p.add entry) { ix with lastSeq := entry.seq }

/-- Give a container a partition with just these members, whether it had one or not. -/
def replacePartition (ix : MemoryIndex) (container : String) (members : List Member) :
    Except IndexError Unit × MemoryIndex :=
  match fill container members {} ix with
  | (.ok p, ix) => (.ok (), ix.put container p)
  | (.error e, ix) => (.error e, ix)

/-- Ask an existing partition. -/
def ask {α : Type} (ix : MemoryIndex) (container : String) (question : Partition → α) :
    Except IndexError α :=
  match ix.partitions[container]? with
  | none => .error (.partitionNotFound container)
  | some p => .ok (question p)

/-- Answer a request. -/
def perform (ix : MemoryIndex) : (call : IndexCall) → Except IndexError call.Answer × MemoryIndex
  | .createPartition c => ix.createPartition c
  | .dropPartition c =>
      (.ok (ix.partitions.contains c), { ix with partitions := ix.partitions.erase c })
  | .hasPartition c => (.ok (ix.partitions.contains c), ix)
  | .partitions => (.ok ix.partitions.keys, ix)
  | .insert c m => ix.insert c m
  | .remove c id => ix.remove c id
  | .contains c id => (.ok (ix.partitions[c]?.any (·.seqOf.contains id)), ix)
  | .count c type => (ix.ask c (·.count type), ix)
  | .select c query => (ix.ask c (·.select query), ix)
  | .selectAfter c after limit type => (ix.ask c (·.selectAfter after limit type), ix)
  | .replacePartition c members => ix.replacePartition c members

end MemoryIndex

end Containment
