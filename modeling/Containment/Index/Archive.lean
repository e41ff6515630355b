/-
Module: Containment.Index.Archive
Purpose: The database of a membership index as the bytes of a file: a mark, the highest number given out, the
  containers with a partition, and the rows.
Main exports: TableIndex.toBytes, TableIndex.ofBytes
-/
import Containment.Index.Table
import Containment.Record.Codec

namespace Containment

open Text

namespace Archive

/-- What every file begins with. The first byte is in no text, so that the file is never taken for one. -/
def mark : List UInt8 :=
  0xff :: Utf8.encode "membership index 1\n"

/-- A whole number of 64 bits. -/
def writeInteger (n : Int) : List UInt8 :=
  Codec.writeLong (n % 0x10000000000000000).toNat

/-- A whole number of 64 bits. -/
def readInteger : Codec.Reader Int := do
  let n ← Codec.readNumber 8
  pure (if n < 0x8000000000000000 then n else (n : Int) - 0x10000000000000000)

/-- A row. -/
def writeRow (row : TableRow) : List UInt8 :=
  writeInteger row.seq ++ Codec.writeText row.containerId ++ Codec.writeText row.memberId ++
    Codec.writeText row.memberType ++ writeInteger row.insertedAtMs

/-- A row. -/
def readRow : Codec.Reader TableRow := do
  let seq ← readInteger
  let containerId ← Codec.readText
  let memberId ← Codec.readText
  let memberType ← Codec.readText
  let insertedAtMs ← readInteger
  pure { seq, containerId, memberId, memberType, insertedAtMs }

/-- What follows the mark. -/
def readBody : Codec.Reader TableIndex := do
  let lastSeq ← readInteger
  let partitions ← Codec.readList Codec.readText
  let rows ← Codec.readList readRow
  pure
    { lastSeq
      partitions := Std.ExtTreeSet.ofList partitions
      rows := Std.ExtTreeMap.ofList (rows.map fun row => (row.seq, row)) }

end Archive

namespace TableIndex

open Archive

/-- The bytes of a database. -/
def toBytes (t : TableIndex) : List UInt8 :=
  mark ++ writeInteger t.lastSeq ++ Codec.writeList Codec.writeText t.partitions.toList ++
    Codec.writeList writeRow t.rows.values

/-- The database in a file. An empty file is an empty database. -/
def ofBytes (bytes : List UInt8) : Except DatabaseFault TableIndex :=
  if bytes.isEmpty then .ok {}
  else if mark.isPrefixOf bytes then
    match readBody (bytes.drop mark.length) with
    | .ok (t, _) => .ok t
    | .error _ => .error .notADatabase
  else .error .notADatabase

end TableIndex

end Containment
