/-
Module: Containment.Record.Codec
Purpose: Records as bytes. Numbers are little endian of fixed width, a text is its length in bytes and
  its UTF-8 form, a list is its length and its elements, an instant is its RFC 3339 text. The reader
  takes a record off the front and leaves what follows.
Main exports: Record.encode, Record.decode, DecodeFault, DecodeFault.message
-/
import Containment.Record.Basic
import Containment.Text.Utf8
import Containment.Time.Rfc3339.Reader

namespace Containment

open Text Time

/-- Why bytes are not a record. -/
inductive DecodeFault where
  | endOfInput
  | shortText
  | unknownVariant (index : Nat)
  | notUtf8 (fault : Utf8Fault)
  | badTime (fault : TimeFault)
deriving Repr, DecidableEq

/-- The wording of a fault. -/
def DecodeFault.message : DecodeFault → String
  | .endOfInput => "io error: unexpected end of file"
  | .shortText => "io error: "
  | .unknownVariant index =>
      s!"invalid value: integer `{index}`, expected variant index 0 <= i < 3"
  | .notUtf8 fault => s!"string is not valid utf8: {fault.message}"
  | .badTime fault => fault.message

namespace Codec

/-- The low `width` bytes of a number, lowest first. -/
def littleEndian : Nat → Nat → List UInt8
  | 0, _ => []
  | width + 1, n => UInt8.ofNat n :: littleEndian width (n / 256)

/-- The number that bytes stand for, lowest first. -/
def ofLittleEndian : List UInt8 → Nat
  | [] => 0
  | b :: rest => b.toNat + 256 * ofLittleEndian rest

/-- A number of 32 bits. -/
def writeWord (n : Nat) : List UInt8 := littleEndian 4 n

/-- A number of 64 bits. -/
def writeLong (n : Nat) : List UInt8 := littleEndian 8 n

/-- A text with its length. -/
def writeText (s : String) : List UInt8 :=
  writeLong s.utf8ByteSize ++ Utf8.encode s

/-- An instant as its text. -/
def writeInstant (t : Instant) : List UInt8 :=
  writeText t.toText

/-- The number of a kind of container. -/
def containerTypeIndex : ContainerType → Nat
  | .basic => 0
  | .direct => 1
  | .indirect => 2

/-- The number of a kind of member. -/
def memberTypeIndex : MemberType → Nat
  | .resource => 0
  | .container => 1
  | .binary => 2

/-- An entry of a membership list. -/
def writeMember (m : Member) : List UInt8 :=
  writeText m.id ++ writeWord (memberTypeIndex m.type) ++ writeInstant m.addedAt

/-- A property. -/
def writeProperty (entry : String × String) : List UInt8 :=
  writeText entry.1 ++ writeText entry.2

/-- A list with its length. -/
def writeList {α : Type} (write : α → List UInt8) (items : List α) : List UInt8 :=
  writeLong items.length ++ items.flatMap write

/-- The lasting state of a container. -/
def writeSnapshot (s : Snapshot) : List UInt8 :=
  writeText s.id ++ writeText s.parentId ++ writeWord (containerTypeIndex s.type) ++
    writeList writeMember s.members ++ writeList writeProperty s.metadata.toList ++
    writeInstant s.createdAt ++ writeInstant s.updatedAt

/-- Reading takes bytes off the front. -/
abbrev Reader := StateT (List UInt8) (Except DecodeFault)

/-- A number of `width` bytes. -/
def readNumber (width : Nat) : Reader Nat := fun input =>
  let taken := input.take width
  if taken.length < width then .error .endOfInput
  else .ok (ofLittleEndian taken, input.drop width)

/-- A text with its length. -/
def readText : Reader String := do
  let size ← readNumber 8
  fun input =>
    let taken := input.take size
    if taken.length < size then .error .shortText
    else
      match Utf8.decode taken with
      | .ok s => .ok (s, input.drop size)
      | .error fault => .error (.notUtf8 fault)

/-- An instant. -/
def readInstant : Reader Instant := do
  let text ← readText
  match Instant.read text.toList with
  | .ok t => pure t
  | .error fault => throw (.badTime fault)

/-- A kind of container. -/
def readContainerType : Reader ContainerType := do
  match ← readNumber 4 with
  | 0 => pure .basic
  | 1 => pure .direct
  | 2 => pure .indirect
  | index => throw (.unknownVariant index)

/-- A kind of member. -/
def readMemberType : Reader MemberType := do
  match ← readNumber 4 with
  | 0 => pure .resource
  | 1 => pure .container
  | 2 => pure .binary
  | index => throw (.unknownVariant index)

/-- An entry of a membership list. -/
def readMember : Reader Member := do
  let id ← readText
  let type ← readMemberType
  let addedAt ← readInstant
  pure { id, type, addedAt }

/-- A property. -/
def readProperty : Reader (String × String) := do
  let key ← readText
  let value ← readText
  pure (key, value)

/-- That many items in a row. -/
def readItems {α : Type} (read : Reader α) : Nat → Reader (List α)
  | 0 => pure []
  | count + 1 => do
    let item ← read
    let rest ← readItems read count
    pure (item :: rest)

/-- A list with its length. -/
def readList {α : Type} (read : Reader α) : Reader (List α) := do
  readItems read (← readNumber 8)

/-- The lasting state of a container. A property that is given twice has its last value. -/
def readSnapshot : Reader Snapshot := do
  let id ← readText
  let parentId ← readText
  let type ← readContainerType
  let members ← readList readMember
  let properties ← readList readProperty
  let createdAt ← readInstant
  let updatedAt ← readInstant
  pure
    { id, parentId, type, members, metadata := Std.ExtTreeMap.ofList properties
      createdAt, updatedAt }

/-- A record: its revision and the container. -/
def readRecord : Reader Record := do
  let revision ← readNumber 8
  let container ← readSnapshot
  pure { revision, container }

end Codec

/-- The bytes of a record. -/
def Record.encode (r : Record) : List UInt8 :=
  Codec.writeLong r.revision ++ Codec.writeSnapshot r.container

/-- The record at the front of some bytes; bytes after it are ignored. -/
def Record.decode (bytes : List UInt8) : Except DecodeFault Record :=
  (Codec.readRecord bytes).map Prod.fst

end Containment
