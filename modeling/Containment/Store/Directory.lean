/-
Module: Containment.Store.Directory
Purpose: A store that keeps one file a record in a directory. A file is named by the hexadecimal form of
  the identifier; reserved identifiers leave an empty marker file behind. The directory is all there
  is: opening it again changes nothing.
Main exports: Directory, Directory.recordFile, Directory.markerFile, Directory.perform
-/
import Containment.Store.Call
import Containment.Text.Path

namespace Containment

open Text

/-- The files of a directory by name, and the directory's own path for messages. -/
structure Directory where
  path : String
  files : Std.ExtTreeMap String (List UInt8) := ∅
deriving Inhabited

namespace Directory

/-- The ending of record files. -/
def recordEnding : String := ".rec"

/-- The ending of marker files. -/
def markerEnding : String := ".tomb"

/-- The file of a record. -/
def recordFile (id : String) : String :=
  Hex.encode (Utf8.encode id) ++ recordEnding

/-- The file that reserves an identifier. -/
def markerFile (id : String) : String :=
  Hex.encode (Utf8.encode id) ++ markerEnding

/-- The identifier whose record a file holds. A name that begins with its only point has no ending. -/
def idOfFile? (name : String) : Option String := do
  let chars := name.toList
  let stem := chars.take (chars.length - 4)
  if !recordEnding.toList.isSuffixOf chars || stem.isEmpty then none
  let bytes ← Hex.decodeDigits? stem
  (Utf8.decode bytes).toOption

/-- The path of a file as messages show it. -/
def pathOf (d : Directory) (name : String) : String :=
  Path.join d.path name

/-- The record in a file. -/
def readFile (d : Directory) (name : String) : Except StoreError (Option Record) :=
  match d.files[name]? with
  | none => .ok none
  | some bytes =>
    match Record.unframe bytes with
    | .ok record => .ok (some record)
    | .error (.corrupt fault) => .error (.corrupt (d.pathOf name) fault)
    | .error (.undecodable fault) => .error (.undecodable fault)

/-- Write a file. -/
def write (d : Directory) (name : String) (bytes : List UInt8) : Directory :=
  { d with files := d.files.insert name bytes }

/-- Remove a file. -/
def remove (d : Directory) (name : String) : Directory :=
  { d with files := d.files.erase name }

/-- Store the first record of an identifier that is neither taken nor reserved. -/
def insert (d : Directory) (record : Record) : Except StoreError Unit × Directory :=
  match record.frame? with
  | none => (.error .tooLarge, d)
  | some bytes =>
    if d.files.contains (markerFile record.id) || d.files.contains (recordFile record.id) then
      (.error (.alreadyExists record.id), d)
    else (.ok (), d.write (recordFile record.id) bytes)

/-- Replace a record whose revision is the expected one. -/
def update (d : Directory) (record : Record) (expected : Nat) : Except StoreError Unit × Directory :=
  match record.frame? with
  | none => (.error .tooLarge, d)
  | some bytes =>
    match d.readFile (recordFile record.id) with
    | .error e => (.error e, d)
    | .ok none => (.error (.notFound record.id), d)
    | .ok (some current) =>
      if current.revision ≠ expected then
        (.error (.revisionMismatch record.id expected current.revision), d)
      else (.ok (), d.write (recordFile record.id) bytes)

/-- Answer a request. -/
def perform (d : Directory) : (call : StoreCall) → Except StoreError call.Answer × Directory
  | .read id => (d.readFile (recordFile id), d)
  | .insert record => d.insert record
  | .update record expected => d.update record expected
  | .delete id => (.ok (d.files.contains (recordFile id)), d.remove (recordFile id))
  | .retire id =>
      (.ok (d.files.contains (recordFile id)),
        (d.write (markerFile id) []).remove (recordFile id))
  | .isRetired id => (.ok (d.files.contains (markerFile id)), d)
  | .ids => (.ok ((d.files.keys.filterMap idOfFile?).mergeSort (· ≤ ·)), d)
  | .exists id => (.ok (d.files.contains (recordFile id)), d)

end Directory

end Containment
