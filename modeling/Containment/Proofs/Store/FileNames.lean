/-
Module: Containment.Proofs.Store.FileNames
Purpose: The names of a store's files tell whose they are. No two identifiers share a file, no record's file is a
  marker, and the identifier is read back from the name of a record's file.
Main exports: Hex.decodeDigits?_digits, Directory.recordFile_inj, Directory.markerFile_inj,
  Directory.recordFile_ne_markerFile, Directory.idOfFile?_recordFile, Directory.idOfFile?_markerFile,
  Directory.isPlain_recordFile, Directory.isPlain_markerFile
-/
import Containment.Proofs.Text.Path
import Containment.Proofs.Text.Utf8
import Containment.Store.Directory

namespace Containment

open Text

namespace Text.Hex

/-- The digits of some bytes. -/
def digits (bytes : List UInt8) : List Char :=
  bytes.flatMap fun b => [digit (b.toNat / 16), digit b.toNat]

theorem toList_encode (bytes : List UInt8) : (encode bytes).toList = digits bytes :=
  String.toList_ofList

theorem digitValue?_digit (n : Nat) : digitValue? (digit n) = some (n % 16) := by
  have each : ∀ m < 16, digitValue? (Nat.digitChar m) = some m := by decide
  exact each (n % 16) (Nat.mod_lt n (by decide))

/-- Bytes are read back from their digits. -/
theorem decodeDigits?_digits (bytes : List UInt8) : decodeDigits? (digits bytes) = some bytes := by
  induction bytes with
  | nil => rfl
  | cons b rest ih =>
    have halves : 16 * (b.toNat / 16 % 16) + b.toNat % 16 = b.toNat := by
      have small := b.toNat_lt
      omega
    change decodeDigits? (digit (b.toNat / 16) :: digit b.toNat :: digits rest) = _
    rw [decodeDigits?, digitValue?_digit, digitValue?_digit, ih]
    simp only [Option.bind_eq_bind, Option.bind_some, Option.pure_def, halves, UInt8.ofNat_toNat]

theorem digits_injective {first second : List UInt8} (same : digits first = digits second) : first = second := by
  have read := decodeDigits?_digits first
  rw [same, decodeDigits?_digits] at read
  exact (Option.some.inj read).symm

theorem digits_eq_nil_iff {bytes : List UInt8} : digits bytes = [] ↔ bytes = [] := by
  constructor
  · intro empty
    exact digits_injective empty
  · rintro rfl
    rfl

theorem slash_notMem_digits (bytes : List UInt8) : '/' ∉ digits bytes := by
  have each : ∀ m < 16, '/' ≠ Nat.digitChar m := by decide
  intro mem
  obtain ⟨b, _, isDigit⟩ := List.mem_flatMap.1 mem
  rw [List.mem_cons, List.mem_singleton] at isDigit
  rcases isDigit with same | same
  · exact each _ (Nat.mod_lt _ (by decide)) same
  · exact each _ (Nat.mod_lt _ (by decide)) same

end Text.Hex

namespace Directory

open Text.Hex

theorem toList_recordFile (id : String) :
    (recordFile id).toList = digits (Utf8.encode id) ++ recordEnding.toList := by
  rw [recordFile, String.toList_append, toList_encode]

theorem toList_markerFile (id : String) :
    (markerFile id).toList = digits (Utf8.encode id) ++ markerEnding.toList := by
  rw [markerFile, String.toList_append, toList_encode]

theorem recordFile_inj {id id' : String} : recordFile id = recordFile id' ↔ id = id' := by
  constructor
  · intro same
    rw [← String.toList_inj, toList_recordFile, toList_recordFile, List.append_left_inj] at same
    exact Utf8.encode_injective (digits_injective same)
  · rintro rfl
    rfl

theorem markerFile_inj {id id' : String} : markerFile id = markerFile id' ↔ id = id' := by
  constructor
  · intro same
    rw [← String.toList_inj, toList_markerFile, toList_markerFile, List.append_left_inj] at same
    exact Utf8.encode_injective (digits_injective same)
  · rintro rfl
    rfl

theorem isPlain_of_ending {name : String} {bytes : List UInt8} {ending : List Char}
    (same : name.toList = digits bytes ++ ending) (long : 2 < ending.length) (single : '/' ∉ ending) :
    Path.IsPlain name := by
  have size : name.toList.length = (digits bytes).length + ending.length := by
    rw [same, List.length_append]
  refine ⟨?_, ?_, ?_, ?_⟩
  · rintro rfl
    exact absurd size (by change 0 ≠ _; omega)
  · rintro rfl
    exact absurd size (by change 1 ≠ _; omega)
  · rintro rfl
    exact absurd size (by change 2 ≠ _; omega)
  · rw [same, List.mem_append, not_or]
    exact ⟨slash_notMem_digits bytes, single⟩

theorem isPlain_recordFile (id : String) : Path.IsPlain (recordFile id) :=
  isPlain_of_ending (toList_recordFile id) (by decide) (by decide)

theorem isPlain_markerFile (id : String) : Path.IsPlain (markerFile id) :=
  isPlain_of_ending (toList_markerFile id) (by decide) (by decide)

/-- The name of a marker does not end as the name of a record's file does. -/
theorem recordEnding_markerFile (id : String) : recordEnding.toList.isSuffixOf (markerFile id).toList = false := by
  rw [toList_markerFile, Bool.eq_false_iff, ne_eq, List.isSuffixOf_iff_suffix]
  intro suffix_
  have last := suffix_.getLast (by decide)
  rw [List.getLast_append_right (by decide)] at last
  exact absurd last (by decide)

theorem recordFile_ne_markerFile (id id' : String) : recordFile id ≠ markerFile id' := by
  intro same
  have unlike := recordEnding_markerFile id'
  rw [← same, toList_recordFile, Bool.eq_false_iff, ne_eq, List.isSuffixOf_iff_suffix] at unlike
  exact unlike (List.suffix_append _ _)

/-- The identifier is read back from the name of its record's file. -/
theorem idOfFile?_recordFile {id : String} (named : id ≠ "") : idOfFile? (recordFile id) = some id := by
  have length : (digits (Utf8.encode id)).length = (recordFile id).toList.length - 4 := by
    rw [toList_recordFile, List.length_append]
    exact (Nat.add_sub_cancel _ 4).symm
  have stem : (recordFile id).toList.take ((recordFile id).toList.length - 4) = digits (Utf8.encode id) := by
    rw [← length, toList_recordFile, List.take_left]
  have ending : recordEnding.toList.isSuffixOf (recordFile id).toList = true := by
    rw [toList_recordFile, List.isSuffixOf_iff_suffix]
    exact List.suffix_append _ _
  have filled : (digits (Utf8.encode id)).isEmpty = false := by
    rw [List.isEmpty_eq_false_iff, ne_eq, digits_eq_nil_iff, Utf8.encode_eq_nil_iff]
    exact named
  simp only [idOfFile?, stem, ending, filled, decodeDigits?_digits]
  change (Utf8.decode (Utf8.encode id)).toOption = some id
  rw [Utf8.decode_encode]
  rfl

theorem idOfFile?_markerFile (id : String) : idOfFile? (markerFile id) = none := by
  simp only [idOfFile?, recordEnding_markerFile]
  rfl

end Directory

end Containment
