/-
Module: Containment.Proofs.Store.Directory
Purpose: A directory shows what a store in memory holds if its files are the framed records and the markers of the
  reserved identifiers, and nothing else. Whatever either of the two is asked, the other gives the same answer, and the
  directory goes on showing what is held.
Main exports: Record.Storable, Directory.Shows, Directory.Shows.perform
-/
import Containment.Proofs.Index.Listing
import Containment.Proofs.Record.Codec
import Containment.Proofs.Store.Contents
import Containment.Proofs.Store.FileNames

namespace Containment

/-- A record that fits into a file of its own name. -/
structure Record.Storable (r : Record) : Prop where
  named : r.id ≠ ""
  representable : r.Representable
  short : r.encode.length < 2 ^ 32

instance (r : Record) : Decidable r.Storable :=
  decidable_of_iff (r.id ≠ "" ∧ r.Representable ∧ r.encode.length < 2 ^ 32)
    ⟨fun h => ⟨h.1, h.2.1, h.2.2⟩, fun h => ⟨h.1, h.2, h.3⟩⟩

/-- The record that a request brings, if it brings one. -/
def StoreCall.record? : StoreCall → Option Record
  | .insert record => some record
  | .update record _ => some record
  | _ => none

namespace Directory

/-- The files are those of the records that the store in memory holds and the markers of the identifiers that it has
reserved. -/
structure Shows (d : Directory) (m : MemoryStore) : Prop where
  records : ∀ id, d.files[recordFile id]? = m.records[id]?.map fun r => Frame.wrap r.encode
  markers : ∀ id, d.files.contains (markerFile id) = m.retired.contains id
  files : ∀ name, d.files.contains name = true → ∃ id, name = recordFile id ∨ name = markerFile id
  sound : ∀ id (r : Record), m.records[id]? = some r → r.id = id ∧ r.Storable

variable {d : Directory} {m : MemoryStore}

theorem shows_empty (path : String) : Shows { path } {} := by
  constructor <;> simp

theorem getElem?_write (name other : String) (bytes : List UInt8) :
    (d.write name bytes).files[other]? = if name = other then some bytes else d.files[other]? := by
  simp only [write, Std.ExtTreeMap.getElem?_insert, Std.LawfulEqCmp.compare_eq_iff_eq]

theorem contains_write (name other : String) (bytes : List UInt8) :
    (d.write name bytes).files.contains other = (decide (name = other) || d.files.contains other) := by
  simp only [Std.ExtTreeMap.contains_eq_isSome_getElem?, getElem?_write]
  split
  all_goals simp_all

theorem getElem?_remove (name other : String) :
    (d.remove name).files[other]? = if name = other then none else d.files[other]? := by
  simp only [remove, Std.ExtTreeMap.getElem?_erase, Std.LawfulEqCmp.compare_eq_iff_eq]

theorem contains_remove (name other : String) :
    (d.remove name).files.contains other = (decide (name ≠ other) && d.files.contains other) := by
  simp only [Std.ExtTreeMap.contains_eq_isSome_getElem?, getElem?_remove]
  split
  all_goals simp_all

namespace Shows

/-- A record's file is read as the record. -/
theorem readFile (shows : d.Shows m) (id : String) : d.readFile (recordFile id) = .ok m.records[id]? := by
  rw [Directory.readFile, shows.records]
  cases found : m.records[id]? with
  | none => rfl
  | some r =>
    have storable := (shows.sound id r found).2
    simp only [Option.map_some, Record.unframe_wrap storable.representable storable.short]

theorem contains_recordFile (shows : d.Shows m) (id : String) :
    d.files.contains (recordFile id) = m.records.contains id := by
  rw [Std.ExtTreeMap.contains_eq_isSome_getElem?, shows.records, Option.isSome_map,
    Std.ExtTreeMap.contains_eq_isSome_getElem?]

/-- A record put into its file. -/
theorem put (shows : d.Shows m) {r : Record} (storable : r.Storable) :
    (d.write (recordFile r.id) (Frame.wrap r.encode)).Shows (m.put r) := by
  constructor
  case records =>
    intro id
    rw [getElem?_write, MemoryStore.records_put]
    by_cases same : r.id = id
    · rw [if_pos (recordFile_inj.2 same), if_pos same]
      rfl
    · rw [if_neg (recordFile_inj.not.2 same), if_neg same, shows.records]
  case markers =>
    intro id
    rw [contains_write, shows.markers, decide_eq_false (recordFile_ne_markerFile _ _)]
    rfl
  case files =>
    intro name present
    rw [contains_write, Bool.or_eq_true, decide_eq_true_iff] at present
    rcases present with rfl | before
    · exact ⟨r.id, .inl rfl⟩
    · exact shows.files name before
  case sound =>
    intro id r' found
    rw [MemoryStore.records_put] at found
    split at found
    · rename_i same
      cases found
      exact ⟨same, storable⟩
    · exact shows.sound id r' found

/-- A record's file taken away. -/
theorem drop (shows : d.Shows m) (id : String) :
    (d.remove (recordFile id)).Shows { m with records := m.records.erase id } := by
  constructor
  case records =>
    intro other
    rw [getElem?_remove, Std.ExtTreeMap.getElem?_erase]
    simp only [Std.LawfulEqCmp.compare_eq_iff_eq, recordFile_inj]
    split
    · rfl
    · exact shows.records other
  case markers =>
    intro other
    rw [contains_remove, decide_eq_true (recordFile_ne_markerFile id other), Bool.true_and, shows.markers]
  case files =>
    intro name present
    rw [contains_remove, Bool.and_eq_true] at present
    exact shows.files name present.2
  case sound =>
    intro other r found
    simp only [Std.ExtTreeMap.getElem?_erase] at found
    split at found
    · cases found
    · exact shows.sound other r found

/-- An identifier reserved by its marker. -/
theorem mark (shows : d.Shows m) (id : String) :
    (d.write (markerFile id) []).Shows { m with retired := m.retired.insert id } := by
  constructor
  case records =>
    intro other
    rw [getElem?_write, if_neg (recordFile_ne_markerFile other id).symm, shows.records]
  case markers =>
    intro other
    rw [contains_write, shows.markers, Std.ExtTreeSet.contains_insert]
    congr 1
    rw [Bool.eq_iff_iff, beq_iff_eq, decide_eq_true_iff, markerFile_inj]
    exact Std.LawfulEqCmp.compare_eq_iff_eq.symm
  case files =>
    intro name present
    rw [contains_write, Bool.or_eq_true, decide_eq_true_iff] at present
    rcases present with rfl | before
    · exact ⟨id, .inr rfl⟩
    · exact shows.files name before
  case sound => exact shows.sound

/-! ### Listing the files -/

/-- The name of a file stands for an identifier exactly if it is the file of its record. -/
theorem idOfFile?_eq_some_iff (shows : d.Shows m) {name id : String} (present : d.files.contains name = true) :
    idOfFile? name = some id ↔ name = recordFile id := by
  obtain ⟨owner, rfl | rfl⟩ := shows.files name present
  · rw [shows.contains_recordFile, Std.ExtTreeMap.contains_eq_isSome_getElem?, Option.isSome_iff_exists] at present
    obtain ⟨r, found⟩ := present
    obtain ⟨same, storable⟩ := shows.sound owner r found
    have named : owner ≠ "" := same ▸ storable.named
    rw [idOfFile?_recordFile named, Option.some_inj, recordFile_inj]
  · rw [idOfFile?_markerFile]
    constructor
    · intro impossible
      cases impossible
    · intro same
      exact absurd same.symm (recordFile_ne_markerFile id owner)

theorem mem_ids (shows : d.Shows m) (id : String) :
    id ∈ d.files.keys.filterMap idOfFile? ↔ id ∈ m.records.keys := by
  rw [List.mem_filterMap, Std.ExtTreeMap.mem_keys, Std.ExtTreeMap.mem_iff_contains, ← shows.contains_recordFile]
  constructor
  · rintro ⟨name, mem, read⟩
    rw [Std.ExtTreeMap.mem_keys, Std.ExtTreeMap.mem_iff_contains] at mem
    rw [← (shows.idOfFile?_eq_some_iff mem).1 read]
    exact mem
  · intro present
    refine ⟨recordFile id, ?_, (shows.idOfFile?_eq_some_iff present).2 rfl⟩
    rw [Std.ExtTreeMap.mem_keys, Std.ExtTreeMap.mem_iff_contains]
    exact present

theorem nodup_ids (shows : d.Shows m) : (d.files.keys.filterMap idOfFile?).Nodup := by
  rw [List.Nodup, List.pairwise_filterMap]
  refine d.files.distinct_keys.imp_of_mem ?_
  intro name other mem mem' ne id read id' read' same
  rw [Std.ExtTreeMap.mem_keys, Std.ExtTreeMap.mem_iff_contains] at mem mem'
  rw [shows.idOfFile?_eq_some_iff mem] at read
  rw [shows.idOfFile?_eq_some_iff mem'] at read'
  exact ne (Std.LawfulEqCmp.compare_eq_iff_eq.2 (by rw [read, read', same]))

/-- The identifiers on the files, in order, are those of the records. -/
theorem ids_eq (shows : d.Shows m) :
    (d.files.keys.filterMap idOfFile?).mergeSort (· ≤ ·) = m.records.keys := by
  have sorted : ((d.files.keys.filterMap idOfFile?).mergeSort (· ≤ ·)).Pairwise fun a b => decide (a ≤ b) = true :=
    List.pairwise_mergeSort (by simpa using fun a b c => String.le_trans) (by simpa using String.le_total) _
  have distinct := (List.mergeSort_perm (d.files.keys.filterMap idOfFile?) (· ≤ ·)).nodup_iff.2 shows.nodup_ids
  refine eq_of_ordered id ?_ m.records.ordered_keys fun id => ?_
  · refine (sorted.and distinct).imp ?_
    rintro a b ⟨le, ne⟩
    have below : a < b := by
      by_contra above
      exact ne (String.le_antisymm (of_decide_eq_true le) (String.not_lt.1 above))
    exact if_pos below
  · rw [List.mem_mergeSort]
    exact shows.mem_ids id

/-! ### Requests -/

/-- The same answer, and the directory goes on showing what is held. -/
theorem perform (shows : d.Shows m) {call : StoreCall} (storable : ∀ r ∈ call.record?, r.Storable) :
    (d.perform call).1 = (m.perform call).1 ∧ (d.perform call).2.Shows (m.perform call).2 := by
  cases call with
  | read id => exact ⟨shows.readFile id, shows⟩
  | insert r =>
    have fits := storable r rfl
    change (d.insert r).1 = (m.insert r).1 ∧ (d.insert r).2.Shows (m.insert r).2
    simp only [Directory.insert, MemoryStore.insert, Record.frame?_eq fits.short, shows.markers,
      shows.contains_recordFile, Bool.or_comm (m.retired.contains r.id)]
    split
    · exact ⟨rfl, shows⟩
    · exact ⟨rfl, shows.put fits⟩
  | update r expected =>
    have fits := storable r rfl
    change (d.update r expected).1 = (m.update r expected).1 ∧ (d.update r expected).2.Shows (m.update r expected).2
    simp only [Directory.update, MemoryStore.update, Record.frame?_eq fits.short, shows.readFile]
    cases m.records[r.id]? with
    | none => exact ⟨rfl, shows⟩
    | some current =>
      simp only
      split
      · exact ⟨rfl, shows⟩
      · exact ⟨rfl, shows.put fits⟩
  | delete id =>
    refine ⟨?_, shows.drop id⟩
    exact congrArg Except.ok (shows.contains_recordFile id)
  | retire id =>
    refine ⟨?_, (shows.mark id).drop id⟩
    exact congrArg Except.ok (shows.contains_recordFile id)
  | isRetired id => exact ⟨congrArg Except.ok (shows.markers id), shows⟩
  | ids => exact ⟨congrArg Except.ok shows.ids_eq, shows⟩
  | «exists» id => exact ⟨congrArg Except.ok (shows.contains_recordFile id), shows⟩

end Shows

end Directory

end Containment
