/-
Module: Containment.Proofs.Store.Reopening
Purpose: A directory that is written back into the workspace and opened again holds the files that it held.
Main exports: Workspace.nameIn?_eq_some_iff, Workspace.getElem?_directory_eq_some_iff,
  Workspace.getElem?_setDirectory, Workspace.directory_setDirectory
-/
import Containment.Cli.Workspace
import Containment.Proofs.Maps
import Containment.Proofs.Text.Path

namespace Containment.Cli.Workspace

open Text Path

section Entries

/-! ### Entries of a directory -/

variable {dir path name : String} {lead : List Char}
  (leads : ∀ name, IsPlain name → (normalize (join dir name)).toList = lead ++ name.toList)
include leads

/-- A path leads to an entry of the directory exactly if it is the lead of the directory and a name. -/
theorem nameIn?_eq_some_iff :
    nameIn? dir path = some name ↔ path.toList = lead ++ name.toList ∧ '/' ∉ name.toList := by
  have plain : IsPlain "x" := ⟨by decide, by decide, by decide, by decide⟩
  have lead_eq : (normalize (join dir "x")).toList.dropLast = lead := by
    rw [leads "x" plain]
    exact List.dropLast_concat
  simp only [nameIn?, lead_eq]
  constructor
  · intro found
    split at found
    · rename_i both
      rw [Bool.and_eq_true, List.isPrefixOf_iff_prefix, Bool.not_eq_true'] at both
      obtain ⟨⟨rest, same⟩, single⟩ := both
      rw [← same, List.drop_left] at found single
      cases found
      rw [String.toList_ofList]
      refine ⟨same.symm, fun mem => ?_⟩
      rw [List.contains_iff_mem.2 mem] at single
      cases single
    · cases found
  · rintro ⟨same, single⟩
    have begins : lead.isPrefixOf path.toList = true := by
      rw [same, List.isPrefixOf_iff_prefix]
      exact List.prefix_append lead name.toList
    have rest : path.toList.drop lead.length = name.toList := by
      rw [same, List.drop_left]
    have free : name.toList.contains '/' = false := by
      rw [Bool.eq_false_iff, ne_eq, List.contains_iff_mem]
      exact single
    rw [begins, rest, free, String.ofList_toList]
    rfl

theorem nameIn?_entry (plain : IsPlain name) : nameIn? dir (normalize (join dir name)) = some name :=
  (nameIn?_eq_some_iff leads).2 ⟨leads name plain, plain.single⟩

theorem eq_entry_of_nameIn? (plain : IsPlain name) (found : nameIn? dir path = some name) :
    path = normalize (join dir name) := by
  rw [← String.toList_inj, leads name plain]
  exact ((nameIn?_eq_some_iff leads).1 found).1

/-- No two paths lead to one entry. -/
theorem nameIn?_inj {other : String} (found : nameIn? dir path = some name) (found' : nameIn? dir other = some name) :
    path = other := by
  rw [← String.toList_inj, ((nameIn?_eq_some_iff leads).1 found).1, ((nameIn?_eq_some_iff leads).1 found').1]

end Entries

/-! ### Opening and writing back -/

variable {d : Directory} {path name : String} {bytes : List UInt8}

/-- What is found in a directory is what the workspace has at the path of that entry. -/
theorem getElem?_directory_eq_some_iff (ws : Workspace) (dir : String) :
    (ws.directory dir).files[name]? = some bytes ↔
      ∃ path, nameIn? dir path = some name ∧ ws.files[path]? = some bytes := by
  obtain ⟨lead, leads⟩ := exists_lead dir
  rw [directory, getElem?_ofList_eq_some_iff, List.mem_filterMap]
  · simp only [Option.map_eq_some_iff, Prod.mk.injEq, Prod.exists, Std.ExtTreeMap.mem_toList_iff_getElem?_eq_some]
    constructor
    · rintro ⟨path, _, held, _, found, rfl, rfl⟩
      exact ⟨path, found, held⟩
    · rintro ⟨path, found, held⟩
      exact ⟨path, bytes, held, name, found, rfl, rfl⟩
  · -- different paths have different names
    rw [List.pairwise_filterMap]
    refine ws.files.distinct_keys_toList.imp ?_
    rintro ⟨path, bytes⟩ ⟨path', bytes'⟩ ne ⟨name, _⟩ found ⟨name', _⟩ found' same
    have named : name = name' := Std.LawfulEqCmp.compare_eq_iff_eq.1 same
    simp only [Option.map_eq_some_iff, Prod.mk.injEq] at found found'
    obtain ⟨_, found, rfl, _⟩ := found
    obtain ⟨_, found', rfl, _⟩ := found'
    rw [← named] at found'
    exact ne (Std.LawfulEqCmp.compare_eq_iff_eq.2 (nameIn?_inj leads found found'))

/-- After a directory of plain names has been written back, the workspace has its files and no others there. -/
theorem getElem?_setDirectory (ws : Workspace) (plain : ∀ name, d.files.contains name = true → IsPlain name)
    (found : nameIn? d.path path = some name) : (ws.setDirectory d).files[path]? = d.files[name]? := by
  obtain ⟨lead, leads⟩ := exists_lead d.path
  -- an entry that is written under this path has this name
  have named : ∀ entry ∈ d.files.toList, normalize (join d.path entry.1) = path → entry.1 = name := by
    rintro ⟨name', bytes⟩ mem rfl
    have held := Std.ExtTreeMap.mem_toList_iff_getElem?_eq_some.1 mem
    have present : d.files.contains name' = true := by
      rw [Std.ExtTreeMap.contains_eq_isSome_getElem?, held]
      rfl
    rw [nameIn?_entry leads (plain name' present)] at found
    exact Option.some.inj found
  change (insertAll (fun name => normalize (join d.path name)) d.files.toList
    (ws.files.filter fun path _ => (nameIn? d.path path).isNone))[path]? = d.files[name]?
  cases held : d.files[name]? with
  | none =>
    rw [getElem?_insertAll_of_forall_ne, Std.ExtTreeMap.getElem?_filter', found]
    · cases ws.files[path]? <;> rfl
    · rintro ⟨name', bytes⟩ mem same
      have impossible := Std.ExtTreeMap.mem_toList_iff_getElem?_eq_some.1 mem
      rw [show name' = name from named _ mem same, held] at impossible
      cases impossible
  | some bytes =>
    have present : d.files.contains name = true := by
      rw [Std.ExtTreeMap.contains_eq_isSome_getElem?, held]
      rfl
    apply getElem?_insertAll_of_exists
    · exact ⟨(name, bytes), Std.ExtTreeMap.mem_toList_iff_getElem?_eq_some.2 held,
        (eq_entry_of_nameIn? leads (plain name present) found).symm⟩
    · rintro ⟨name', bytes'⟩ mem same
      have held' := Std.ExtTreeMap.mem_toList_iff_getElem?_eq_some.1 mem
      rw [show name' = name from named _ mem same, held] at held'
      exact (Option.some.inj held').symm

/-- Writing a directory back and opening it again changes nothing. -/
theorem directory_setDirectory (ws : Workspace) (plain : ∀ name, d.files.contains name = true → IsPlain name) :
    (ws.setDirectory d).directory d.path = d := by
  obtain ⟨lead, leads⟩ := exists_lead d.path
  have files : ((ws.setDirectory d).directory d.path).files = d.files := by
    apply Std.ExtTreeMap.ext_getElem?
    intro name
    apply Option.ext
    intro bytes
    rw [getElem?_directory_eq_some_iff]
    constructor
    · rintro ⟨path, found, held⟩
      rw [getElem?_setDirectory ws plain found] at held
      exact held
    · intro held
      have present : d.files.contains name = true := by
        rw [Std.ExtTreeMap.contains_eq_isSome_getElem?, held]
        rfl
      have found := nameIn?_entry leads (plain name present)
      exact ⟨_, found, (getElem?_setDirectory ws plain found).trans held⟩
  exact congrArg (fun files => ({ path := d.path, files } : Directory)) files

end Containment.Cli.Workspace
