/-
Module: Containment.Proofs.Text.Path
Purpose: The shortest path to a file of a directory is one lead, the same for all files of the directory, and the name
  of the file.
Main exports: Path.IsPlain, Path.exists_lead
-/
import Containment.Text.Path

namespace Containment.Text.Path

/-- A name that leads to an entry of the directory that it is looked up in. -/
structure IsPlain (name : String) : Prop where
  nonempty : name ≠ ""
  notHere : name ≠ "."
  notUp : name ≠ ".."
  single : '/' ∉ name.toList

variable {name : String}

theorem IsPlain.step_eq (plain : IsPlain name) (top : Bool) (names : List String) :
    step top names name = names ++ [name] := by
  have filled : name.isEmpty = false := by
    rw [Bool.eq_false_iff, ne_eq, String.isEmpty_iff]
    exact plain.nonempty
  rw [step, filled, beq_false_of_ne plain.notHere, beq_false_of_ne plain.notUp]
  rfl

theorem IsPlain.isAbsolute_eq (plain : IsPlain name) : isAbsolute name = false := by
  rw [isAbsolute, beq_eq_false_iff_ne]
  intro first
  exact plain.single (List.mem_of_head? first)

theorem isAbsolute_append {base : String} (nonempty : base ≠ "") (more : String) :
    isAbsolute (base ++ more) = isAbsolute base := by
  have filled : base.toList ≠ [] := by
    rw [ne_eq, String.toList_eq_nil_iff]
    exact nonempty
  obtain ⟨c, cs, same⟩ := List.exists_cons_of_ne_nil filled
  rw [isAbsolute, isAbsolute, String.toList_append, same]
  rfl

/-- A path that ends in a slash, and a name. -/
theorem IsPlain.parts_append (plain : IsPlain name) (front : List Char) (top : Bool) :
    (((front ++ '/' :: name.toList).splitOn '/').map String.ofList).foldl (step top) [] =
      ((front.splitOn '/').map String.ofList).foldl (step top) [] ++ [name] := by
  rw [List.splitOn_append_cons_self, List.splitOn_eq_singleton plain.single, List.map_append, List.foldl_append]
  simp only [List.map_cons, List.map_nil, String.ofList_toList, List.foldl_cons, List.foldl_nil, plain.step_eq]

/-- The path of an entry of a directory begins as that of the directory does and ends with the name. -/
theorem exists_parts_join (dir : String) : ∃ names, ∀ name, IsPlain name →
    parts (join dir name) = names ++ [name] ∧ isAbsolute (join dir name) = isAbsolute dir := by
  by_cases here : dir = ""
  · subst here
    refine ⟨[], fun name plain => ?_⟩
    have joined : join "" name = name := by
      rw [join, plain.isAbsolute_eq]
      rfl
    rw [joined, parts, List.splitOn_eq_singleton plain.single, plain.isAbsolute_eq]
    refine ⟨?_, rfl⟩
    simp only [List.map_cons, List.map_nil, String.ofList_toList, List.foldl_cons, List.foldl_nil, plain.step_eq,
      List.nil_append]
  have filled : dir.isEmpty = false := by
    rw [Bool.eq_false_iff, ne_eq, String.isEmpty_iff]
    exact here
  by_cases slash : dir.toList.getLast? = some '/'
  · obtain ⟨front, same⟩ := List.getLast?_eq_some_iff.1 slash
    refine ⟨((front.splitOn '/').map String.ofList).foldl (step (isAbsolute dir)) [], fun name plain => ?_⟩
    have joined : join dir name = dir ++ name := by
      simp only [join, plain.isAbsolute_eq, filled, slash, Bool.or_self, Bool.false_eq_true, if_false, beq_self_eq_true,
        if_true]
    rw [joined, isAbsolute_append here]
    refine ⟨?_, rfl⟩
    rw [parts, isAbsolute_append here, String.toList_append, same, List.append_assoc, List.singleton_append]
    exact plain.parts_append front (isAbsolute dir)
  · refine ⟨((dir.toList.splitOn '/').map String.ofList).foldl (step (isAbsolute dir)) [], fun name plain => ?_⟩
    have joined : join dir name = dir ++ ("/" ++ name) := by
      simp only [join, plain.isAbsolute_eq, filled, Bool.or_self, Bool.false_eq_true, if_false, beq_iff_eq, slash,
        String.append_assoc]
    rw [joined, isAbsolute_append here]
    refine ⟨?_, rfl⟩
    rw [parts, isAbsolute_append here, String.toList_append, String.toList_append]
    exact plain.parts_append dir.toList (isAbsolute dir)

theorem exists_intercalate_append (sep : List Char) (names : List (List Char)) :
    ∃ lead, ∀ name, sep.intercalate (names ++ [name]) = lead ++ name := by
  induction names with
  | nil => exact ⟨[], fun name => List.intercalate_singleton⟩
  | cons first names ih =>
    obtain ⟨lead, same⟩ := ih
    refine ⟨first ++ sep ++ lead, fun name => ?_⟩
    rw [List.cons_append, List.intercalate_cons_of_ne_nil (List.append_ne_nil_of_right_ne_nil _ (List.cons_ne_nil _ _)),
      same]
    simp only [List.append_assoc]

/-- All entries of a directory have shortest paths that differ in the name only. -/
theorem exists_lead (dir : String) : ∃ lead : List Char, ∀ name, IsPlain name →
    (normalize (join dir name)).toList = lead ++ name.toList := by
  obtain ⟨names, split⟩ := exists_parts_join dir
  obtain ⟨lead, joined⟩ := exists_intercalate_append "/".toList (names.map String.toList)
  refine ⟨(if isAbsolute dir then "/" else "").toList ++ lead, fun name plain => ?_⟩
  obtain ⟨parts_eq, top⟩ := split name plain
  rw [normalize, ofParts, parts_eq, top, String.toList_append, String.toList_intercalate, List.map_append,
    List.map_cons, List.map_nil, joined, List.append_assoc]

end Containment.Text.Path
