/-
Module: Containment.Proofs.Repository.Segments
Purpose: The segments of a path. A path spells a list of names if it has them in this order, with a slash between two
  of them and any other slashes before, behind and between. Every path spells just one list of names, its segments.
Main exports: IsSegment, Spells, spells_iff_segments_eq, spells_segments, spells_intercalate
-/
import Containment.Repository.Hierarchy
import Mathlib.Data.String.Basic

namespace Containment.Repository

open String

/-- A text that can stand between two slashes as a name. -/
structure IsSegment (name : String) : Prop where
  nonempty : name ≠ ""
  single : '/' ∉ name.toList

/-- A path spells these names: each stands in it, in this order, and there may be slashes at will between two of them
as long as there is one, as well as before the first and behind the last. -/
inductive Spells : List String → String → Prop
  | nothing : Spells [] ""
  | slash {names : List String} {text : String} : Spells names text → Spells names ("/" ++ text)
  | last {name : String} : IsSegment name → Spells [name] name
  | before {name text : String} {names : List String} : IsSegment name → Spells names text →
      Spells (name :: names) (name ++ "/" ++ text)

/-- Splitting at slashes, from within a part: `done` is what of it has been passed. -/
theorem splitOnAux_slash (before done rest : List Char) (parts : List String) :
    splitOnAux (ofList (before ++ done ++ rest)) "/" ⟨utf8Len before⟩ ⟨utf8Len before + utf8Len done⟩ 0 parts =
      parts.reverse ++ (List.splitOnPPrepend (· == '/') rest done.reverse).map ofList := by
  induction rest generalizing before done parts with
  | nil =>
    have ended : Pos.Raw.atEnd (ofList (before ++ done ++ [])) ⟨utf8Len before + utf8Len done⟩ = true := by
      have given := atEnd_of_valid (before ++ done) []
      rw [utf8Len_append] at given
      exact given.2 rfl
    have part := extract_of_valid before done []
    rw [splitOnAux, if_pos ended, part]
    simp
  | cons c rest ih =>
    have going : ¬ Pos.Raw.atEnd (ofList (before ++ done ++ c :: rest)) ⟨utf8Len before + utf8Len done⟩ = true := by
      have given := atEnd_of_valid (before ++ done) (c :: rest)
      rw [utf8Len_append] at given
      exact fun ended => List.cons_ne_nil c rest (given.1 ended)
    have here := get_of_valid (before ++ done) (c :: rest)
    have after := next_of_valid (before ++ done) c rest
    have part := extract_of_valid before done (c :: rest)
    have slash : Pos.Raw.get "/" 0 = '/' := rfl
    have next : Pos.Raw.next "/" 0 = ⟨1⟩ := rfl
    have ends : Pos.Raw.atEnd "/" ⟨1⟩ = true := rfl
    rw [utf8Len_append] at here after
    rw [splitOnAux, if_neg going, here, slash]
    by_cases same : c = '/'
    · subst same
      have back : Pos.Raw.unoffsetBy ⟨utf8Len before + utf8Len done + '/'.utf8Size⟩ ⟨1⟩ =
        ⟨utf8Len before + utf8Len done⟩ := rfl
      have again := ih (before ++ done ++ ['/']) [] (ofList done :: parts)
      simp only [List.headD_cons, beq_self_eq_true, if_true, next, ends, after, back, part]
      rw [List.splitOnPPrepend_cons_pos rfl, List.map_cons, List.reverse_reverse]
      simpa [Nat.add_assoc, utf8Len_append] using again
    · have again := ih before (done ++ [c]) parts
      have stay : Pos.Raw.unoffsetBy ⟨utf8Len before + utf8Len done⟩ 0 = ⟨utf8Len before + utf8Len done⟩ := rfl
      rw [List.headD_cons, if_neg (by simpa using same), stay, after]
      rw [List.splitOnPPrepend_cons_neg (by simpa using same)]
      simpa [Nat.add_assoc, utf8Len_append] using again

theorem splitOn_slash (text : String) : text.splitOn "/" = (text.toList.splitOn '/').map ofList := by
  have whole := splitOnAux_slash [] [] text.toList []
  simp only [List.nil_append, String.ofList_toList] at whole
  exact whole

/-! ### The segments of a text, from its first slash on -/

theorem segments_eq (text : String) :
    segments text = ((text.toList.splitOn '/').map ofList).filter fun segment => !segment.isEmpty := by
  rw [segments, splitOn_slash]

theorem segments_slash (text : String) : segments ("/" ++ text) = segments text := by
  have whole : ("/" ++ text).toList = [] ++ '/' :: text.toList := toList_append
  rw [segments_eq, segments_eq, whole, List.splitOn_append_cons_self]
  rfl

variable {name text : String} {names : List String}

theorem IsSegment.filter_cons (segment : IsSegment name) (more : List String) :
    (name :: more).filter (fun segment => !segment.isEmpty) =
      name :: more.filter fun segment => !segment.isEmpty := by
  apply List.filter_cons_of_pos
  rw [Bool.not_eq_true', Bool.eq_false_iff, ne_eq, String.isEmpty_iff]
  exact segment.nonempty

theorem IsSegment.segments_eq (segment : IsSegment name) : segments name = [name] := by
  rw [Repository.segments_eq, List.splitOn_eq_singleton segment.single, List.map_singleton, String.ofList_toList,
    segment.filter_cons, List.filter_nil]

theorem IsSegment.segments_before (segment : IsSegment name) (text : String) :
    segments (name ++ "/" ++ text) = name :: segments text := by
  have whole : (name ++ "/" ++ text).toList = name.toList ++ '/' :: text.toList := by
    rw [toList_append, toList_append, List.append_assoc]
    rfl
  rw [Repository.segments_eq, Repository.segments_eq, whole,
    List.splitOn_append_cons_self_of_not_mem segment.single, List.map_cons, String.ofList_toList,
    segment.filter_cons]

/-- What spells some names has these for segments. -/
theorem Spells.segments_eq (spells : Spells names text) : segments text = names := by
  induction spells with
  | nothing =>
    rw [Repository.segments_eq]
    rfl
  | slash _ ih => rw [segments_slash, ih]
  | last segment => exact segment.segments_eq
  | before segment _ ih => rw [segment.segments_before, ih]

/-- A text has no slash, or a part without one stands before its first. -/
theorem slash_cases (text : String) :
    '/' ∉ text.toList ∨ ∃ name rest, '/' ∉ name.toList ∧ text = name ++ "/" ++ rest := by
  by_cases passes : '/' ∈ text.toList
  · obtain ⟨front, back, whole, apart⟩ := List.eq_append_cons_of_mem passes
    refine .inr ⟨ofList front, ofList back, ?_, ?_⟩
    · rw [toList_ofList]
      exact apart
    · rw [← String.ofList_toList (s := text), whole, List.append_cons, ofList_append, ofList_append]
  · exact .inl passes

/-- Every text spells its segments. -/
theorem spells_segments (text : String) : Spells (segments text) text := by
  rcases slash_cases text with whole | ⟨name, rest, single, rfl⟩
  · by_cases empty : text = ""
    · subst empty
      rw [Spells.nothing.segments_eq]
      exact .nothing
    · have segment : IsSegment text := ⟨empty, whole⟩
      rw [segment.segments_eq]
      exact .last segment
  · have later := spells_segments rest
    by_cases empty : name = ""
    · subst empty
      rw [empty_append, segments_slash]
      exact .slash later
    · have segment : IsSegment name := ⟨empty, single⟩
      rw [segment.segments_before]
      exact .before segment later
termination_by text.length
decreasing_by
  subst_vars
  simp only [length_append]
  have slash : "/".length = 1 := rfl
  omega

/-- The names that a text spells are its segments, and no others. -/
theorem spells_iff_segments_eq : Spells names text ↔ segments text = names := by
  constructor
  · exact Spells.segments_eq
  · rintro rfl
    exact spells_segments text

/-- Joined by single slashes, names are spelled. -/
theorem spells_intercalate (named : ∀ name ∈ names, IsSegment name) : Spells names ("/".intercalate names) := by
  induction names with
  | nil => exact .nothing
  | cons name rest ih =>
    obtain ⟨first, others⟩ := List.forall_mem_cons.1 named
    cases rest with
    | nil =>
      rw [intercalate_singleton]
      exact .last first
    | cons next more =>
      rw [intercalate_cons_cons]
      exact .before first (ih others)

end Containment.Repository
