/-
Module: Containment.Proofs.Maps
Purpose: Maps that are made of lists of pairs, at once or one pair after the other.
Main exports: getElem?_insert_of_ne, getElem?_erase_of_ne, getElem?_ofList_eq_some_iff, ofList_toList, insertAll,
  getElem?_insertAll_of_forall_ne, getElem?_insertAll_of_exists
-/
import Std.Data.ExtTreeMap
import Mathlib.Logic.Basic

namespace Containment

variable {α : Type} {entries : List (String × α)} {name : String} {value : α}

section
variable {κ : Type} {cmp : κ → κ → Ordering} [Std.TransCmp cmp] [Std.LawfulEqCmp cmp] {t : Std.ExtTreeMap κ α cmp}
  {key other : κ}

theorem getElem?_insert_of_ne (ne : key ≠ other) : (t.insert key value)[other]? = t[other]? := by
  rw [Std.ExtTreeMap.getElem?_insert, if_neg (mt Std.LawfulEqCmp.compare_eq_iff_eq.1 ne)]

theorem getElem?_erase_of_ne (ne : key ≠ other) : (t.erase key)[other]? = t[other]? := by
  rw [Std.ExtTreeMap.getElem?_erase, if_neg (mt Std.LawfulEqCmp.compare_eq_iff_eq.1 ne)]

end

/-- A map made of pairs with different keys holds exactly these pairs. -/
theorem getElem?_ofList_eq_some_iff (distinct : entries.Pairwise fun a b => ¬ compare a.1 b.1 = .eq) :
    (Std.ExtTreeMap.ofList entries)[name]? = some value ↔ (name, value) ∈ entries := by
  have self : compare name name = .eq := Std.LawfulEqCmp.compare_eq_iff_eq.2 rfl
  constructor
  · intro found
    by_cases known : (entries.map Prod.fst).contains name = true
    · obtain ⟨⟨_, value'⟩, mem, rfl⟩ := List.mem_map.1 (List.contains_iff_mem.1 known)
      rw [Std.ExtTreeMap.getElem?_ofList_of_mem self distinct mem] at found
      cases found
      exact mem
    · rw [Std.ExtTreeMap.getElem?_ofList_of_contains_eq_false (Bool.not_eq_true _ ▸ known)] at found
      cases found
  · exact Std.ExtTreeMap.getElem?_ofList_of_mem self distinct

theorem ofList_toList (t : Std.ExtTreeMap String α) : Std.ExtTreeMap.ofList t.toList = t := by
  apply Std.ExtTreeMap.ext_getElem?
  intro name
  apply Option.ext
  intro value
  rw [getElem?_ofList_eq_some_iff t.distinct_keys_toList, Std.ExtTreeMap.mem_toList_iff_getElem?_eq_some]

/-! ### One pair after the other -/

/-- The map with all pairs put into it, each under a key made of its own. -/
def insertAll (key : String → String) (entries : List (String × α)) (t : Std.ExtTreeMap String α) :
    Std.ExtTreeMap String α :=
  entries.foldl (fun t entry => t.insert (key entry.1) entry.2) t

variable {key : String → String} {t : Std.ExtTreeMap String α}

theorem getElem?_insertAll_of_forall_ne (others : ∀ entry ∈ entries, key entry.1 ≠ name) :
    (insertAll key entries t)[name]? = t[name]? := by
  induction entries generalizing t with
  | nil => rfl
  | cons entry entries ih =>
    change (insertAll key entries (t.insert (key entry.1) entry.2))[name]? = t[name]?
    rw [ih fun other mem => others other (List.mem_cons_of_mem entry mem),
      getElem?_insert_of_ne (others entry List.mem_cons_self)]

theorem getElem?_insertAll_of_exists (present : ∃ entry ∈ entries, key entry.1 = name)
    (same : ∀ entry ∈ entries, key entry.1 = name → entry.2 = value) :
    (insertAll key entries t)[name]? = some value := by
  induction entries generalizing t with
  | nil =>
    obtain ⟨entry, impossible, _⟩ := present
    cases impossible
  | cons entry entries ih =>
    have sameRest : ∀ other ∈ entries, key other.1 = name → other.2 = value :=
      fun other mem => same other (List.mem_cons_of_mem entry mem)
    by_cases later : ∃ other ∈ entries, key other.1 = name
    · exact ih later sameRest
    · obtain ⟨found, mem, here⟩ := present
      have last : found = entry := (List.mem_cons.1 mem).resolve_right fun mem => later ⟨found, mem, here⟩
      subst last
      change (insertAll key entries (t.insert (key found.1) found.2))[name]? = some value
      rw [getElem?_insertAll_of_forall_ne fun other mem here => later ⟨other, mem, here⟩, here,
        Std.ExtTreeMap.getElem?_insert_self, same found List.mem_cons_self here]

end Containment
