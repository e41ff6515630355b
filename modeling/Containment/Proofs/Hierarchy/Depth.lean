/-
Module: Containment.Proofs.Hierarchy.Depth
Purpose: How deep a container sits and how high its subtree is, counted in containers and in levels. Both are told by
  the parents alone; what is below a container sits just as much deeper than it as there are levels between.
Main exports: Shape.Depth, Shape.Height, Shape.Chain.extend_below, Shape.Chain.mem_iff_below,
  Shape.Bounded.exists_depth, Shape.Bounded.exists_height
-/
import Containment.Proofs.Hierarchy.Forest
import Mathlib.Data.Nat.Find

namespace Containment

/-- Nothing is stored without a name. -/
theorem Contents.Sane.nameless {C : Contents} (sane : C.Sane) : C.shape "" = none := by
  rw [Contents.shape, Option.map_eq_none_iff, ← Option.not_isSome_iff_eq_none, Option.isSome_iff_exists]
  intro given
  obtain ⟨s, stored⟩ := given
  obtain ⟨own, valid⟩ := sane "" s stored
  exact valid.id_ne_empty own

namespace Shape

/-- From the root down to the container there are `n` containers, both included. -/
def Depth (f : Shape) (id : String) (n : Nat) : Prop :=
  ∃ chain, f.Chain id chain ∧ chain.length = n

/-- The subtree of the container has `n` levels, its own included. -/
structure Height (f : Shape) (id : String) (n : Nat) : Prop where
  deepest : ∃ j x, f.Below j id x ∧ n = j + 1
  bound : ∀ j x, f.Below j id x → j < n

variable {f : Shape} {id top x : String} {n k depth j : Nat} {chain : List String}

/-- What sits below another one has a parent. -/
theorem Below.stored (path : f.Below (j + 1) top x) : (f x).isSome := by
  induction j generalizing top with
  | zero =>
    obtain ⟨child, link, same⟩ := path
    obtain rfl : x = child := same
    exact Option.isSome_of_mem link
  | succ j ih =>
    obtain ⟨child, -, path⟩ := path
    exact ih path

theorem Depth.stored (at_depth : f.Depth id n) : (f id).isSome := by
  obtain ⟨chain, walk, -⟩ := at_depth
  exact walk.stored id walk.head_mem

theorem Depth.unique (one : f.Depth id n) (other : f.Depth id k) : n = k := by
  obtain ⟨chain, walk, rfl⟩ := one
  obtain ⟨chain', walk', rfl⟩ := other
  rw [walk.unique walk']

theorem Height.unique (one : f.Height id n) (other : f.Height id k) : n = k := by
  obtain ⟨j, x, path, rfl⟩ := one.deepest
  obtain ⟨i, y, path', rfl⟩ := other.deepest
  have below := other.bound j x path
  have above := one.bound i y path'
  omega

/-- What sits below a container has a chain that goes through all of the container's own. -/
theorem Chain.extend_below (nameless : f "" = none) (walk : f.Chain top chain) (path : f.Below j top x) :
    ∃ lower, f.Chain x lower ∧ lower.length = chain.length + j ∧ chain ⊆ lower := by
  induction j generalizing top chain with
  | zero =>
    obtain rfl : x = top := path
    exact ⟨chain, walk, rfl, List.Subset.refl chain⟩
  | succ j ih =>
    obtain ⟨child, link, path⟩ := path
    have proper : top ≠ "" := by
      intro empty
      have stored := walk.stored top walk.head_mem
      rw [empty, nameless] at stored
      cases stored
    obtain ⟨lower, deeper, length, passes⟩ := ih (.step link proper walk) path
    refine ⟨lower, deeper, ?_, fun y mem => passes (List.mem_cons_of_mem child mem)⟩
    rw [length, List.length_cons]
    omega

/-- The containers on the way up are those that one is below. -/
theorem Chain.mem_iff_below {upper : List String} (nameless : f "" = none) (walk : f.Chain x chain)
    (stored : f.Chain top upper) : top ∈ chain ↔ ∃ j, f.Below j top x := by
  constructor
  · intro mem
    obtain ⟨j, path, -⟩ := walk.split mem
    exact ⟨j, path⟩
  · intro given
    obtain ⟨j, path⟩ := given
    obtain ⟨lower, walk', -, passes⟩ := stored.extend_below nameless path
    rw [walk.unique walk']
    exact passes stored.head_mem

theorem Bounded.exists_depth (bounded : f.Bounded depth) (stored : (f id).isSome) : ∃ n, f.Depth id n ∧ n ≤ depth := by
  obtain ⟨chain, walk, le⟩ := bounded id stored
  exact ⟨chain.length, ⟨chain, walk, rfl⟩, le⟩

theorem Depth.le (at_depth : f.Depth id n) (bounded : f.Bounded depth) : n ≤ depth := by
  obtain ⟨chain, walk, rfl⟩ := at_depth
  obtain ⟨other, walk', le⟩ := bounded id (walk.stored id walk.head_mem)
  rw [walk.unique walk']
  exact le

/-- Nothing below a stored container sits deeper than the bound, so its subtree has a last level. -/
theorem Bounded.exists_height (bounded : f.Bounded depth) (nameless : f "" = none) (stored : (f id).isSome) :
    ∃ n, f.Height id n := by
  classical
  obtain ⟨chain, walk, -⟩ := bounded id stored
  have within : ∀ j x, f.Below j id x → j ≤ depth := by
    intro j x path
    obtain ⟨lower, deeper, length, -⟩ := walk.extend_below nameless path
    have le : lower.length ≤ depth := Depth.le ⟨lower, deeper, rfl⟩ bounded
    omega
  let last := Nat.findGreatest (fun j => ∃ x, f.Below j id x) depth
  have attained : ∃ x, f.Below last id x :=
    Nat.findGreatest_spec (P := fun j => ∃ x, f.Below j id x) (Nat.zero_le depth) ⟨id, rfl⟩
  obtain ⟨x, path⟩ := attained
  refine ⟨last + 1, ⟨last, x, path, rfl⟩, fun j y path => ?_⟩
  exact Nat.lt_succ_of_le (Nat.le_findGreatest (within j y path) ⟨y, path⟩)

end Shape

theorem Contents.Sane.not_depth_nameless {C : Contents} (sane : C.Sane) (n : Nat) : ¬ C.shape.Depth "" n := by
  intro at_depth
  have stored := at_depth.stored
  rw [sane.nameless] at stored
  cases stored

end Containment
