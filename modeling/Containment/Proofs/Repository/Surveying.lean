/-
Module: Containment.Proofs.Repository.Surveying
Purpose: Both walks through the hierarchy come to an end. In a forest of bounded depth the way up never meets the bound,
  and the search downwards runs out of containers before it runs out of levels; so, undisturbed, the depth and
  the height that a check asks for are always found.
Main exports: Action.Succeeds.reads, succeeds_levelsBelow, succeeds_subtreeHeight
-/
import Containment.Proofs.Repository.Making
import Containment.Proofs.Repository.Walks

namespace Containment

open Containment.Action

/-- What every reading of the holdings finds is found by a program that ends well. -/
theorem Action.Succeeds.reads {α : Type} {x : Action α} {w : World} {h : Holdings} {P : α → World → Prop} {Q : α → Prop}
    (succeeds : x.Succeeds w P) (serves : w.Serves h) (reads : x.Reads h Q) :
    x.Succeeds w fun a w' => P a w' ∧ Q a := by
  obtain ⟨a, w', ended, good⟩ := succeeds
  obtain ⟨h', run, -⟩ := Program.run_runs none x.run serves.holds
  rw [ended] at run
  obtain ⟨-, -, found⟩ := reads _ _ _ run
  exact ⟨a, w', ended, good, found⟩

/-- What every reading of the holdings finds is found by a program that judges, if it goes on. -/
theorem Action.Judges.reads {α : Type} {x : Action α} {w : World} {h : Holdings} {objections : List Objection}
    {P : α → World → Prop} {Q : α → Prop} (judges : x.Judges w objections P) (serves : w.Serves h)
    (reads : x.Reads h Q) : x.Judges w objections fun a w' => P a w' ∧ Q a :=
  ⟨fun none => (judges.passes none).reads serves reads, judges.refuses⟩

namespace Repository

variable {w : World} {h : Holdings} {limits : Limits} {id : String}

/-! ### Downwards -/

theorem succeeds_readAll (serves : w.Serves h) (ids : List String) : (readAll ids).Succeeds w fun _ w' => w' = w := by
  induction ids with
  | nil => exact succeeds_pure rfl
  | cons id rest ih =>
    apply (succeeds_read? serves id).bind
    rintro _ _ ⟨-, rfl⟩
    apply ih.bind
    rintro _ _ rfl
    exact succeeds_pure rfl

theorem succeeds_childRecords (serves : w.Serves h) (sane : h.store.contents.Sane)
    (stored : (h.store.contents.shape id).isSome) : (childRecords id).Succeeds w fun _ w' => w' = w := by
  rw [Contents.shape, Option.isSome_map, MemoryStore.contents, Option.isSome_map] at stored
  obtain ⟨r, found⟩ := Option.isSome_iff_exists.1 stored
  apply (succeeds_load serves sane found).bind
  rintro _ _ ⟨-, rfl⟩
  apply (succeeds_readAll serves _).bind
  rintro _ _ rfl
  exact succeeds_pure rfl

theorem succeeds_nextLevel (serves : w.Serves h) (sane : h.store.contents.Sane) {level : List String}
    (stored : ∀ id ∈ level, (h.store.contents.shape id).isSome) (seen : Std.ExtTreeSet String) :
    (nextLevel level seen).Succeeds w fun _ w' => w' = w := by
  induction level generalizing seen with
  | nil => exact succeeds_pure rfl
  | cons id rest ih =>
    apply (succeeds_childRecords serves sane (stored id List.mem_cons_self)).bind
    rintro records _ rfl
    apply (ih (fun other mem => stored other (List.mem_cons_of_mem id mem)) _).bind
    rintro _ _ rfl
    exact succeeds_pure rfl

/-- A level that is not empty is no deeper than the bound, so there is still something left of it to go on with. -/
theorem succeeds_levelsBelow (serves : w.Serves h) (sane : h.store.contents.Sane)
    (bounded : h.store.contents.shape.Bounded limits.maxDepth) (top : String) {remaining depth : Nat}
    {level : List String} {seen : Std.ExtTreeSet String} (here : Level h.store.contents.shape depth level seen)
    (room : limits.maxDepth < depth + remaining) :
    (levelsBelow limits top remaining level seen).Succeeds w fun _ w' => w' = w := by
  induction remaining generalizing depth level seen with
  | zero =>
    cases level with
    | nil => exact succeeds_pure rfl
    | cons id rest =>
      have le : depth ≤ limits.maxDepth := Shape.Depth.le (here.same id List.mem_cons_self) bounded
      omega
  | succ remaining ih =>
    cases level with
    | nil => exact succeeds_pure rfl
    | cons id rest =>
      have stored : ∀ x ∈ id :: rest, (h.store.contents.shape x).isSome := by
        intro x mem
        obtain ⟨chain, walk, -⟩ := here.same x mem
        exact walk.stored x walk.head_mem
      have next := (succeeds_nextLevel serves sane stored seen).reads serves (reads_nextLevel sane (id :: rest) seen)
      apply next.bind
      rintro ⟨level, seen'⟩ _ ⟨rfl, grown, placed, -⟩
      apply (ih (here.descend (here.named sane) placed grown) (by omega)).bind
      rintro _ _ rfl
      exact succeeds_pure rfl

/-- The height of a stored container's subtree is found. -/
theorem succeeds_subtreeHeight (serves : w.Serves h) (sane : h.store.contents.Sane)
    (forest : h.store.contents.Forest limits.maxDepth) (stored : (h.store.contents.shape id).isSome) :
    (subtreeHeight limits id).Succeeds w fun levels w' => w' = w ∧ h.store.contents.shape.Height id levels := by
  obtain ⟨chain, walk, -⟩ := forest.bounded id stored
  have positive : 1 ≤ chain.length := List.length_pos_of_mem walk.head_mem
  have searched : (subtreeHeight limits id).Succeeds w fun _ w' => w' = w :=
    succeeds_levelsBelow serves sane forest.bounded id (level_single walk) (by omega)
  apply (searched.reads serves (reads_subtreeHeight sane)).mono
  rintro levels w' ⟨same, height⟩
  exact ⟨same, height forest.linked chain walk⟩

end Repository

end Containment
