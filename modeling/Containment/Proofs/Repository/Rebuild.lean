/-
Module: Containment.Proofs.Repository.Rebuild
Purpose: Writing the index anew touches the index alone, and an index that was right stays right at every step,
  whatever fails on the way.
Main exports: Tidied, ensures_rebuild, ensures_rebuildAll
-/
import Containment.Proofs.Repository.Questions
import Containment.Proofs.Repository.Verdict
import Containment.Proofs.Repository.Walks

namespace Containment

open Function (update)

/-- Only the index may differ, and not if it was right. Without failures the call does not end with the error of a
spoiled write. -/
def Tidied {α : Type} (h : Holdings) : Action.Post α := fun fails out h' =>
  h.IndexOnly h' ∧ (h.Mirrored → h'.Mirrored) ∧ (fails = [] → Action.Harmless out)

namespace Action

variable {α β : Type} {h : Holdings}

theorem Looks.tidies {x : Action α} (looks : x.Looks fun _ => True) : x.Ensures h (Tidied h) := by
  intro fails out h' run
  obtain ⟨rfl, harmless⟩ := looks.reads run
  exact ⟨.refl _, id, harmless⟩

theorem tidies_bind {x : Action α} {f : α → Action β} (first : x.Ensures h (Tidied h))
    (second : ∀ a h₁, h₁.store = h.store → (f a).Ensures h₁ (Tidied h₁)) :
    (x >>= f).Ensures h (Tidied h) := by
  refine first.bind ?_ ?_
  · intro early a h₁ given
    rcases given with ⟨only, mirrored, -⟩
    refine (second a h₁ only.store).mono ?_
    intro late out h' given
    rcases given with ⟨only', mirrored', harmless⟩
    refine ⟨only.trans only', mirrored' ∘ mirrored, fun none => harmless ?_⟩
    exact (List.append_eq_nil_iff.1 none).2
  · intro fails e h' given
    rcases given with ⟨only, mirrored, harmless⟩
    refine ⟨only, mirrored, fun none e' same => harmless none e' ?_⟩
    cases same
    rfl

/-- Taking an error and going on with something that only looks. -/
theorem tidies_tryCatch {x : Action α} {handler : RepositoryError → Action α} (first : x.Ensures h (Tidied h))
    (always : ∀ e, Program.Looks (fun _ => True) (handler e).run fun _ => True)
    (harmless : ∀ e, ¬ e.IsWriteFault → (handler e).Looks fun _ => True) :
    (tryCatch x handler : Action α).Ensures h (Tidied h) := by
  refine Ensures.tryCatch (first.mono fun early out h₁ ended => ?_)
  cases out with
  | ok a => exact ended
  | error e =>
    obtain ⟨only, mirrored, clean⟩ := ended
    intro late out h' run
    obtain ⟨rfl, -⟩ := (always e).runs run
    refine ⟨only, mirrored, fun none => ?_⟩
    obtain ⟨rfl, rfl⟩ := List.append_eq_nil_iff.1 none
    exact ((harmless e (clean rfl e rfl)).reads run).2 rfl

theorem tidies_withLock {lock : LockName} {mode : Mode} {body : Action α} (held : body.Ensures h (Tidied h)) :
    (withLock lock mode body).Ensures h (Tidied h) := by
  refine ensures_withLock (fun reason => ⟨.refl h, id, ?_⟩) held
  intro _ e impossible
  cases impossible
  exact not_false

/-- A request to the index that keeps an index that was right. -/
theorem tidies_index {call : IndexCall}
    (right : h.Mirrored → (h.index.perform call).2.Lists h.store.contents.listing) :
    (index call).Ensures h (Tidied h) := by
  refine ensures_tryIndex ?_ fun e => ensures_throw ⟨.refl h, id, ?_⟩
  · split
    · refine ensures_pure ⟨⟨rfl, rfl⟩, right, ?_⟩
      intro _ e impossible
      cases impossible
    · refine ensures_throw ⟨⟨rfl, rfl⟩, right, ?_⟩
      intro _ e impossible
      cases impossible
      exact not_false
  · intro _ e impossible
    cases impossible
    exact not_false

end Action

namespace Repository

open Containment.Action

variable {h : Holdings} {id : String}

theorem ensures_rebuildHeld (sane : h.store.contents.Sane) : (rebuildHeld id).Ensures h (Tidied h) := by
  simp only [rebuildHeld]
  refine reads_load.ensures_bind (fun fails e harmless => ⟨.refl h, fun right => right, ?_⟩) ?_
  · intro none e' impossible
    cases impossible
    exact harmless none
  intro answer given
  rcases answer with ⟨record, c⟩
  rcases given with ⟨found, -⟩
  apply tidies_bind (looks_checkContext).tidies
  intro _ h₁ store
  apply tidies_bind
  · apply tidies_index
    intro mirrored
    rw [store]
    have stored : h.store.contents.listing id = some record.container.members := by
      change (h.store.contents id).map Snapshot.members = _
      rw [MemoryStore.contents_eq_some found]
      rfl
    have lists : h₁.index.Lists h.store.contents.listing := by
      rw [← store]
      exact mirrored
    have after := (lists.replacePartition (c := id) (sane.record found).2.nodup).2
    rw [← stored, Function.update_eq_self] at after
    exact after
  · intro _ h₂ _
    exact (looks_pure record.container.members.length).tidies

/-- A partition that has been written anew lists the members of its container, whatever it listed before. -/
theorem ensures_rebuildHeld_rows {lists : Listing} (sane : h.store.contents.Sane) (known : h.Lists lists) :
    (rebuildHeld id).Ensures h fun _ out h' => ∀ rows, out = .ok rows → ∃ r, h.store.records[id]? = some r ∧
      h'.Lists (update lists id (some r.container.members)) := by
  simp only [rebuildHeld]
  refine reads_load.ensures_bind (fun _ _ _ _ impossible => by cases impossible) ?_
  rintro ⟨record, c⟩ ⟨found, -⟩
  refine reads_checkContext.ensures_bind (fun _ _ _ _ impossible => by cases impossible) ?_
  intro _ _
  have replaced := Index.Lists.replacePartition (c := id) known (sane.record found).2.nodup
  simp only [index, bind_assoc]
  refine ensures_tryIndex ?_ fun e => ensures_throw fun _ impossible => by cases impossible
  rw [replaced.1]
  exact ensures_pure fun _ _ => ⟨record, found, replaced.2⟩

theorem ensures_rebuild (sane : h.store.contents.Sane) : (rebuild id).Ensures h (Tidied h) :=
  tidies_withLock (ensures_rebuildHeld sane)

theorem ensures_rebuildEach (ids : List String) (summary : RebuildSummary) (sane : h.store.contents.Sane) :
    (rebuildEach ids summary).Ensures h (Tidied h) := by
  induction ids generalizing h summary with
  | nil => exact (looks_pure summary).tidies
  | cons id rest ih =>
    simp only [rebuildEach]
    apply tidies_bind
    · apply tidies_tryCatch
      · rw [map_eq_pure_bind]
        exact tidies_bind (ensures_rebuild sane) fun rows h₁ _ => (looks_pure (some rows)).tidies
      · intro e
        cases e <;> exact trivial
      · intro e harmless
        cases e <;> first | exact looks_pure none | exact looks_throw harmless
    · intro rows h₁ store
      have sane₁ : h₁.store.contents.Sane := by
        rw [store]
        exact sane
      cases rows with
      | none => exact ih summary sane₁
      | some rows => exact ih _ sane₁

theorem ensures_dropOrphan (partition : String) : (dropOrphan partition).Ensures h (Tidied h) := by
  simp only [dropOrphan]
  refine reads_isStored.ensures_bind (fun fails e harmless => ⟨.refl h, fun right => right, ?_⟩) ?_
  · intro none e' impossible
    cases impossible
    exact harmless none
  intro stored same
  subst same
  by_cases there : (h.store.contents partition).isSome = true
  · simp only [if_pos there]
    exact (looks_pure false).tidies
  · simp only [if_neg there]
    apply tidies_index
    intro mirrored
    have absent : h.store.contents.listing partition = none := by
      rw [Contents.listing, Option.map_eq_none_iff]
      simpa using there
    have after := (Index.Lists.dropPartition mirrored partition).2
    rw [← absent, Function.update_eq_self] at after
    exact after

theorem ensures_dropOrphans (partitions : List String) (summary : RebuildSummary) :
    (dropOrphans partitions summary).Ensures h (Tidied h) := by
  induction partitions generalizing h summary with
  | nil => exact (looks_pure summary).tidies
  | cons partition rest ih =>
    simp only [dropOrphans]
    apply tidies_bind (tidies_withLock (ensures_dropOrphan partition))
    exact fun dropped h₁ _ => ih _

theorem ensures_rebuildAll (sane : h.store.contents.Sane) : rebuildAll.Ensures h (Tidied h) := by
  simp only [rebuildAll]
  apply tidies_bind (looks_store .ids trivial).tidies
  intro ids h₁ store
  have sane₁ : h₁.store.contents.Sane := by
    rw [store]
    exact sane
  apply tidies_bind (ensures_rebuildEach ids {} sane₁)
  intro summary h₂ _
  apply tidies_bind (looks_index .partitions trivial).tidies
  exact fun partitions h₃ _ => ensures_dropOrphans _ summary

end Repository

/-- A call that touches the index alone has no effect on the store. -/
theorem Action.Ensures.verdict_of_tidied {α : Type} {h : Holdings} {x : Action α}
    {effect : α → List Event → MemoryStore → Prop} (tidies : x.Ensures h (Tidied h))
    (sane : h.store.contents.Sane) (none : ∀ a, effect a [] h.store) :
    x.Ensures h (Repository.Verdict h effect) := by
  refine tidies.mono fun fails out h' ended => ?_
  obtain ⟨only, mirrored, harmless⟩ := ended
  cases out with
  | ok a =>
    refine ⟨[], ?_, ?_, fun _ => mirrored⟩
    · rw [only.store]
      exact none a
    · rw [only.published, List.append_nil]
  | error e =>
    refine ⟨only.published, ?_, ?_, ?_, ?_⟩
    · rw [only.store]
      exact sane
    · intro _
      rw [only.store]
      exact .refl _
    · exact fun clean known => ⟨only.store, mirrored known, harmless clean e rfl⟩
    · intro _ known
      rw [only.store]
      refine ⟨.refl _, ?_⟩
      have right := mirrored known
      unfold Holdings.Mirrored at right
      rw [only.store] at right
      exact right

end Containment
