/-
Module: Containment.Proofs.Repository.Clean
Purpose: States that arise from an empty repository by calls of any kind, none of which meets a request that fails. The
  stored containers form a forest of bounded depth in them, and every row of the index is of a member.
Main exports: Call.keeps_forest, Holdings.ArisesCleanly, Holdings.ArisesCleanly.forest, Holdings.ArisesCleanly.tended
-/
import Containment.Proofs.Repository.Arising
import Containment.Proofs.Repository.Covering

namespace Containment

open Containment.Action Repository

namespace Repository

variable {h h' : Holdings} {limits : Limits} {depth : Nat}

/-- A call that settles without a failed request leaves a forest, if its effect does. -/
theorem Settled.forest {α : Type} {effect : α → List Event → MemoryStore → Prop} {out : Except RepositoryError α}
    (settled : Settled h effect [] out h') (forest : h.store.contents.Forest depth)
    (keeps : ∀ a events S', effect a events S' → S'.contents.Forest depth) : h'.store.contents.Forest depth := by
  cases out with
  | ok a =>
    obtain ⟨events, done, -⟩ := settled
    exact keeps a events h'.store done
  | error e =>
    have same : h.store.SameContents h'.store :=
      Kept.contents settled fun _ impossible => absurd impossible List.not_mem_nil
    rw [same.contents]
    exact forest

/-- A creation keeps the forest, with whatever members the new container comes. -/
theorem forest_create {c : Container} (sane : h.store.contents.Sane) (positive : 1 ≤ depth)
    (within : limits.maxDepth ≤ depth) (forest : h.store.contents.Forest depth) :
    (create limits c).Keeps h fun h' => h'.store.contents.Forest depth := by
  simp only [create]
  refine reads_ofContainer.keeps_bind forest ?_
  intro _ accepted
  have valid : c.toSnapshot.Valid := Container.validate_eq_ok_iff.1 accepted
  have held : (createHeld limits c).Keeps h fun h' => h'.store.contents.Forest depth := by
    intro fails out h' run none
    subst none
    apply (ensures_createHeld_any sane valid _ _ _ run).1.forest forest
    intro answer events S' made
    rcases made with ⟨-, created, room⟩
    exact created.forest sane forest positive (room.mono within)
  exact (held.withContainers forest).withLock forest

/-- Listing a member keeps the forest. -/
theorem forest_addMember {classifier : Classifier} {id member : String} (sane : h.store.contents.Sane)
    (forest : h.store.contents.Forest depth) :
    (addMember classifier id member).Keeps h fun h' =>
      h'.store.contents.Sane ∧ h'.store.contents.Forest depth := by
  intro fails out h' run none
  subst none
  have verdict := ensures_addMember sane _ _ _ run
  constructor
  · cases out with
    | ok added =>
      obtain ⟨events, grown, -⟩ := verdict
      exact grown.sane sane
    | error e => exact Kept.sane verdict
  · apply verdict.settled.forest forest
    exact fun _ _ _ grown => grown.forest sane forest

theorem forest_addMembers {classifier : Classifier} {id : String} (members : List String)
    (sane : h.store.contents.Sane) (forest : h.store.contents.Forest depth) :
    (addMembers classifier id members).Keeps h fun h' =>
      h'.store.contents.Sane ∧ h'.store.contents.Forest depth := by
  induction members generalizing h with
  | nil => exact keeps_pure ⟨sane, forest⟩ 0
  | cons member rest ih =>
    refine (forest_addMember sane forest).bind ?_
    intro _ h₁ kept
    refine (ih kept.1 kept.2).bind ?_
    intro count h₂ kept
    exact keeps_pure kept _

end Repository

/-- The effect of a call that neither creates nor moves a container keeps the forest, however deep it is. -/
theorem Call.Effects.forest {settings : Settings} {call : Call} {S S' : MemoryStore} {reply : Reply}
    {events : List Event} {depth : Nat} (effects : call.Effects settings S reply events S') (sane : S.contents.Sane)
    (forest : S.contents.Forest depth) (created : ∀ draft, call ≠ .create draft)
    (moved : ∀ id target, call ≠ .move id target) : S'.contents.Forest depth := by
  cases call with
  | create draft => exact absurd rfl (created draft)
  | move id target => exact absurd rfl (moved id target)
  | delete id => exact effects.2.forest sane forest
  | updateMetadata id update =>
    obtain ⟨_, -, amended⟩ := effects
    exact amended.forest sane forest
  | addMember container member =>
    obtain ⟨_, -, grown⟩ := effects
    exact grown.forest sane forest
  | removeMember container member =>
    obtain ⟨_, -, shrunk⟩ := effects
    exact shrunk.forest sane forest
  | addMembers container members => exact effects.elim
  | _ =>
    obtain ⟨-, same⟩ := effects
    exact same ▸ forest

/-- As long as no request fails, calls of every kind keep the forest. -/
theorem Call.keeps_forest {settings : Settings} {h : Holdings} (call : Call) {depth : Nat} (positive : 1 ≤ depth)
    (within : settings.limits.maxDepth ≤ depth) (sane : h.store.contents.Sane)
    (forest : h.store.contents.Forest depth) :
    (call.action settings).Keeps h fun h' => h'.store.contents.Forest depth := by
  have others : call.IsOrdinary → (∀ draft, call ≠ .create draft) → (∀ id target, call ≠ .move id target) →
      (call.action settings).Keeps h fun h' => h'.store.contents.Forest depth := by
    intro ordinary created moved fails out h' run none
    subst none
    apply (Call.ensures ordinary sane _ _ _ run).settled.forest forest
    exact fun _ _ _ effects => effects.1.forest sane forest created moved
  cases call with
  | create draft =>
    refine (reads_draw draft).keeps_bind forest ?_
    intro c _
    exact (forest_create sane positive within forest).map
  | addMembers id members =>
    exact ((forest_addMembers members sane forest).mono fun _ kept => kept.2).map
  | move id target =>
    have moves : (Repository.move settings.limits id target).Keeps h fun h' => h'.store.contents.Forest depth := by
      intro fails out h' run none
      subst none
      apply (ensures_move sane _ _ _ run).settled.forest forest
      rintro answer events S' ⟨moved, admits⟩
      exact moved.forest sane forest ((admits depth forest).mono within)
    exact moves.map
  | _ => exact others trivial nofun nofun

/-- Calls of any kind, one after the other, lead from an empty repository to this state, each in whatever context. Some
may be refused or cancelled, but no request that they make of the store or the index fails. -/
inductive Holdings.ArisesCleanly (settings : Settings) : Holdings → Prop
  | empty : ArisesCleanly settings {}
  | call {h h' : Holdings} {call : Call} {outcome : Outcome} :
      ArisesCleanly settings h → (call.program settings).Runs h [] outcome h' → ArisesCleanly settings h'

namespace Holdings.ArisesCleanly

variable {settings : Settings} {h : Holdings}

theorem tended (arises : h.ArisesCleanly settings) : h.Tended := by
  induction arises with
  | empty => exact Holdings.tended_empty
  | call _ run before => exact Call.keeps_tended _ before _ _ _ run rfl

/-- A forest is bounded by any depth that is no less than the repository's own. -/
theorem forest_within (arises : h.ArisesCleanly settings) {depth : Nat} (positive : 1 ≤ depth)
    (within : settings.limits.maxDepth ≤ depth) : h.store.contents.Forest depth := by
  induction arises with
  | empty =>
    rw [MemoryStore.contents_empty]
    exact Contents.forest_empty
  | call earlier run before => exact Call.keeps_forest _ positive within earlier.tended.sane before _ _ _ run rfl

/-- A root needs one level, even where the bound allows none. -/
theorem forest_max (arises : h.ArisesCleanly settings) : h.store.contents.Forest (max settings.limits.maxDepth 1) :=
  arises.forest_within (le_max_right _ 1) (le_max_left _ _)

theorem forest (arises : h.ArisesCleanly settings) (positive : 1 ≤ settings.limits.maxDepth) :
    h.store.contents.Forest settings.limits.maxDepth :=
  arises.forest_within positive le_rfl

end Holdings.ArisesCleanly

/-- A world without planted faults goes through such states only. -/
theorem World.Holds.arisesCleanly_after {settings : Settings} {w : World} {h : Holdings}
    (calls : List (Option Cancellation × Call)) (holds : w.Holds h) (clean : w.faults = [])
    (arises : h.ArisesCleanly settings) :
    ∃ h', (w.after settings calls).Holds h' ∧ (w.after settings calls).faults = [] ∧ h'.ArisesCleanly settings := by
  induction calls generalizing w h with
  | nil => exact ⟨h, holds, clean, arises⟩
  | cons entry rest ih =>
    obtain ⟨h₁, run, holds₁, clean₁⟩ := Program.run_undisturbed entry.1 (entry.2.program settings) holds clean
    exact ih holds₁ clean₁ (.call arises run)

end Containment
