/-
Module: Containment.Proofs.Repository.Arising
Purpose: States that arise from an empty repository by calls of any kind, whatever fails on the way. Every stored
  container keeps the rules in them, and the index is in order.
Main exports: Call.ensures_sane, Holdings.Arises, Holdings.Arises.sane, Holdings.Arises.indexed
-/
import Containment.Proofs.Repository.Reachable

namespace Containment

namespace Action

variable {α β : Type} {h : Holdings} {x : Action β} {f : β → Action α}

/-- Every stored container keeps the rules, however the program ends. -/
def SaneAfter {α : Type} : Post α :=
  fun _ _ h' => h'.store.contents.Sane

theorem Reads.sane_bind {P : β → Prop} (reads : x.Reads h P) (sane : h.store.contents.Sane)
    (ok : ∀ b, P b → (f b).Ensures h SaneAfter) : (x >>= f).Ensures h SaneAfter :=
  reads.ensures_bind (fun _ _ _ => sane) ok

theorem Ensures.sane_bind (first : x.Ensures h SaneAfter)
    (ok : ∀ b h₁, h₁.store.contents.Sane → (f b).Ensures h₁ SaneAfter) : (x >>= f).Ensures h SaneAfter :=
  first.bind (fun _ b h₁ sane => ok b h₁ sane) fun _ _ _ sane => sane

end Action

namespace Repository

open Containment.Action

variable {h : Holdings} {limits : Limits} {c : Container}

/-- A new container is stored by the rules, with whatever members it comes. -/
theorem ensures_sane_createHeld (sane : h.store.contents.Sane) (valid : c.toSnapshot.Valid) :
    (createHeld limits c).Ensures h SaneAfter := by
  refine (ensures_createHeld_any sane valid).mono fun fails out h' ended => ?_
  obtain ⟨settled, -⟩ := ended
  cases out with
  | ok made =>
    obtain ⟨events, ⟨-, created, -⟩, -⟩ := settled
    exact created.sane sane
  | error e => exact Kept.sane settled

theorem ensures_sane_create (sane : h.store.contents.Sane) : (create limits c).Ensures h SaneAfter := by
  simp only [create]
  apply reads_ofContainer.sane_bind sane
  intro _ accepted
  refine ensures_withLock (fun _ => sane) (ensures_withContainers (fun _ => sane) ?_)
  exact ensures_sane_createHeld sane (Container.validate_eq_ok_iff.1 accepted)

theorem ensures_sane_addMembers {classifier : Classifier} {id : String} (members : List String)
    (sane : h.store.contents.Sane) : (addMembers classifier id members).Ensures h SaneAfter := by
  induction members generalizing h with
  | nil => exact ensures_pure sane
  | cons member rest ih =>
    have added : (addMember classifier id member).Ensures h SaneAfter := by
      refine (ensures_addMember sane).mono fun fails out h' verdict => ?_
      cases out with
      | ok added =>
        obtain ⟨events, grown, -⟩ := verdict
        exact grown.sane sane
      | error e => exact Kept.sane verdict
    simp only [addMembers]
    apply added.sane_bind
    intro _ h₁ sane₁
    apply (ih sane₁).sane_bind
    intro _ h₂ sane₂
    exact ensures_pure sane₂

end Repository

/-- Calls keep every stored container to the rules, however they end. -/
theorem Call.ensures_sane {settings : Settings} {h : Holdings} (call : Call) (sane : h.store.contents.Sane) :
    (call.action settings).Ensures h Action.SaneAfter := by
  by_cases ordinary : call.IsOrdinary
  · exact (Call.ensures ordinary sane).mono fun _ _ _ verdict => verdict.sane sane
  cases call with
  | create draft =>
    apply (Repository.reads_draw draft).sane_bind sane
    intro c _
    apply Action.Ensures.map
    exact Repository.ensures_sane_create sane
  | addMembers id members =>
    apply Action.Ensures.map
    exact Repository.ensures_sane_addMembers members sane
  | _ => exact absurd trivial ordinary

/-- Calls of any kind, one after the other, lead from an empty repository to this state, each in whatever context and
with whatever requests failing. -/
inductive Holdings.Arises (settings : Settings) : Holdings → Prop
  | empty : Arises settings {}
  | call {h h' : Holdings} {call : Call} {fails : List FaultPoint} {outcome : Outcome} :
      Arises settings h → (call.program settings).Runs h fails outcome h' → Arises settings h'

namespace Holdings.Arises

variable {settings : Settings} {h : Holdings}

theorem sane (arises : h.Arises settings) : h.store.contents.Sane := by
  induction arises with
  | empty => exact MemoryStore.sane_empty
  | call _ run before => exact Call.ensures_sane _ before _ _ _ run

theorem indexed (arises : h.Arises settings) : h.Indexed := by
  induction arises with
  | empty => exact Holdings.indexed_empty
  | call _ run before => exact before.runs run

end Holdings.Arises

/-- A world goes through such states only. -/
theorem World.Holds.arises_after {settings : Settings} {w : World} {h : Holdings}
    (calls : List (Option Cancellation × Call)) (holds : w.Holds h) (clean : w.faults = [])
    (arises : h.Arises settings) :
    ∃ h', (w.after settings calls).Holds h' ∧ (w.after settings calls).faults = [] ∧ h'.Arises settings := by
  induction calls generalizing w h with
  | nil => exact ⟨h, holds, clean, arises⟩
  | cons entry rest ih =>
    obtain ⟨h₁, run, holds₁, clean₁⟩ := Program.run_undisturbed entry.1 (entry.2.program settings) holds clean
    exact ih holds₁ clean₁ (.call arises run)

end Containment
