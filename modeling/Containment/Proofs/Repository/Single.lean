/-
Module: Containment.Proofs.Repository.Single
Purpose: The calls that change one container: listing a member, striking one off, and changing properties. Each
  looks at the container first, so what it refuses it has not touched.
Main exports: ensures_addMember, ensures_removeMemberHeld, ensures_updateMetadataHeld
-/
import Containment.Proofs.Repository.Effects
import Containment.Proofs.Repository.Verdict
import Containment.Proofs.Repository.Walks

namespace Containment.Repository

open Containment.Action

variable {h : Holdings} {id member : String}

theorem reads_classify {classifier : Classifier} :
    (classify classifier id member).Reads h fun type => type = .container ∨ type = classifier id member := by
  simp only [classify]
  apply reads_isStored.bind
  intro stored _
  cases stored with
  | true => exact reads_pure (.inl rfl)
  | false => exact reads_pure (.inr rfl)

theorem ensures_addMemberHeld {classifier : Classifier} {type : MemberType} (sane : h.store.contents.Sane)
    (kind : type = .container ∨ type = classifier id member) :
    (addMemberHeld id member type).Ensures h
      (Verdict h fun added => Grown classifier h.store id member added) := by
  simp only [addMemberHeld]
  apply reads_load.verdict_bind sane
  intro answer given
  rcases answer with ⟨record, c⟩
  rcases given with ⟨found, hydrated⟩
  apply reads_now.verdict_bind sane
  intro time _
  apply reads_ofContainer.verdict_bind sane
  intro grown added
  apply reads_checkContext.verdict_bind sane
  intro _ _
  have ready := Prepared.of_add sane found hydrated added
  exact ensures_commit_publish sane ready ⟨record, c, grown, found, hydrated, kind, rfl, added, rfl, rfl⟩

theorem ensures_addMember {classifier : Classifier} (sane : h.store.contents.Sane) :
    (addMember classifier id member).Ensures h (Verdict h fun added => Grown classifier h.store id member added) := by
  apply reads_classify.verdict_bind sane
  intro type kind
  exact ensures_verdict_withLock sane (ensures_addMemberHeld sane kind)

theorem reads_refuseChild :
    (refuseChild id member).Reads h fun _ =>
      ∀ child, h.store.records[member]? = some child → child.parentId ≠ id := by
  simp only [refuseChild]
  apply reads_read?.bind
  intro found same
  subst same
  cases stored : h.store.records[member]? with
  | none =>
    apply reads_pure
    intro child impossible
    cases impossible
  | some child =>
    by_cases own : child.parentId = id
    · simp only [if_pos own]
      exact reads_throw not_false
    · simp only [if_neg own]
      apply reads_pure
      intro other given
      cases given
      exact own

/-- Striking off a member that is known not to be a child, if it is listed at all. -/
theorem ensures_strikeOff (sane : h.store.contents.Sane) {record : Record} {c : Container}
    (found : h.store.records[id]? = some record) (hydrated : record.hydrate = .ok c)
    (noChild : c.containsMember member = true →
      ∀ child, h.store.records[member]? = some child → child.parentId ≠ id) :
    (strikeOff record c member).Ensures h (Verdict h fun removed => Shrunk h.store id member removed) := by
  obtain ⟨sound, -, -⟩ := Record.sound_of_hydrate hydrated
  simp only [strikeOff]
  apply reads_now.verdict_bind sane
  intro time _
  apply reads_ofContainer.verdict_bind sane
  intro given done
  rcases given with ⟨removed, shrunk⟩
  apply reads_checkContext.verdict_bind sane
  intro _ _
  have ready := Prepared.of_remove sane found hydrated done
  obtain ⟨listed, named, -⟩ := sound.removeMember done
  have contained := (Container.containsMember_iff sound).2 ⟨removed, listed, named⟩
  exact ensures_commit_publish sane ready
    ⟨record, c, time, shrunk, found, hydrated, noChild contained, done, rfl, rfl⟩

theorem ensures_removeMemberHeld (sane : h.store.contents.Sane) :
    (removeMemberHeld id member).Ensures h (Verdict h fun removed => Shrunk h.store id member removed) := by
  simp only [removeMemberHeld]
  apply reads_load.verdict_bind sane
  intro answer given
  rcases answer with ⟨record, c⟩
  rcases given with ⟨found, hydrated⟩
  by_cases contained : c.containsMember member = true
  · simp only [if_pos contained]
    apply reads_refuseChild.verdict_bind sane
    intro _ noChild
    exact ensures_strikeOff sane found hydrated fun _ => noChild
  · simp only [if_neg contained]
    exact ensures_strikeOff sane found hydrated fun impossible => absurd impossible contained

theorem ensures_updateMetadataHeld {update : MetadataUpdate} (sane : h.store.contents.Sane) :
    (updateMetadataHeld id update).Ensures h
      (Verdict h fun answer => Amended h.store id update answer) := by
  simp only [updateMetadataHeld]
  apply reads_load.verdict_bind sane
  intro given known
  rcases given with ⟨record, c⟩
  rcases known with ⟨found, hydrated⟩
  apply reads_now.verdict_bind sane
  intro time _
  by_cases unchanged : (applyUpdate c update time).pending.isEmpty
  · simp only [if_pos unchanged]
    have noEvents : (applyUpdate c update time).pending = [] := List.isEmpty_iff.1 unchanged
    apply (reads_pure (P := fun answer => answer = applyUpdate c update time) rfl).verdict sane
    intro answer same
    subst same
    refine ⟨record, c, time, found, hydrated, noEvents.symm, ?_, ?_⟩
    · change _ = { applyUpdate c update time with pending := [] }
      rw [← noEvents]
    · rw [if_pos rfl]
  · simp only [if_neg unchanged]
    have someEvents : (applyUpdate c update time).pending ≠ [] := fun none => unchanged (List.isEmpty_iff.2 none)
    apply reads_checkContext.verdict_bind sane
    intro _ _
    have ready := Prepared.of_sameShape sane found hydrated (sameShape_applyUpdate c update time)
    apply ensures_commit_publish sane ready
    refine ⟨record, c, time, found, hydrated, rfl, rfl, ?_⟩
    rw [if_neg someEvents]

end Containment.Repository
