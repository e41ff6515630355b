/-
Module: Containment.Proofs.Repository.Beside
Purpose: What a call that changes one container leaves alone, whatever fails: the records and the rows of all others,
  and the shape of the hierarchy.
Main exports: Holdings.Beside, Action.BesideAfter, Call.beside
-/
import Containment.Proofs.Repository.Alike
import Containment.Proofs.Repository.Invariants
import Containment.Proofs.Repository.Single
import Containment.Proofs.Repository.Finishing

namespace Containment

open Containment.Action

/-- The rows of all containers but one are still there. -/
def Holdings.RowsBeside (d : String) (h h' : Holdings) : Prop :=
  ∀ c, c ≠ d → ∀ held, h.index.Catalogued held → ∃ held', h'.index.Catalogued held' ∧ held'[c]? = held[c]?

/-- Nothing but one container has changed, and that one has kept its parent. -/
structure Holdings.Beside (d : String) (h h' : Holdings) : Prop where
  sane : h'.store.contents.Sane
  shape : h'.store.contents.shape = h.store.contents.shape
  records : ∀ c, c ≠ d → h'.store.records[c]? = h.store.records[c]?
  rows : h.RowsBeside d h'

namespace Holdings

variable {d : String} {h h₁ h' : Holdings}

theorem RowsBeside.refl (d : String) (h : Holdings) : h.RowsBeside d h :=
  fun _ _ held known => ⟨held, known, rfl⟩

theorem RowsBeside.trans (first : h.RowsBeside d h₁) (second : h₁.RowsBeside d h') : h.RowsBeside d h' := by
  intro c ne held known
  obtain ⟨held₁, known₁, same₁⟩ := first c ne held known
  obtain ⟨held', known', same'⟩ := second c ne held₁ known₁
  exact ⟨held', known', same'.trans same₁⟩

theorem Answers.rowsBeside {used freed : String → Prop} {request : Effect} {fails : List FaultPoint}
    {answer : request.Answer} (within : request.Within (· = d) used freed)
    (answers : h.Answers request fails answer h') : h.RowsBeside d h' := by
  cases request with
  | store call =>
    rcases answers with ⟨-, -, rfl⟩ | ⟨e, -, -, rfl⟩
    · exact fun _ _ held known => ⟨held, known, rfl⟩
    · exact .refl d h'
  | index call =>
    have own : call.container = d := within
    rcases answers with ⟨-, -, rfl⟩ | ⟨e, -, -, rfl⟩
    · intro c ne held known
      obtain ⟨last, -, known'⟩ := known.perform call
      exact ⟨_, known', Catalogue.getElem?_perform_of_ne (own ▸ Ne.symm ne)⟩
    · exact .refl d h'
  | readClock | drawId =>
    obtain ⟨-, rfl⟩ := answers
    exact .refl d h'
  | publish events =>
    obtain ⟨-, rfl⟩ := answers
    exact fun _ _ held known => ⟨held, known, rfl⟩

end Holdings

namespace Repository

variable {d : String} {h : Holdings}

/-- The write of a call that changes one container. -/
theorem ensures_beside_commit {α : Type} {record : Record} {container : Container} {change : Option IndexChange}
    (sane : h.store.contents.Sane) (ready : Prepared h.store record container change) (own : record.id = d)
    (parent : container.parentId = record.container.parentId) {events : List Event} {a : α} :
    (do let _ ← commit record container change.toList; publish events; pure a : Action α).Ensures h
      fun _ _ h' => h.Beside d h' := by
  intro fails out h' run
  have within : container.id = d := ready.own.trans own
  have finishes : (do let _ ← commit record container change.toList; publish events; pure a : Action α).Finishes
      (Effect.Within (· = d) (fun _ => False) fun _ => False) := finishes_commit_publish within change.toList events a
  have rows : h.RowsBeside d h' :=
    finishes.runs (Holdings.RowsBeside.refl d) (fun _ _ _ => Holdings.RowsBeside.trans)
      (fun _ _ _ _ _ => Holdings.Answers.rowsBeside) run
  have stored : h'.store = h.store ∨ h'.store = h.store.put (record.next container) := by
    revert fails out h' run
    refine (ensures_commit ready).bind ?_ fun fails e h' ended _ => .inl ended.2.1
    rintro early next h₁ ⟨-, rfl, -, written, -⟩
    exact ensures_publish (ensures_pure fun _ => .inr written)
  rcases stored with same | written
  · refine ⟨?_, ?_, fun c _ => ?_, rows⟩
    · rw [same]
      exact sane
    · rw [same]
    · rw [same]
  · refine ⟨?_, ?_, fun c ne => ?_, rows⟩
    · rw [written, MemoryStore.contents_put]
      exact sane.put ready.valid
    · rw [written]
      exact MemoryStore.shape_put sane ready.found ready.own parent
    · rw [written]
      exact MemoryStore.records_put_of_ne (r := record.next container) fun same => ne (same.symm.trans within)

end Repository

theorem Holdings.Beside.refl {d : String} {h : Holdings} (sane : h.store.contents.Sane) : h.Beside d h :=
  ⟨sane, rfl, fun _ _ => rfl, .refl d h⟩

/-- However a program ends, nothing but one container has changed. -/
def Action.BesideAfter {α : Type} (d : String) (h : Holdings) : Post α :=
  fun _ _ h' => h.Beside d h'

theorem Action.Reads.beside_bind {α β : Type} {d : String} {h : Holdings} {x : Action β} {f : β → Action α}
    {P : β → Prop} (reads : x.Reads h P) (sane : h.store.contents.Sane)
    (ok : ∀ b, P b → (f b).Ensures h (BesideAfter d h)) : (x >>= f).Ensures h (BesideAfter d h) :=
  reads.ensures_bind (fun _ _ _ => .refl sane) ok

namespace Repository

variable {d member : String} {h : Holdings}

theorem ensures_beside_addMemberHeld {type : MemberType} (sane : h.store.contents.Sane) :
    (addMemberHeld d member type).Ensures h (BesideAfter d h) := by
  simp only [addMemberHeld]
  apply reads_load.beside_bind sane
  rintro ⟨record, c⟩ ⟨found, hydrated⟩
  apply reads_now.beside_bind sane
  intro time _
  apply reads_ofContainer.beside_bind sane
  intro grown added
  apply reads_checkContext.beside_bind sane
  intro _ _
  have parent := (Record.of_add hydrated added).2.1
  exact ensures_beside_commit sane (Prepared.of_add sane found hydrated added) (sane.record found).1 parent

theorem ensures_beside_strikeOff {record : Record} {c : Container} (sane : h.store.contents.Sane)
    (found : h.store.records[d]? = some record) (hydrated : record.hydrate = .ok c) :
    (strikeOff record c member).Ensures h (BesideAfter d h) := by
  simp only [strikeOff]
  apply reads_now.beside_bind sane
  intro time _
  apply reads_ofContainer.beside_bind sane
  rintro ⟨removed, shrunk⟩ done
  apply reads_checkContext.beside_bind sane
  intro _ _
  have parent := (Record.of_remove hydrated done).2.1
  exact ensures_beside_commit sane (Prepared.of_remove sane found hydrated done) (sane.record found).1 parent

theorem ensures_beside_removeMemberHeld (sane : h.store.contents.Sane) :
    (removeMemberHeld d member).Ensures h (BesideAfter d h) := by
  simp only [removeMemberHeld]
  apply reads_load.beside_bind sane
  rintro ⟨record, c⟩ ⟨found, hydrated⟩
  by_cases contained : c.containsMember member = true
  · simp only [if_pos contained]
    apply reads_refuseChild.beside_bind sane
    intro _ _
    exact ensures_beside_strikeOff sane found hydrated
  · simp only [if_neg contained]
    exact ensures_beside_strikeOff sane found hydrated

theorem ensures_beside_updateMetadataHeld {changes : MetadataUpdate} (sane : h.store.contents.Sane) :
    (updateMetadataHeld d changes).Ensures h (BesideAfter d h) := by
  simp only [updateMetadataHeld]
  apply reads_load.beside_bind sane
  rintro ⟨record, c⟩ ⟨found, hydrated⟩
  apply reads_now.beside_bind sane
  intro time _
  by_cases unchanged : (applyUpdate c changes time).pending.isEmpty
  · simp only [if_pos unchanged]
    exact ensures_pure (.refl sane)
  · simp only [if_neg unchanged]
    apply reads_checkContext.beside_bind sane
    intro _ _
    have shape := sameShape_applyUpdate c changes time
    obtain ⟨-, shown, -⟩ := Record.sound_of_hydrate hydrated
    have parent : (applyUpdate c changes time).parentId = record.container.parentId := by rw [shape.parentId, shown]
    exact ensures_beside_commit sane (Prepared.of_sameShape sane found hydrated shape) (sane.record found).1 parent

end Repository

/-- A call that changes one container leaves the others alone, whatever fails. -/
theorem Call.beside {settings : Settings} {call : Call} {d : String} {h : Holdings} (about : call.changed? = some d)
    (sane : h.store.contents.Sane) : (call.action settings).Ensures h (BesideAfter d h) := by
  have locked : ∀ {α : Type} {body : Action α}, body.Ensures h (BesideAfter d h) →
      (writing d body).Ensures h (BesideAfter d h) := ensures_withLock fun _ => Holdings.Beside.refl sane
  cases call with
  | addMember container member =>
    cases about
    apply Ensures.map
    apply Repository.reads_classify.beside_bind sane
    exact fun type _ => locked (Repository.ensures_beside_addMemberHeld sane)
  | removeMember container member =>
    cases about
    exact (locked (Repository.ensures_beside_removeMemberHeld sane)).map
  | updateMetadata container changes =>
    cases about
    exact (locked (Repository.ensures_beside_updateMetadataHeld sane)).map
  | create | get | contains | delete | addMembers | listMembers | countMembers | drain | nextBatch | children |
    parent | path | find | move | rebuild | rebuildAll | verify => cases about

end Containment
