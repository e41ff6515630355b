/-
Module: Containment.Proofs.Repository.Calls
Purpose: What a whole call may end in when nobody else is at work: its whole effect, or an error that keeps what
  was there. The effects of all calls keep the forest of stored containers.
Main exports: Call.KeepsForest, Call.ensures
-/
import Containment.Proofs.Repository.Invariants
import Containment.Proofs.Repository.Lifecycle
import Containment.Proofs.Repository.Moves
import Containment.Proofs.Repository.Rebuild
import Containment.Proofs.Repository.Single

namespace Containment

open Containment.Action Repository

/-- The effect of a call together with the forest that it keeps. -/
def Call.KeepsForest (settings : Settings) (call : Call) (S : MemoryStore) (reply : Reply)
    (events : List Event) (S' : MemoryStore) : Prop :=
  call.Effects settings S reply events S' ∧
    (1 ≤ settings.limits.maxDepth → S.contents.Forest settings.limits.maxDepth →
      S'.contents.Forest settings.limits.maxDepth)

theorem Repository.Verdict.map {α β : Type} {h : Holdings} {effect : α → List Event → MemoryStore → Prop}
    {weaker : β → List Event → MemoryStore → Prop} {fails : List FaultPoint} {h' : Holdings}
    {out : Except RepositoryError α} {f : α → β} (verdict : Verdict h effect fails out h')
    (imp : ∀ a events S', effect a events S' → weaker (f a) events S') :
    Verdict h weaker fails (out.map f) h' := by
  cases out with
  | ok a =>
    obtain ⟨events, whole, rest⟩ := verdict
    exact ⟨events, imp a events h'.store whole, rest⟩
  | error e => exact verdict

/-- A step of a call with its answer put into a reply. -/
theorem Action.ensures_verdict_reply {α : Type} {h : Holdings} {x : Action α} {f : α → Reply}
    {effect : α → List Event → MemoryStore → Prop} {weaker : Reply → List Event → MemoryStore → Prop}
    (ensures : x.Ensures h (Verdict h effect)) (imp : ∀ a events S', effect a events S' → weaker (f a) events S') :
    (f <$> x).Ensures h (Verdict h weaker) :=
  Ensures.map (ensures.mono fun _ _ _ verdict => verdict.map imp)

variable {settings : Settings} {h : Holdings}

/-- A container drawn for an ordinary creation has no members. -/
theorem Draft.Describes.memberless {draft : Draft} {c : Container} (describes : draft.Describes c)
    (ordinary : (Call.create draft).IsOrdinary) : c.members = [] := by
  have made : ∀ {id parentId : String} {type : ContainerType} {time : Time.Instant} {c : Container},
      Container.create id parentId type time = .ok c → c.members = [] := by
    intro id parentId type time c created
    obtain ⟨-, -, rfl⟩ := Container.create_eq_ok_iff.1 created
    rfl
  cases draft with
  | new id parentId type title =>
    obtain ⟨drawn, time, first, -, created, rfl⟩ := describes
    cases title with
    | none => exact made created
    | some text =>
      change (first.setProperty "title" text first.createdAt).members = []
      rw [(Container.sameShape_setProperty first _ _ _).members]
      exact made created
  | named id parentId typeName =>
    obtain ⟨time, created⟩ := describes
    unfold Container.createNamed at created
    cases parsed : Container.parseType typeName with
    | error e =>
      rw [parsed] at created
      cases created
    | ok type =>
      rw [parsed] at created
      exact made created
  | restored s =>
    obtain ⟨-, same, -⟩ := Container.Sound.of_restore describes
    rw [same]
    exact ordinary

theorem ensures_create {c : Container} (sane : h.store.contents.Sane) (empty : c.members = []) :
    (create settings.limits c).Ensures h (Verdict h fun answer events S' =>
      answer = c.takeEvents.2 ∧ Created h.store c events S' ∧
        h.store.contents.shape.HasRoom settings.limits.maxDepth c.parentId) := by
  simp only [create]
  apply reads_ofContainer.verdict_bind sane
  intro _ accepted
  have valid : c.toSnapshot.Valid := Container.validate_eq_ok_iff.1 accepted
  apply ensures_verdict_withLock sane
  apply ensures_verdict_withContainers sane
  exact ensures_createHeld sane valid empty

theorem ensures_move {id target : String} (sane : h.store.contents.Sane) :
    (move settings.limits id target).Ensures h (Verdict h fun answer events S' =>
      Moved h.store id target answer events S' ∧ ∀ depth, h.store.contents.Forest depth →
        h.store.contents.shape.Admits settings.limits.maxDepth id target) := by
  simp only [move, moveWithin]
  apply ensures_verdict_withLock sane
  apply reads_load.verdict_bind sane
  intro given known
  rcases given with ⟨record, c⟩
  rcases known with ⟨found, -⟩
  have stored : (h.store.contents id).isSome := MemoryStore.isSome_contents found
  apply (reads_checkMove sane stored).verdict_bind sane
  intro _ given
  rcases given with ⟨apart, admits⟩
  apply ensures_verdict_withContainers sane
  have known : ∀ r, h.store.records[id]? = some r → r.parentId = record.parentId := by
    intro r found'
    rw [found] at found'
    cases found'
    rfl
  apply ensures_verdict_mono (ensures_moveHeld sane apart known)
  exact fun answer events S' moved => ⟨moved, admits⟩

theorem Call.tidies {call : Call} (question : call.IsQuestion) : (call.action settings).Ensures h (Tidied h) := by
  rcases Call.looks question with looks | ⟨body, same, looks⟩
  · exact Looks.tidies (looks.widen fun _ _ => trivial)
  · rw [same]
    exact tidies_withLock (Looks.tidies (looks.widen fun _ impossible => impossible.elim))

/-- Every ordinary call ends with its whole effect or keeps what was there, and its effect keeps the forest. -/
theorem Call.ensures {call : Call} (ordinary : call.IsOrdinary) (sane : h.store.contents.Sane) :
    (call.action settings).Ensures h (Verdict h (call.KeepsForest settings h.store)) := by
  by_cases question : call.IsQuestion
  · apply (Call.tidies question).verdict_of_tidied sane
    intro reply
    refine ⟨?_, fun _ forest => forest⟩
    cases call <;> first | exact ⟨rfl, rfl⟩ | exact question.elim
  cases call with
  | create draft =>
    apply (reads_draw draft).verdict_bind sane
    intro c describes
    apply ensures_verdict_reply (ensures_create sane (describes.memberless ordinary))
    intro answer events S' given
    rcases given with ⟨rfl, created, room⟩
    exact ⟨⟨c, describes, rfl, created⟩, fun positive forest => created.forest sane forest positive room⟩
  | delete id =>
    have deleted : (Repository.delete id).Ensures h (Verdict h fun _ events S' => Deleted h.store id events S') :=
      ensures_verdict_withLock sane (ensures_deleteWithin deleteAttempts sane)
    apply ensures_verdict_reply (f := fun _ => Reply.done) deleted
    intro _ events S' gone
    exact ⟨⟨rfl, gone⟩, fun _ forest => gone.forest sane forest⟩
  | updateMetadata id update =>
    apply ensures_verdict_reply (ensures_verdict_withLock sane (ensures_updateMetadataHeld sane))
    intro answer events S' amended
    exact ⟨⟨answer, rfl, amended⟩, fun _ forest => amended.forest sane forest⟩
  | addMember container member =>
    apply ensures_verdict_reply (ensures_addMember sane)
    intro added events S' grown
    exact ⟨⟨added, rfl, grown⟩, fun _ forest => grown.forest sane forest⟩
  | removeMember container member =>
    apply ensures_verdict_reply (ensures_verdict_withLock sane (ensures_removeMemberHeld sane))
    intro removed events S' shrunk
    exact ⟨⟨removed, rfl, shrunk⟩, fun _ forest => shrunk.forest sane forest⟩
  | move id target =>
    apply ensures_verdict_reply (ensures_move sane)
    intro answer events S' given
    rcases given with ⟨moved, admits⟩
    exact ⟨⟨answer, rfl, moved⟩, fun _ forest => moved.forest sane forest (admits _ forest)⟩
  | rebuild id =>
    have tidies : ((Call.rebuild id).action settings).Ensures h (Tidied h) :=
      tidies_bind (ensures_rebuild sane) fun rows h₁ _ => (looks_pure (Reply.count rows)).tidies
    exact tidies.verdict_of_tidied sane fun reply => ⟨⟨rfl, rfl⟩, fun _ forest => forest⟩
  | rebuildAll =>
    have tidies : (Call.rebuildAll.action settings).Ensures h (Tidied h) :=
      tidies_bind (ensures_rebuildAll sane) fun summary h₁ _ => (looks_pure (Reply.summary summary)).tidies
    exact tidies.verdict_of_tidied sane fun reply => ⟨⟨rfl, rfl⟩, fun _ forest => forest⟩
  | addMembers container members => exact ordinary.elim
  | get | contains | listMembers | countMembers | drain | nextBatch | children | parent | path | find | verify =>
    exact absurd trivial question

end Containment
