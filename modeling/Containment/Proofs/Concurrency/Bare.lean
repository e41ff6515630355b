/-
Module: Containment.Proofs.Concurrency.Bare
Purpose: The steps that calls make while they hold their locks take none themselves, so nobody gets in between.
Main exports: Action.Bare.bind, bare_commit, bare_createHeld, bare_deleteHeld, bare_moveHeld
-/
import Containment.Proofs.Concurrency.Guards
import Containment.Proofs.Repository.Questions

namespace Containment

namespace Action

variable {α β : Type} {x : Action α} {f : α → Action β}

theorem Looks.bare (looks : x.Looks fun _ => False) : x.Bare :=
  Program.Looks.bare looks

theorem bare_pure (a : α) : (pure a : Action α).Bare :=
  trivial

theorem bare_throw (e : RepositoryError) : (throw e : Action α).Bare :=
  trivial

theorem Bare.bind (first : x.Bare) (second : ∀ a, (f a).Bare) : (x >>= f).Bare := by
  apply Program.Bare.bind first
  intro out
  cases out with
  | ok a => exact second a
  | error e => exact trivial

theorem Bare.map (f : α → β) (bare : x.Bare) : (f <$> x).Bare := by
  rw [map_eq_pure_bind]
  exact bare.bind fun a => bare_pure (f a)

theorem Bare.tryCatch {handler : RepositoryError → Action α} (bare : x.Bare) (handled : ∀ e, (handler e).Bare) :
    (tryCatch x handler : Action α).Bare := by
  apply Program.Bare.bind bare
  intro out
  cases out with
  | ok a => exact trivial
  | error e => exact handled e

theorem Bare.onError {handler : RepositoryError → Action Unit} (bare : x.Bare) (handled : ∀ e, (handler e).Bare) :
    (onError x handler).Bare :=
  bare.tryCatch fun e => (handled e).bind fun _ => bare_throw e

theorem Bare.mapError (change : RepositoryError → RepositoryError) (bare : x.Bare) : (mapError x change).Bare :=
  bare.tryCatch fun e => bare_throw (change e)

theorem bare_tryStore (call : StoreCall) : (tryStore call).Bare :=
  fun _ => trivial

theorem bare_tryIndex (call : IndexCall) : (tryIndex call).Bare :=
  fun _ => trivial

theorem bare_index (call : IndexCall) : (index call).Bare := by
  apply (bare_tryIndex call).bind
  intro answer
  cases answer with
  | ok a => exact bare_pure a
  | error e => exact bare_throw _

theorem bare_now : now.Bare :=
  fun _ => trivial

theorem bare_freshId : freshId.Bare :=
  fun _ => trivial

theorem bare_checkContext : checkContext.Bare :=
  looks_checkContext.bare

theorem bare_publish (events : List Event) : (publish events).Bare := by
  simp only [publish]
  split
  · exact bare_pure ()
  · exact fun _ => trivial

theorem bare_ofContainer (outcome : Except ContainerError α) : (ofContainer outcome).Bare := by
  cases outcome with
  | ok a => exact bare_pure a
  | error e => exact bare_throw _

theorem bare_hydrate (record : Record) : (hydrate record).Bare :=
  (looks_hydrate record).bare

end Action

namespace Repository

open Containment.Action

variable {limits : Limits}

theorem bare_load (id : String) : (load id).Bare :=
  (looks_load id).bare

theorem bare_ancestors (id : String) : (ancestors limits id).Bare :=
  (looks_ancestors id).bare

/-! ### Writing -/

theorem bare_seedPartition (id : String) : (seedPartition id).Bare := by
  simp only [seedPartition]
  apply (bare_tryIndex _).bind
  intro answer
  rcases answer with e | _
  · cases e with
    | partitionExists =>
      apply (bare_tryIndex _).bind
      intro answer
      cases answer with
      | ok u => exact bare_pure u
      | error e => exact bare_throw _
    | partitionNotFound | duplicateEntry | database | corrupt | backend => exact bare_throw _
  · exact bare_pure ()

theorem bare_attempt (id : String) (change : IndexChange) : (attempt id change).Bare := by
  cases change with
  | insert member => exact (bare_tryIndex _).bind fun _ => bare_pure _
  | remove memberId => exact (bare_tryIndex _).bind fun _ => bare_pure _

theorem bare_removeInserted (id : String) (changes : List IndexChange) : (removeInserted id changes).Bare := by
  induction changes with
  | nil => exact bare_pure ()
  | cons change rest ih =>
    cases change with
    | remove memberId => exact ih
    | insert member =>
      simp only [removeInserted]
      apply (bare_tryIndex _).bind
      intro answer
      cases answer with
      | ok existed => exact ih
      | error e => exact bare_pure ()

theorem bare_undoIndex (id : String) (applied : List IndexChange) (previous : List Member) :
    (undoIndex id applied previous).Bare := by
  simp only [undoIndex]
  split
  · exact bare_pure ()
  · split
    · exact bare_removeInserted id applied
    · exact (bare_tryIndex _).bind fun _ => bare_pure ()

theorem bare_applyFrom (id : String) (previous : List Member) (changes applied : List IndexChange) :
    (applyFrom id previous applied changes).Bare := by
  induction changes generalizing applied with
  | nil => exact bare_pure ()
  | cons change rest ih =>
    simp only [applyFrom]
    apply (bare_attempt id change).bind
    intro answer
    cases answer with
    | ok u => exact ih _
    | error e => exact (bare_undoIndex id applied previous).bind fun _ => bare_throw _

theorem bare_commit (record : Record) (container : Container) (changes : List IndexChange) :
    (commit record container changes).Bare := by
  simp only [commit]
  apply (bare_applyFrom container.id record.container.members changes []).bind
  intro _
  apply (bare_tryStore _).bind
  intro answer
  cases answer with
  | ok u => exact bare_pure _
  | error e => exact (bare_undoIndex container.id changes _).bind fun _ => bare_throw _

theorem bare_rollBack (previous committed : Record) : (rollBack previous committed).Bare := by
  simp only [rollBack]
  apply (bare_tryStore _).bind
  intro _
  apply (bare_tryIndex _).bind
  exact fun _ => bare_pure ()

theorem bare_forM {α : Type} {f : α → Action Unit} (each : ∀ a, (f a).Bare) (items : List α) :
    (items.forM f).Bare := by
  induction items with
  | nil => exact bare_pure ()
  | cons a rest ih => exact (each a).bind fun _ => ih

theorem bare_unwind (writes : List (Record × Record)) : (unwind writes).Bare := by
  apply bare_forM
  intro write
  exact bare_rollBack write.1 write.2

theorem bare_unwindCreate (id : String) : (unwindCreate id).Bare := by
  simp only [unwindCreate]
  apply (bare_tryStore _).bind
  intro _
  apply (bare_tryIndex _).bind
  exact fun _ => bare_pure ()

/-! ### Calls on one container -/

theorem bare_classify (classifier : Classifier) (container member : String) :
    (classify classifier container member).Bare := by
  simp only [classify]
  apply (looks_isStored member).bare.bind
  intro stored
  by_cases known : stored = true
  · simp only [if_pos known]
    exact bare_pure _
  · simp only [if_neg known]
    exact bare_pure _

theorem bare_addMemberHeld (container member : String) (type : MemberType) :
    (addMemberHeld container member type).Bare := by
  simp only [addMemberHeld]
  apply (bare_load container).bind
  intro loaded
  apply bare_now.bind
  intro time
  apply (bare_ofContainer _).bind
  intro grown
  apply bare_checkContext.bind
  intro _
  apply (bare_commit _ _ _).bind
  intro _
  exact (bare_publish _).bind fun _ => bare_pure _

theorem bare_refuseChild (container member : String) : (refuseChild container member).Bare := by
  simp only [refuseChild]
  apply (looks_read? member).bare.bind
  intro found
  cases found with
  | none => exact bare_pure ()
  | some child =>
    by_cases own : child.parentId = container
    · simp only [if_pos own]
      exact bare_throw _
    · simp only [if_neg own]
      exact bare_pure ()

theorem bare_strikeOff (record : Record) (container : Container) (member : String) :
    (strikeOff record container member).Bare := by
  simp only [strikeOff]
  apply bare_now.bind
  intro time
  apply (bare_ofContainer _).bind
  intro removed
  apply bare_checkContext.bind
  intro _
  apply (bare_commit _ _ _).bind
  intro _
  exact (bare_publish _).bind fun _ => bare_pure _

theorem bare_removeMemberHeld (container member : String) : (removeMemberHeld container member).Bare := by
  simp only [removeMemberHeld]
  apply (bare_load container).bind
  intro loaded
  by_cases contained : loaded.2.containsMember member = true
  · simp only [if_pos contained]
    exact (bare_refuseChild container member).bind fun _ => bare_strikeOff loaded.1 loaded.2 member
  · simp only [if_neg contained]
    exact bare_strikeOff loaded.1 loaded.2 member

theorem bare_updateMetadataHeld (id : String) (update : MetadataUpdate) : (updateMetadataHeld id update).Bare := by
  simp only [updateMetadataHeld]
  apply (bare_load id).bind
  intro loaded
  apply bare_now.bind
  intro time
  by_cases unchanged : (applyUpdate loaded.2 update time).pending.isEmpty
  · simp only [if_pos unchanged]
    exact bare_pure _
  · simp only [if_neg unchanged]
    apply bare_checkContext.bind
    intro _
    apply (bare_commit _ _ _).bind
    intro _
    exact (bare_publish _).bind fun _ => bare_pure _

theorem bare_rebuildHeld (id : String) : (rebuildHeld id).Bare := by
  simp only [rebuildHeld]
  apply (bare_load id).bind
  intro loaded
  apply bare_checkContext.bind
  intro _
  exact (bare_index _).bind fun _ => bare_pure _

theorem bare_dropOrphan (partition : String) : (dropOrphan partition).Bare := by
  simp only [dropOrphan]
  apply (looks_isStored partition).bare.bind
  intro stored
  split
  · exact bare_pure false
  · exact bare_index _

/-! ### Making, deleting and moving containers -/

theorem bare_newContainer (id parentId : String) (type : ContainerType) :
    (newContainer id parentId type).Bare := by
  have rest : ∀ drawn, (now >>= fun time => ofContainer (Container.create drawn parentId type time)).Bare :=
    fun drawn => bare_now.bind fun time => bare_ofContainer _
  simp only [newContainer]
  by_cases anonymous : id.isEmpty
  · simp only [if_pos anonymous]
    exact bare_freshId.bind rest
  · simp only [if_neg anonymous]
    exact rest id

theorem bare_draw (draft : Draft) : (draw draft).Bare := by
  cases draft with
  | new id parentId type title =>
    apply (bare_newContainer id parentId type).bind
    intro container
    cases title with
    | none => exact bare_pure container
    | some text => exact bare_pure _
  | named id parentId typeName => exact bare_now.bind fun time => bare_ofContainer _
  | restored snapshot => exact bare_ofContainer _

theorem bare_preparedParent (id parentId : String) (time : Time.Instant) :
    (preparedParent limits id parentId time).Bare := by
  simp only [preparedParent]
  apply ((bare_load parentId).mapError _).bind
  intro loaded
  apply (bare_ancestors parentId).bind
  intro chain
  by_cases known : chain.contains id = true
  · simp only [if_pos known]
    exact bare_throw _
  simp only [if_neg known]
  by_cases deep : limits.maxDepth ≤ chain.length
  · simp only [if_pos deep]
    exact bare_throw _
  simp only [if_neg deep]
  exact (bare_ofContainer _).bind fun parent => bare_pure _

theorem bare_insertNew (container : Container) : (insertNew container).Bare := by
  simp only [insertNew]
  apply (bare_tryStore _).bind
  intro answer
  cases answer with
  | ok u => exact bare_pure ()
  | error e =>
    apply (bare_tryIndex _).bind
    intro _
    cases e <;> exact bare_throw _

/-- Listing a new container in its parent. -/
theorem bare_enrol (id : String) (record : Record) (parent : Container) (changes : List IndexChange) :
    (onError (commit record parent changes) fun _ => unwindCreate id).Bare :=
  (bare_commit record parent changes).onError fun _ => bare_unwindCreate id

theorem bare_storePrepared (container : Container) (time : Time.Instant) (parent : Option (Record × Container)) :
    (storePrepared container time parent).Bare := by
  simp only [storePrepared]
  apply bare_checkContext.bind
  intro _
  apply (bare_seedPartition _).bind
  intro _
  apply (bare_insertNew _).bind
  intro _
  cases parent with
  | none => exact (bare_publish _).bind fun _ => bare_pure _
  | some prepared =>
    apply (bare_enrol _ _ _ _).bind
    intro _
    exact (bare_publish _).bind fun _ => bare_pure _

theorem bare_createHeld (container : Container) : (createHeld limits container).Bare := by
  simp only [createHeld]
  apply (looks_isStored _).bare.bind
  intro stored
  by_cases known : stored = true
  · simp only [if_pos known]
    exact bare_throw _
  simp only [if_neg known]
  apply (looks_store (.isRetired _) trivial).bare.bind
  intro retired
  by_cases used : retired = true
  · simp only [if_pos used]
    exact bare_throw _
  simp only [if_neg used]
  apply bare_now.bind
  intro time
  by_cases top : container.parentId.isEmpty
  · simp only [if_pos top]
    exact (bare_pure none).bind fun parent => bare_storePrepared container time parent
  · simp only [if_neg top]
    exact ((bare_preparedParent _ _ _).map some).bind fun parent => bare_storePrepared container time parent

theorem bare_detach (id parentId : String) (time : Time.Instant) : (detach id parentId time).Bare := by
  simp only [detach]
  by_cases top : parentId.isEmpty
  · rw [if_pos top]
    exact bare_pure _
  rw [if_neg top]
  apply (looks_read? parentId).bare.bind
  intro found
  cases found with
  | none => exact bare_pure _
  | some record =>
    apply (bare_hydrate record).bind
    intro parent
    by_cases listed : parent.containsMember id = true
    · simp only [if_pos listed]
      apply (bare_ofContainer _).bind
      intro removed
      exact (bare_commit _ _ _).bind fun _ => bare_pure _
    · simp only [if_neg listed]
      exact bare_pure _

theorem bare_deleteHeld (id parentId : String) : (deleteHeld id parentId).Bare := by
  simp only [deleteHeld]
  apply (bare_load id).bind
  intro loaded
  by_cases moved : loaded.1.parentId ≠ parentId
  · simp only [if_pos moved]
    exact bare_pure false
  simp only [if_neg moved]
  by_cases full : (!loaded.2.members.isEmpty) = true
  · simp only [if_pos full]
    exact bare_throw _
  simp only [if_neg full]
  apply bare_checkContext.bind
  intro _
  apply bare_now.bind
  intro time
  apply (bare_detach id parentId time).bind
  intro detached
  apply (bare_tryStore _).bind
  intro answer
  cases answer with
  | ok existed =>
    apply (bare_tryIndex _).bind
    intro _
    exact (bare_publish _).bind fun _ => bare_pure true
  | error e =>
    obtain ⟨write, events⟩ := detached
    cases write with
    | none => exact bare_throw _
    | some write => exact (bare_rollBack write.1 write.2).bind fun _ => bare_throw _

theorem bare_nextLevel (level : List String) (seen : Std.ExtTreeSet String) : (nextLevel level seen).Bare := by
  induction level generalizing seen with
  | nil => exact bare_pure _
  | cons id rest ih =>
    simp only [nextLevel]
    apply (looks_childRecords id).bare.bind
    intro records
    exact (ih _).bind fun _ => bare_pure _

theorem bare_levelsBelow (top : String) (remaining : Nat) (level : List String) (seen : Std.ExtTreeSet String) :
    (levelsBelow limits top remaining level seen).Bare := by
  induction remaining generalizing level seen with
  | zero =>
    cases level with
    | nil => exact bare_pure 0
    | cons id rest => exact bare_throw _
  | succ remaining ih =>
    cases level with
    | nil => exact bare_pure 0
    | cons id rest =>
      simp only [levelsBelow]
      apply (bare_nextLevel _ _).bind
      intro next
      exact (ih next.1 next.2).bind fun levels => bare_pure _

theorem bare_checkMove (id target : String) : (checkMove limits id target).Bare := by
  simp only [checkMove]
  by_cases own : target = id
  · simp only [if_pos own]
    exact bare_throw _
  simp only [if_neg own]
  by_cases top : target.isEmpty
  · simp only [top, Bool.not_true, Bool.false_eq_true, if_false]
    exact bare_pure ()
  simp only [top, Bool.not_false, if_true]
  apply (looks_isStored target).bare.bind
  intro there
  by_cases missing : (!there) = true
  · simp only [if_pos missing]
    exact bare_throw _
  simp only [if_neg missing]
  apply (bare_ancestors target).bind
  intro chain
  by_cases cyclic : chain.contains id = true
  · simp only [if_pos cyclic]
    exact bare_throw _
  simp only [if_neg cyclic]
  apply (bare_levelsBelow id _ _ _).bind
  intro height
  by_cases deep : limits.maxDepth < chain.length + height
  · simp only [if_pos deep]
    exact bare_throw _
  · simp only [if_neg deep]
    exact bare_pure ()

theorem bare_attached (id target : String) (time : Time.Instant) : (attached id target time).Bare := by
  simp only [attached]
  by_cases top : target.isEmpty
  · rw [if_pos top]
    exact bare_pure none
  rw [if_neg top]
  apply ((bare_load target).mapError _).bind
  intro loaded
  exact (bare_ofContainer _).bind fun grown => bare_pure _

theorem bare_detached (id source : String) (time : Time.Instant) : (detached id source time).Bare := by
  simp only [detached]
  by_cases top : source.isEmpty
  · rw [if_pos top]
    exact bare_pure none
  rw [if_neg top]
  apply (looks_read? source).bare.bind
  intro found
  cases found with
  | none => exact bare_pure none
  | some record =>
    apply (bare_hydrate record).bind
    intro container
    by_cases listed : container.containsMember id = true
    · simp only [if_pos listed]
      exact (bare_ofContainer _).bind fun removed => bare_pure _
    · simp only [if_neg listed]
      exact bare_pure none

theorem bare_commitParent (change : IndexChange) (writes : List (Record × Record)) (events : List Event)
    (parent : Option (Record × Container)) : (commitParent change writes events parent).Bare := by
  cases parent with
  | none => exact bare_pure _
  | some prepared =>
    have guarded : (onError (commit prepared.1 prepared.2 [change]) fun _ => unwind writes).Bare :=
      (bare_commit _ _ _).onError fun _ => bare_unwind writes
    exact guarded.bind fun committed => bare_pure _

theorem bare_commitMoved (record : Record) (moved : Container) (writes : List (Record × Record))
    (events : List Event) : (commitMoved record moved writes events).Bare := by
  simp only [commitMoved]
  apply (bare_tryStore _).bind
  intro answer
  cases answer with
  | ok u => exact (bare_publish _).bind fun _ => bare_pure _
  | error e => exact (bare_unwind _).bind fun _ => bare_throw _

theorem bare_moveHeld (id source target : String) : (moveHeld id source target).Bare := by
  simp only [moveHeld]
  apply (bare_load id).bind
  intro loaded
  by_cases stays : source = target
  · simp only [if_pos stays]
    exact bare_pure _
  simp only [if_neg stays]
  apply bare_now.bind
  intro time
  apply (bare_ofContainer _).bind
  intro moved
  apply (bare_attached id target time).bind
  intro newParent
  apply (bare_detached id source time).bind
  intro oldParent
  apply bare_checkContext.bind
  intro _
  apply (bare_commitParent _ _ _ newParent).bind
  intro first
  apply (bare_commitParent _ _ _ oldParent).bind
  exact fun second => bare_commitMoved _ _ _ _

end Repository

end Containment
