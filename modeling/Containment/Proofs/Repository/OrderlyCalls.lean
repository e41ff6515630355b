/-
Module: Containment.Proofs.Repository.OrderlyCalls
Purpose: The calls that change containers keep the order of times. Each reads the clock after it has loaded what it changes
  and lists members under that reading; all else that it writes was in order before.
Main exports: Repository.orderly_create, Repository.orderly_move, Repository.orderly_rebuildAll, Call.IsChange,
  Call.orderly
-/
import Containment.Proofs.Repository.Timekeeping

namespace Containment

open Time

namespace Repository

open Containment.Action Member

variable {b : Instant} {limits : Limits} {id : String}

/-! ### Making containers -/

theorem orderly_newContainer (id parentId : String) (type : ContainerType) :
    (newContainer id parentId type).Orderly b fun _ c => c.members = [] := by
  have made : ∀ (b : Instant) (id : String), (do
      let time ← now
      ofContainer (Container.create id parentId type time)).Orderly b fun _ c => c.members = [] := by
    intro b id
    apply orderly_now.bind
    intro b' time _ _
    refine (steady_ofContainer fun c created => ?_).mono fun _ _ _ made => made.2
    obtain ⟨-, -, rfl⟩ := Container.create_eq_ok_iff.1 created
    rfl
  rw [newContainer]
  split
  · exact steady_freshId.bind fun drawn _ => made b drawn
  · exact made b id

/-- A draft that does not come with members describes a container without any. -/
theorem orderly_draw {draft : Draft} (unfilled : ∀ s, draft = .restored s → s.members = []) :
    (draw draft).Orderly b fun _ c => c.members = [] := by
  cases draft with
  | new id parentId type title =>
    rw [draw]
    apply (orderly_newContainer id parentId type).bind
    intro b' c _ none
    cases title with
    | none => exact orderly_pure none
    | some text =>
      apply orderly_pure
      have shape := Container.sameShape_setProperty c "title" text c.createdAt
      exact shape.members.trans none
  | named id parentId typeName =>
    rw [draw]
    apply orderly_now.bind
    intro b' time _ _
    refine (steady_ofContainer fun c created => ?_).mono fun _ _ _ made => made.2
    unfold Container.createNamed at created
    cases parsed : Container.parseType typeName with
    | error e =>
      rw [parsed] at created
      cases created
    | ok type =>
      rw [parsed] at created
      obtain ⟨-, -, rfl⟩ := Container.create_eq_ok_iff.1 created
      rfl
  | restored s =>
    rw [draw]
    refine (steady_ofContainer fun c restored => ?_).mono fun _ _ _ made => made.2
    have same : c.toSnapshot = s := (Container.Sound.of_restore restored).2.1
    rw [same]
    exact unfilled s rfl

/-- The latest reading is what the new member of the parent is listed under. -/
theorem steady_preparedParent (limits : Limits) (id parentId : String)
    (held : (Instant.ofMillis? b.toMillis).isSome) :
    (preparedParent limits id parentId b).Steady b fun p => p.1.Dated b ∧ DatedBy b p.2.members := by
  rw [preparedParent]
  apply (steady_load parentId).mapError.bind
  rintro b' ⟨record, parent⟩ - ⟨rfl, loaded⟩
  apply (steady_ancestors limits parentId).bind
  intro chain _
  dsimp only
  split
  · exact orderly_throw _
  split
  · exact orderly_throw _
  have added : (ofContainer (parent.addMember id .container b')).Steady b' fun grown => DatedBy b' grown.members :=
    steady_ofContainer fun grown added => loaded.addMember held added
  apply added.bind
  intro grown next
  exact steady_pure ⟨loaded.1, next⟩

theorem steady_insertNew {container : Container} (none : container.members = []) :
    (insertNew container).Steady b fun _ => True := by
  have dated : DatedBy b container.members := none ▸ datedBy_nil b
  have inserted : (tryStore (.insert (.first container))).Steady b _ := steady_tryStore dated
  have dropped : (tryIndex (.dropPartition container.id)).Steady b _ := steady_tryIndex trivial fun _ _ same => same
  rw [insertNew]
  apply inserted.bind
  intro outcome _
  split
  · exact steady_pure trivial
  · apply dropped.bind
    intro _ _
    split <;> exact orderly_throw _

theorem steady_storePrepared {container : Container} {parent : Option (Record × Container)}
    (none : container.members = []) (ready : ∀ p ∈ parent, p.1.Dated b ∧ DatedBy b p.2.members) :
    (storePrepared container b parent).Steady b fun _ => True := by
  rw [storePrepared]
  apply steady_checkContext.bind
  intro _ _
  apply (steady_seedPartition container.id).bind
  intro _ _
  apply (steady_insertNew none).bind
  intro _ _
  have reported : ∀ events : List Event, (do
      publish events
      pure container.takeEvents.2 : Action Container).Steady b fun _ => True :=
    fun events => (steady_publish events).bind fun _ _ => steady_pure trivial
  cases parent with
  | none => exact reported _
  | some p =>
    obtain ⟨dated, next⟩ := ready p rfl
    have committed : (commit p.1 p.2 [.insert { id := container.id, type := .container, addedAt := b }]).Steady b
        fun _ => True := steady_commit dated next fun change mem => by rw [List.mem_singleton.1 mem]; rfl
    apply Steady.bind (Orderly.onError committed fun _ _ _ => (steady_unwindCreate container.id).mono fun _ _ _ _ => trivial)
    intro _ _
    exact reported _

theorem orderly_createHeld (limits : Limits) {container : Container} (none : container.members = []) :
    (createHeld limits container).Orderly b fun _ _ => True := by
  have retired : (store (.isRetired container.id)).Steady b _ := steady_store trivial
  rw [createHeld]
  apply (steady_isStored container.id).bind
  intro stored _
  cases stored with
  | true => exact orderly_throw _
  | false =>
    apply retired.bind
    intro gone _
    cases gone with
    | true => exact orderly_throw _
    | false =>
      apply orderly_now.bind
      rintro b' time - ⟨rfl, held⟩
      have stored_under : ∀ parent : Option (Record × Container),
          (∀ p ∈ parent, p.1.Dated time ∧ DatedBy time p.2.members) →
            (storePrepared container time parent).Orderly time fun _ _ => True :=
        fun parent ready => (steady_storePrepared none ready).mono fun _ _ _ _ => trivial
      by_cases root : container.parentId.isEmpty = true
      · simp only [if_pos root]
        exact stored_under .none fun p impossible => by cases impossible
      · simp only [if_neg root]
        have prepared : (some <$> preparedParent limits container.id container.parentId time).Steady time
            fun parent => ∀ p ∈ parent, p.1.Dated time ∧ DatedBy time p.2.members := by
          apply Orderly.map
          refine (steady_preparedParent limits container.id container.parentId held).mono ?_
          rintro b' p - ⟨rfl, ready⟩
          exact ⟨rfl, fun _ same => by cases same; exact ready⟩
        exact prepared.bind stored_under

theorem orderly_create (limits : Limits) {container : Container} (none : container.members = []) :
    (create limits container).Orderly b fun _ _ => True := by
  have valid : (ofContainer (Container.validate container.toSnapshot)).Steady b fun _ => True :=
    steady_ofContainer fun _ _ => trivial
  rw [create]
  exact valid.bind fun _ _ => (orderly_createHeld limits none).withContainers.withLock

/-! ### Deleting containers and changing properties -/

theorem steady_detach (id parentId : String) (time : Instant) :
    (detach id parentId time).Steady b fun detached => ∀ write ∈ detached.1, write.1.Dated b := by
  have nothing : (pure (none, []) : Action (Option (Record × Record) × List Event)).Steady b
      fun detached => ∀ write ∈ detached.1, write.1.Dated b :=
    steady_pure fun write impossible => by cases impossible
  rw [detach]
  split
  · exact nothing
  apply (steady_read? parentId).bind
  intro found dated
  cases found with
  | none => exact nothing
  | some record =>
    apply (steady_hydrate record).bind
    intro parent same
    have loaded : Loaded b (record, parent) := ⟨dated record rfl, same⟩
    split
    · have shrunk : (ofContainer (parent.removeMember id time)).Steady b fun done => DatedBy b done.2.members :=
        steady_ofContainer fun done removed => loaded.removeMember removed
      apply shrunk.bind
      rintro ⟨removed, rest⟩ next
      apply (steady_commit loaded.1 next fun change mem => by rw [List.mem_singleton.1 mem]; trivial).bind
      intro committed _
      exact steady_pure fun write same => by cases same; exact loaded.1
    · exact nothing

theorem orderly_deleteHeld (id parentId : String) : (deleteHeld id parentId).Orderly b fun _ _ => True := by
  rw [deleteHeld]
  apply (steady_load id).bind
  rintro ⟨record, container⟩ -
  dsimp only
  split
  · exact orderly_pure trivial
  split
  · exact orderly_throw _
  apply steady_checkContext.bind
  intro _ _
  apply orderly_now.bind
  rintro b' time - ⟨rfl, -⟩
  apply (steady_detach id parentId time).bind
  rintro ⟨detached, parentEvents⟩ dated
  have retired : (tryStore (.retire id)).Steady time _ := steady_tryStore trivial
  have dropped : (tryIndex (.dropPartition id)).Steady time _ := steady_tryIndex trivial fun _ _ same => same
  apply retired.bind
  intro outcome _
  cases outcome with
  | error e =>
    cases detached with
    | none => exact orderly_throw _
    | some write => exact (steady_rollBack write.2 (dated write rfl)).bind fun _ _ => orderly_throw _
  | ok existed =>
    apply dropped.bind
    intro _ _
    exact (steady_publish _).bind fun _ _ => orderly_pure trivial

theorem orderly_deleteWithin (id : String) (attempts : Nat) : (deleteWithin id attempts).Orderly b fun _ _ => True := by
  induction attempts generalizing b with
  | zero => exact orderly_throw _
  | succ attempts ih =>
    rw [deleteWithin]
    apply (steady_load id).bind
    rintro ⟨record, container⟩ -
    apply (orderly_deleteHeld id record.parentId).withContainers.bind
    intro b' done _ _
    split
    · exact orderly_pure trivial
    · exact ih

theorem orderly_updateMetadata (id : String) (update : MetadataUpdate) :
    (updateMetadata id update).Orderly b fun _ _ => True := by
  apply Orderly.withLock
  rw [updateMetadataHeld]
  apply (steady_load id).bind
  rintro ⟨record, container⟩ loaded
  apply orderly_now.bind
  rintro b' time later ⟨rfl, -⟩
  have loaded := loaded.mono later
  dsimp only
  split
  · exact orderly_pure trivial
  apply steady_checkContext.bind
  intro _ _
  have members : (applyUpdate container update time).members = container.members :=
    (sameShape_applyUpdate container update time).members
  have next : DatedBy time (applyUpdate container update time).members := members ▸ loaded.members
  apply (steady_commit loaded.1 next fun change impossible => absurd impossible List.not_mem_nil).bind
  intro _ _
  exact (steady_publish _).bind fun _ _ => orderly_pure trivial

/-! ### Listing members and striking them off -/

theorem orderly_addMember (classifier : Classifier) (container member : String) :
    (addMember classifier container member).Orderly b fun _ _ => True := by
  rw [addMember]
  apply (steady_classify classifier container member).bind
  intro type _
  apply Orderly.withLock
  rw [addMemberHeld]
  apply (steady_load container).bind
  rintro ⟨record, c⟩ loaded
  apply orderly_now.bind
  rintro b' time later ⟨rfl, held⟩
  have loaded := loaded.mono later
  have added : (ofContainer (c.addMember member type time)).Steady time fun grown => DatedBy time grown.members :=
    steady_ofContainer fun grown added => loaded.addMember held added
  apply added.bind
  intro grown next
  apply steady_checkContext.bind
  intro _ _
  apply (steady_commit loaded.1 next fun change mem => by rw [List.mem_singleton.1 mem]; rfl).bind
  intro _ _
  exact (steady_publish _).bind fun _ _ => orderly_pure trivial

theorem orderly_addMembers (classifier : Classifier) (container : String) (members : List String) :
    (addMembers classifier container members).Orderly b fun _ _ => True := by
  induction members generalizing b with
  | nil => exact orderly_pure trivial
  | cons member rest ih =>
    rw [addMembers]
    apply (orderly_addMember classifier container member).bind
    intro b' _ _ _
    exact Orderly.bind ih fun _ _ _ _ => orderly_pure trivial

theorem orderly_strikeOff {record : Record} {c : Container} (loaded : Loaded b (record, c)) (member : String) :
    (strikeOff record c member).Orderly b fun _ _ => True := by
  rw [strikeOff]
  apply orderly_now.bind
  rintro b' time later ⟨rfl, -⟩
  have loaded := loaded.mono later
  have shrunk : (ofContainer (c.removeMember member time)).Steady time fun done => DatedBy time done.2.members :=
    steady_ofContainer fun done removed => loaded.removeMember removed
  apply shrunk.bind
  rintro ⟨removed, rest⟩ next
  apply steady_checkContext.bind
  intro _ _
  apply (steady_commit loaded.1 next fun change mem => by rw [List.mem_singleton.1 mem]; trivial).bind
  intro _ _
  exact (steady_publish _).bind fun _ _ => orderly_pure trivial

theorem orderly_removeMember (container member : String) :
    (removeMember container member).Orderly b fun _ _ => True := by
  apply Orderly.withLock
  rw [removeMemberHeld]
  apply (steady_load container).bind
  rintro ⟨record, c⟩ loaded
  dsimp only
  split
  · exact (steady_refuseChild container member).bind fun _ _ => orderly_strikeOff loaded member
  · exact orderly_strikeOff loaded member

/-! ### Moving containers -/

theorem steady_attached (id target : String) (held : (Instant.ofMillis? b.toMillis).isSome) :
    (attached id target b).Steady b fun parent => ∀ p ∈ parent, p.1.Dated b ∧ DatedBy b p.2.members := by
  rw [attached]
  split
  · exact steady_pure fun p impossible => by cases impossible
  apply (steady_load target).mapError.bind
  rintro b' ⟨record, parent⟩ - ⟨rfl, loaded⟩
  have added : (ofContainer (parent.addMember id .container b')).Steady b' fun grown => DatedBy b' grown.members :=
    steady_ofContainer fun grown added => loaded.addMember held added
  apply added.bind
  intro grown next
  exact steady_pure fun p same => by cases same; exact ⟨loaded.1, next⟩

theorem steady_detached (id source : String) (time : Instant) :
    (detached id source time).Steady b fun parent => ∀ p ∈ parent, p.1.Dated b ∧ DatedBy b p.2.members := by
  have nothing : (pure none : Action (Option (Record × Container))).Steady b
      fun parent => ∀ p ∈ parent, p.1.Dated b ∧ DatedBy b p.2.members :=
    steady_pure fun p impossible => by cases impossible
  rw [detached]
  split
  · exact nothing
  apply (steady_read? source).bind
  intro found dated
  cases found with
  | none => exact nothing
  | some record =>
    apply (steady_hydrate record).bind
    intro parent same
    have loaded : Loaded b (record, parent) := ⟨dated record rfl, same⟩
    split
    · have shrunk : (ofContainer (parent.removeMember id time)).Steady b fun done => DatedBy b done.2.members :=
        steady_ofContainer fun done removed => loaded.removeMember removed
      apply shrunk.bind
      rintro ⟨removed, rest⟩ next
      exact steady_pure fun p same => by cases same; exact ⟨loaded.1, next⟩
    · exact nothing

theorem steady_commitParent {change : IndexChange} (timely : change.IsTimely b) {writes : List (Record × Record)}
    (written : ∀ write ∈ writes, write.1.Dated b) (events : List Event) {parent : Option (Record × Container)}
    (ready : ∀ p ∈ parent, p.1.Dated b ∧ DatedBy b p.2.members) :
    (commitParent change writes events parent).Steady b fun done => ∀ write ∈ done.1, write.1.Dated b := by
  cases parent with
  | none => exact steady_pure written
  | some p =>
    obtain ⟨dated, next⟩ := ready p rfl
    have committed : (commit p.1 p.2 [change]).Steady b fun _ => True :=
      steady_commit dated next fun other mem => by rw [List.mem_singleton.1 mem]; exact timely
    rw [commitParent]
    refine Steady.bind (Orderly.onError committed fun b' _ later => ?_) ?_
    · refine (steady_unwind ?_).mono fun _ _ _ _ => trivial
      exact fun write mem => (written write mem).mono later
    · intro record _
      apply steady_pure
      intro write mem
      rcases List.mem_append.1 mem with earlier | last
      · exact written write earlier
      · rw [List.mem_singleton.1 last]
        exact dated

theorem steady_commitMoved {record : Record} {moved : Container} (dated : DatedBy b moved.members)
    {writes : List (Record × Record)} (written : ∀ write ∈ writes, write.1.Dated b) (events : List Event) :
    (commitMoved record moved writes events).Steady b fun _ => True := by
  have updated : (tryStore (.update (record.next moved) record.revision)).Steady b _ := steady_tryStore dated
  rw [commitMoved]
  apply updated.bind
  intro outcome _
  split
  · exact (steady_unwind written).bind fun _ _ => orderly_throw _
  · exact (steady_publish _).bind fun _ _ => steady_pure trivial

theorem orderly_moveHeld (id source target : String) : (moveHeld id source target).Orderly b fun _ _ => True := by
  rw [moveHeld]
  apply (steady_load id).bind
  rintro ⟨record, container⟩ loaded
  dsimp only
  split
  · exact orderly_pure trivial
  apply orderly_now.bind
  rintro b' time later ⟨rfl, held⟩
  have loaded := loaded.mono later
  have reparented : (ofContainer (container.reparent target time)).Steady time fun moved => DatedBy time moved.members :=
    steady_ofContainer fun moved done => by
      obtain ⟨-, rfl⟩ := Container.of_reparent done
      exact loaded.members
  apply reparented.bind
  intro moved dated
  apply (steady_attached id target held).bind
  intro newParent new
  apply (steady_detached id source time).bind
  intro oldParent old
  apply steady_checkContext.bind
  intro _ _
  have timely : IndexChange.IsTimely time (.insert { id, type := .container, addedAt := time }) := rfl
  apply (steady_commitParent timely (fun write impossible => absurd impossible List.not_mem_nil) [] new).bind
  rintro ⟨writes, events⟩ written
  have gone : IndexChange.IsTimely time (.remove id) := trivial
  apply (steady_commitParent gone written events old).bind
  rintro ⟨writes, events⟩ written
  exact (steady_commitMoved dated written events).mono fun _ _ _ _ => trivial

theorem orderly_move (limits : Limits) (id target : String) : (move limits id target).Orderly b fun _ _ => True := by
  apply Orderly.withLock
  rw [moveWithin]
  apply (steady_load id).bind
  rintro ⟨record, container⟩ -
  apply (steady_checkMove limits id target).bind
  intro _ _
  exact (orderly_moveHeld id _ target).withContainers

/-! ### Writing the index anew -/

theorem orderly_rebuild (id : String) : (rebuild id).Orderly b fun _ _ => True := by
  apply Orderly.withLock
  rw [rebuildHeld]
  apply (steady_load id).bind
  rintro ⟨record, container⟩ loaded
  apply steady_checkContext.bind
  intro _ _
  have replaced : (index (.replacePartition id record.container.members)).Steady b _ :=
    steady_index loaded.1 fun _ _ same => same
  exact replaced.bind fun _ _ => orderly_pure trivial

theorem orderly_rebuildEach (ids : List String) (summary : RebuildSummary) :
    (rebuildEach ids summary).Orderly b fun _ _ => True := by
  induction ids generalizing b summary with
  | nil => exact orderly_pure trivial
  | cons id rest ih =>
    rw [rebuildEach]
    have counted : (some <$> rebuild id).Orderly b fun _ _ => True :=
      Orderly.map ((orderly_rebuild id).mono fun _ _ _ _ => trivial)
    refine Orderly.bind (Orderly.tryCatch counted fun b' e _ => ?_) fun b' rows _ _ => ?_
    · cases e with
      | notFound => exact orderly_pure trivial
      | _ => exact orderly_throw _
    · cases rows with
      | none => exact ih summary
      | some rows => exact ih _

theorem steady_dropOrphan (partition : String) : (dropOrphan partition).Steady b fun _ => True := by
  rw [dropOrphan]
  apply (steady_isStored partition).bind
  intro stored _
  split
  · exact steady_pure trivial
  · exact steady_index trivial fun _ _ same => same

theorem steady_dropOrphans (partitions : List String) (summary : RebuildSummary) :
    (dropOrphans partitions summary).Steady b fun _ => True := by
  induction partitions generalizing summary with
  | nil => exact steady_pure trivial
  | cons partition rest ih =>
    rw [dropOrphans]
    exact Steady.bind (steady_dropOrphan partition).withLock fun dropped _ => ih _

theorem orderly_rebuildAll : rebuildAll.Orderly b fun _ _ => True := by
  have asked : ∀ b, (index .partitions).Steady b _ := fun b => steady_index trivial fun _ _ same => same
  have listed : (store .ids).Steady b _ := steady_store trivial
  rw [rebuildAll]
  apply listed.bind
  intro ids _
  apply (orderly_rebuildEach ids {}).bind
  intro b' summary _ _
  apply (asked b').bind
  intro partitions _
  exact (steady_dropOrphans _ summary).mono fun _ _ _ _ => trivial

end Repository

/-! ### Calls -/

/-- Creations of containers without members, and all other calls that change containers or the index. -/
def Call.IsChange : Call → Prop
  | .create (.restored s) => s.members = []
  | .create _ | .delete _ | .updateMetadata _ _ | .addMember _ _ | .addMembers _ _ | .removeMember _ _ | .move _ _
  | .rebuild _ | .rebuildAll => True
  | _ => False

/-- Every such call keeps the order of times, whatever fails on the way. -/
theorem Call.orderly {settings : Settings} {call : Call} (change : call.IsChange) (b : Instant) :
    (call.action settings).Orderly b fun _ _ => True := by
  cases call with
  | create draft =>
    have unfilled : ∀ s, draft = .restored s → s.members = [] := by
      rintro s rfl
      exact change
    apply (Repository.orderly_draw unfilled).bind
    intro b' container _ none
    exact (Repository.orderly_create settings.limits none).map
  | delete id =>
    have deleted : (Repository.delete id).Orderly b fun _ _ => True := (Repository.orderly_deleteWithin id _).withLock
    exact deleted.bind fun _ _ _ _ => Action.orderly_pure trivial
  | updateMetadata id update => exact (Repository.orderly_updateMetadata id update).map
  | addMember container member => exact (Repository.orderly_addMember settings.classifier container member).map
  | addMembers container members => exact (Repository.orderly_addMembers settings.classifier container members).map
  | removeMember container member => exact (Repository.orderly_removeMember container member).map
  | move id target => exact (Repository.orderly_move settings.limits id target).map
  | rebuild id => exact (Repository.orderly_rebuild id).map
  | rebuildAll => exact Repository.orderly_rebuildAll.map
  | _ => exact change.elim

end Containment
