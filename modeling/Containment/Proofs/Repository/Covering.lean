/-
Module: Containment.Proofs.Repository.Covering
Purpose: What calls of every kind keep as long as no request fails. Each stored container keeps the rules and has a
  partition, all rows of which are of its members. Containers that were stored with members have none for those,
  so that index and store need not agree; but no row stands in the way of a write.
Main exports: RowsOf, Holdings.Tended, manages_commit_tended, Call.keeps_tended
-/
import Containment.Proofs.Repository.Calls
import Containment.Proofs.Repository.Managing

namespace Containment

open Containment.Action Repository
open Function (update update_self update_of_ne)

/-- All rows are of these members. -/
def RowsOf (rows members : List Member) : Prop :=
  ∀ row ∈ rows, ∃ m ∈ members, m.id = row.id

namespace IndexChange

variable {rows members : List Member}

/-- A change that fits the members fits their rows. -/
theorem fits_rows {change : IndexChange} (fits : change.Fits members) (within : RowsOf rows members) :
    change.Fits rows := by
  cases change with
  | insert m =>
    intro row mem
    obtain ⟨n, listed, same⟩ := within row mem
    exact same ▸ fits n listed
  | remove id => exact trivial

/-- Rows that change like the members are still of these. -/
theorem rowsOf_apply (change : IndexChange) (within : RowsOf rows members) :
    RowsOf (change.apply rows) (change.apply members) := by
  intro row mem
  cases change with
  | insert m =>
    rcases List.mem_append.1 mem with old | new
    · obtain ⟨n, listed, same⟩ := within row old
      exact ⟨n, List.mem_append_left _ listed, same⟩
    · exact ⟨row, List.mem_append_right _ new, rfl⟩
  | remove id =>
    obtain ⟨old, stays⟩ := List.mem_filter.1 mem
    obtain ⟨n, listed, same⟩ := within row old
    exact ⟨n, List.mem_filter.2 ⟨listed, same ▸ stays⟩, same⟩

end IndexChange

namespace Contents

/-- Each stored container has a partition, all rows of which are of its members. -/
def Covers (C : Contents) (lists : Listing) : Prop :=
  ∀ id s, C id = some s → ∃ rows, lists id = some rows ∧ RowsOf rows s.members

variable {C : Contents} {lists : Listing} {id : String}

theorem Covers.put (covers : C.Covers lists) {s : Snapshot} {rows : List Member} (within : RowsOf rows s.members) :
    Covers (update C id (some s)) (update lists id (some rows)) := by
  intro other t found
  by_cases same : other = id
  · subst same
    rw [update_self] at found ⊢
    cases found
    exact ⟨rows, rfl, within⟩
  · rw [update_of_ne same] at found ⊢
    exact covers other t found

/-- Only the rows of a stored container are written anew. -/
theorem Covers.relist (covers : C.Covers lists) {s : Snapshot} (found : C id = some s) {rows : List Member}
    (within : RowsOf rows s.members) : C.Covers (update lists id (some rows)) := by
  have put : Covers (update C id (some s)) (update lists id (some rows)) := covers.put within
  rwa [← found, Function.update_eq_self] at put

/-- What is listed under an identifier that is not in use does not matter. -/
theorem Covers.aside (covers : C.Covers lists) (absent : C id = none) (rows : Option (List Member)) :
    C.Covers (update lists id rows) := by
  intro other t found
  have ne : other ≠ id := by
    intro same
    rw [same, absent] at found
    cases found
  rw [update_of_ne ne]
  exact covers other t found

theorem Covers.drop (covers : C.Covers lists) : Covers (update C id none) lists := by
  intro other t found
  by_cases same : other = id
  · subst same
    rw [update_self] at found
    cases found
  · rw [update_of_ne same] at found
    exact covers other t found

end Contents

/-- Every stored container keeps the rules and has a partition, all rows of which are of its members. -/
structure Holdings.Tended (h : Holdings) : Prop where
  sane : h.store.contents.Sane
  covered : ∃ lists, h.Lists lists ∧ h.store.contents.Covers lists

theorem Holdings.tended_empty : Holdings.Tended {} := by
  refine ⟨MemoryStore.sane_empty, _, Index.lists_empty, ?_⟩
  rw [MemoryStore.contents_empty]
  intro id s found
  cases found

namespace Repository

open Holdings (Tended)

variable {h : Holdings} {record : Record} {container : Container} {change : Option IndexChange} {id target : String}
  {limits : Limits}

/-! ### Writes -/

/-- A write that is ready is made, and the rows stay those of members. -/
theorem manages_commit_tended (tended : h.Tended) (ready : Prepared h.store record container change) :
    (commit record container change.toList).Manages h fun next h' =>
      next = record.next container ∧ h'.store = h.store.put (record.next container) ∧ h'.Tended := by
  obtain ⟨lists, known, covers⟩ := tended.covered
  obtain ⟨rows, listed, within⟩ := covers record.id record.container (MemoryStore.contents_eq_some ready.found)
  have own := ready.own
  rw [← own] at listed
  have found : h.store.records[container.id]? = some record := by
    rw [own]
    exact ready.found
  refine (manages_commit change found known listed fun c mem => IndexChange.fits_rows (ready.fits c mem) within).mono ?_
  intro next h' given
  rcases given with ⟨rfl, store, after⟩
  refine ⟨rfl, store, ?_, _, after, ?_⟩
  · rw [store, MemoryStore.contents_put]
    exact tended.sane.put ready.valid
  · rw [store, MemoryStore.contents_put]
    apply covers.put
    change RowsOf _ container.members
    rw [ready.members]
    cases change with
    | none => exact within
    | some change => exact change.rowsOf_apply within

/-- Reports are handed on beside everything else. -/
theorem tended_publish_pure {α : Type} (tended : h.Tended) (events : List Event) (a : α) :
    (publish events >>= fun _ => pure a : Action α).Keeps h Tended :=
  ensures_publish (ensures_pure fun _ => ⟨tended.sane, tended.covered⟩)

theorem tended_commit_publish {α : Type} {a : α} (tended : h.Tended) (ready : Prepared h.store record container change)
    (events : List Event) :
    (commit record container change.toList >>= fun _ => publish events >>= fun _ => pure a : Action α).Keeps h Tended :=
  (manages_commit_tended tended ready).keeps_bind fun _ _ given => tended_publish_pure given.2.2 events a

/-! ### Members and properties -/

theorem tended_addMember {classifier : Classifier} {member : String} (tended : h.Tended) :
    (addMember classifier id member).Keeps h Tended := by
  apply reads_classify.keeps_bind tended
  intro type _
  refine Keeps.withLock ?_ tended
  apply reads_load.keeps_bind tended
  intro loaded given
  rcases loaded with ⟨record, c⟩
  rcases given with ⟨found, hydrated⟩
  apply reads_now.keeps_bind tended
  intro time _
  apply reads_ofContainer.keeps_bind tended
  intro grown added
  apply reads_checkContext.keeps_bind tended
  intro _ _
  exact tended_commit_publish tended (Prepared.of_add tended.sane found hydrated added) _

theorem tended_addMembers {classifier : Classifier} (members : List String) (tended : h.Tended) :
    (addMembers classifier id members).Keeps h Tended := by
  induction members generalizing h with
  | nil => exact keeps_pure tended 0
  | cons member rest ih =>
    refine (tended_addMember tended).bind ?_
    intro _ h₁ tended₁
    refine (ih tended₁).bind ?_
    intro _ h₂ tended₂
    exact keeps_pure tended₂ _

theorem tended_strikeOff {member : String} (tended : h.Tended) (found : h.store.records[id]? = some record)
    (hydrated : record.hydrate = .ok container) : (strikeOff record container member).Keeps h Tended := by
  apply reads_now.keeps_bind tended
  intro time _
  apply reads_ofContainer.keeps_bind tended
  intro given done
  rcases given with ⟨removed, shrunk⟩
  apply reads_checkContext.keeps_bind tended
  intro _ _
  exact tended_commit_publish tended (Prepared.of_remove tended.sane found hydrated done) _

theorem tended_removeMember {member : String} (tended : h.Tended) : (removeMember id member).Keeps h Tended := by
  refine Keeps.withLock ?_ tended
  apply reads_load.keeps_bind tended
  intro loaded given
  rcases loaded with ⟨record, c⟩
  rcases given with ⟨found, hydrated⟩
  by_cases contained : c.containsMember member = true
  · simp only [if_pos contained]
    apply reads_refuseChild.keeps_bind tended
    intro _ _
    exact tended_strikeOff tended found hydrated
  · simp only [if_neg contained]
    exact tended_strikeOff tended found hydrated

theorem tended_updateMetadata {update : MetadataUpdate} (tended : h.Tended) :
    (updateMetadata id update).Keeps h Tended := by
  refine Keeps.withLock ?_ tended
  apply reads_load.keeps_bind tended
  intro loaded given
  rcases loaded with ⟨record, c⟩
  rcases given with ⟨found, hydrated⟩
  apply reads_now.keeps_bind tended
  intro time _
  by_cases unchanged : (applyUpdate c update time).pending.isEmpty
  · simp only [if_pos unchanged]
    exact keeps_pure tended _
  · simp only [if_neg unchanged]
    apply reads_checkContext.keeps_bind tended
    intro _ _
    have ready := Prepared.of_sameShape tended.sane found hydrated (sameShape_applyUpdate c update time)
    exact tended_commit_publish tended ready _

/-! ### Making and deleting -/

theorem tended_storePrepared {c : Container} {time : Time.Instant} {parent : Option (Record × Container)}
    (tended : h.Tended) (valid : c.toSnapshot.Valid) (absent : h.store.contents c.id = none)
    (unused : h.store.retired.contains c.id = false)
    (ready : ∀ p ∈ parent, p.1.id ≠ c.id ∧
      Prepared h.store p.1 p.2 (some (.insert { id := c.id, type := .container, addedAt := time }))) :
    (storePrepared c time parent).Keeps h Tended := by
  simp only [storePrepared]
  apply reads_checkContext.keeps_bind tended
  intro _ _
  obtain ⟨lists, known, covers⟩ := tended.covered
  refine (manages_seedPartition known).keeps_bind ?_
  intro _ h₁ given
  rcases given with ⟨only, listed⟩
  rw [← only.store] at absent unused
  refine (manages_insertNew absent unused).keeps_bind ?_
  intro _ h₂ given
  rcases given with ⟨store, index⟩
  rw [only.store] at store
  have tended₂ : h₂.Tended := by
    constructor
    · rw [store, MemoryStore.contents_put]
      exact tended.sane.put valid
    · refine ⟨update lists c.id (some []), ?_, ?_⟩
      · change h₂.index.Lists _
        rw [index]
        exact listed
      · rw [store, MemoryStore.contents_put]
        apply covers.put
        intro row impossible
        cases impossible
  cases parent with
  | none => exact tended_publish_pure tended₂ _ _
  | some p =>
    obtain ⟨apart, prepared⟩ := ready p rfl
    have prepared₂ : Prepared h₂.store p.1 p.2
        (some (.insert { id := c.id, type := .container, addedAt := time })) := by
      rw [store]
      exact prepared.put (Ne.symm apart)
    refine (manages_commit_tended tended₂ prepared₂).onError.keeps_bind ?_
    intro _ h₃ given
    rcases given with ⟨-, -, tended₃⟩
    exact tended_publish_pure tended₃ _ _

theorem tended_create (tended : h.Tended) : (create limits container).Keeps h Tended := by
  apply reads_ofContainer.keeps_bind tended
  intro _ accepted
  refine Keeps.withLock (Keeps.withContainers ?_ tended) tended
  have valid : container.toSnapshot.Valid := Container.validate_eq_ok_iff.1 accepted
  exact ensures_createHeld_of (fun _ _ _ _ => tended) fun _ _ absent unused ready =>
    tended_storePrepared tended valid absent unused (ready.prepared tended.sane valid)

theorem tended_detach {parentId : String} {time : Time.Instant} (tended : h.Tended) :
    (detach id parentId time).Keeps h Tended := by
  simp only [detach]
  by_cases top : parentId.isEmpty
  · rw [if_pos top]
    exact keeps_pure tended _
  rw [if_neg top]
  apply reads_read?.keeps_bind tended
  intro stored same
  subst same
  cases found : h.store.records[parentId]? with
  | none => exact keeps_pure tended _
  | some record =>
    apply reads_hydrate.keeps_bind tended
    intro parent hydrated
    by_cases listed : parent.containsMember id = true
    · simp only [if_pos listed]
      apply reads_ofContainer.keeps_bind tended
      intro given done
      rcases given with ⟨removed, shrunk⟩
      refine (manages_commit_tended tended (Prepared.of_remove tended.sane found hydrated done)).keeps_bind ?_
      intro _ h₁ given
      exact keeps_pure given.2.2 _
    · simp only [if_neg listed]
      exact keeps_pure tended _

theorem tended_deleteHeld {parentId : String} (tended : h.Tended) : (deleteHeld id parentId).Keeps h Tended := by
  simp only [deleteHeld]
  apply reads_load.keeps_bind tended
  intro loaded _
  rcases loaded with ⟨record, c⟩
  by_cases moved : record.parentId ≠ parentId
  · simp only [if_pos moved]
    exact keeps_pure tended _
  simp only [if_neg moved]
  by_cases full : (!c.members.isEmpty) = true
  · simp only [if_pos full]
    exact keeps_throw tended _
  simp only [if_neg full]
  apply reads_checkContext.keeps_bind tended
  intro _ _
  apply reads_now.keeps_bind tended
  intro time _
  refine (tended_detach tended).bind ?_
  intro _ h₁ tended₁
  have dropped : Holdings.Tended
      { h₁ with store := h₁.store.retiring id, index := (h₁.index.perform (.dropPartition id)).2 } := by
    obtain ⟨lists, known, covers⟩ := tended₁.covered
    refine ⟨?_, _, (Index.Lists.dropPartition known id).2, ?_⟩
    · change (h₁.store.retiring id).contents.Sane
      rw [MemoryStore.contents_retiring]
      exact tended₁.sane.drop id
    · change (h₁.store.retiring id).contents.Covers _
      rw [MemoryStore.contents_retiring]
      exact covers.drop.aside (update_self ..) none
  refine keeps_tryStore_bind (MemoryStore.perform_retire id) ?_
  exact keeps_tryIndex_bind (tended_publish_pure dropped _ true)

theorem tended_deleteWithin (attempts : Nat) (tended : h.Tended) : (deleteWithin id attempts).Keeps h Tended := by
  induction attempts generalizing h with
  | zero => exact keeps_throw tended _
  | succ attempts ih =>
    apply reads_load.keeps_bind tended
    intro loaded _
    rcases loaded with ⟨record, c⟩
    refine (Keeps.withContainers (tended_deleteHeld tended) tended).bind ?_
    intro done h₁ tended₁
    cases done with
    | true => exact keeps_pure tended₁ ()
    | false => exact ih tended₁

/-! ### Moves -/

/-- A parent that takes part in a move is written, if there is one. -/
theorem manages_commitParent {change : IndexChange} {writes : List (Record × Record)} {events : List Event}
    {parent : Option (Record × Container)} (tended : h.Tended)
    (ready : ∀ r p, parent = some (r, p) → Prepared h.store r p (some change)) :
    (commitParent change writes events parent).Manages h fun given h' =>
      ParentWritten h.store events given.2 h'.store parent ∧ h'.Tended := by
  cases parent with
  | none => exact manages_pure ⟨⟨rfl, rfl⟩, tended⟩
  | some parent =>
    obtain ⟨record, container⟩ := parent
    refine (manages_commit_tended tended (ready record container rfl)).onError.bind ?_
    intro _ h₁ given
    rcases given with ⟨rfl, store, tended₁⟩
    exact manages_pure ⟨⟨rfl, store⟩, tended₁⟩

/-- A container that names another parent and has kept its members is written. -/
theorem manages_commitMoved {moved : Container} {writes : List (Record × Record)} {events : List Event}
    (tended : h.Tended) (current : h.store.records[moved.id]? = some record) (valid : moved.toSnapshot.Valid)
    (members : moved.members = record.container.members) :
    (commitMoved record moved writes events).Manages h fun _ h' => h'.Tended := by
  have written : Holdings.Tended { h with store := h.store.put (record.next moved) } := by
    obtain ⟨lists, known, covers⟩ := tended.covered
    obtain ⟨rows, listed, within⟩ := covers moved.id record.container (MemoryStore.contents_eq_some current)
    constructor
    · change (h.store.put (record.next moved)).contents.Sane
      rw [MemoryStore.contents_put]
      exact tended.sane.put valid
    · refine ⟨lists, known, ?_⟩
      change (h.store.put (record.next moved)).contents.Covers lists
      have same : update lists moved.id (some rows) = lists := by
        rw [← listed, Function.update_eq_self]
      rw [MemoryStore.contents_put, ← same]
      apply covers.put
      change RowsOf rows moved.members
      rw [members]
      exact within
  simp only [commitMoved]
  have replaced : h.store.records[(record.next moved).id]? = some record := current
  apply manages_tryStore_bind (MemoryStore.perform_update replaced rfl)
  exact ensures_publish (manages_pure ⟨written.sane, written.covered⟩)

/-- All writes of a move are made: both parents, the new one first, and then the container. -/
theorem manages_moveWrites {source : String} {time : Time.Instant} {c moved : Container}
    {newParent oldParent : Option (Record × Container)} (tended : h.Tended) (distinct : source ≠ target)
    (apart : target ≠ id) (attach : AttachReady h.store id target time newParent)
    (detach : DetachReady h.store id source time oldParent) (found : h.store.records[id]? = some record)
    (here : record.parentId = source) (hydrated : record.hydrate = .ok c) (done : c.reparent target time = .ok moved) :
    (commitParent (.insert { id, type := .container, addedAt := time }) [] [] newParent >>= fun given =>
      commitParent (.remove id) given.1 given.2 oldParent >>= fun given =>
        commitMoved record moved given.1 given.2).Manages h fun _ h' => h'.Tended := by
  obtain ⟨sound, same, -⟩ := Record.sound_of_hydrate hydrated
  obtain ⟨key, kept⟩ := tended.sane.record found
  obtain ⟨-, movedId, -, -, movedMembers, valid⟩ := sound.reparent done
  have ownId : moved.id = id := by
    rw [movedId, same]
    exact key
  have sourceApart : source ≠ id := by
    rw [← here, ← key]
    exact kept.parent_ne
  have newKey : ∀ r p, newParent = some (r, p) → p.id = target := by
    intro r p is
    subst is
    exact (attach.prepared tended.sane).2
  have oldKey : ∀ r p, oldParent = some (r, p) → p.id = source := by
    intro r p is
    subst is
    exact (detach.prepared tended.sane).2
  refine (manages_commitParent tended ?_).bind ?_
  · intro r p is
    subst is
    exact (attach.prepared tended.sane).1
  intro given h₁ also
  rcases also with ⟨written₁, tended₁⟩
  have source₁ : h₁.store.records[source]? = h.store.records[source]? :=
    written₁.records fun r p is => newKey r p is ▸ Ne.symm distinct
  have detach₁ : DetachReady h₁.store id source time oldParent := detach.congr fun _ => source₁
  refine (manages_commitParent tended₁ ?_).bind ?_
  · intro r p is
    subst is
    exact (detach₁.prepared tended₁.sane).1
  intro given h₂ also
  rcases also with ⟨written₂, tended₂⟩
  have current : h₂.store.records[moved.id]? = some record := by
    rw [ownId, written₂.records fun r p is => oldKey r p is ▸ sourceApart,
      written₁.records fun r p is => newKey r p is ▸ apart]
    exact found
  apply manages_commitMoved tended₂ current valid
  rw [movedMembers, same]

theorem tended_move (tended : h.Tended) : (move limits id target).Keeps h Tended := by
  refine Keeps.withLock ?_ tended
  apply reads_load.keeps_bind tended
  intro loaded given
  rcases loaded with ⟨record, c⟩
  rcases given with ⟨found, -⟩
  have stored : (h.store.contents id).isSome := MemoryStore.isSome_contents found
  apply (reads_checkMove tended.sane stored).keeps_bind tended
  intro _ given
  rcases given with ⟨apart, -⟩
  refine Keeps.withContainers ?_ tended
  apply reads_load.keeps_bind tended
  intro loaded given
  rcases loaded with ⟨record', c⟩
  rcases given with ⟨found', hydrated⟩
  obtain rfl : record = record' := Option.some.inj (found.symm.trans found')
  by_cases stays : record.parentId = target
  · simp only [if_pos stays]
    exact keeps_pure tended c
  simp only [if_neg stays]
  apply reads_now.keeps_bind tended
  intro time _
  apply reads_ofContainer.keeps_bind tended
  intro moved done
  apply reads_attached.keeps_bind tended
  intro newParent attach
  apply reads_detached.keeps_bind tended
  intro oldParent detach
  apply reads_checkContext.keeps_bind tended
  intro _ _ fails out h' run none
  obtain ⟨_, -, tended'⟩ :=
    manages_moveWrites tended stays apart attach detach found rfl hydrated done fails out h' run none
  exact tended'

/-! ### Rows written anew -/

theorem tended_rebuild (tended : h.Tended) : (rebuild id).Keeps h Tended := by
  refine Keeps.withLock ?_ tended
  apply reads_load.keeps_bind tended
  intro loaded given
  rcases loaded with ⟨record, c⟩
  rcases given with ⟨found, -⟩
  apply reads_checkContext.keeps_bind tended
  intro _ _
  refine Keeps.bind ?_ fun _ h₁ tended₁ => keeps_pure tended₁ _
  obtain ⟨lists, known, covers⟩ := tended.covered
  refine keeps_index ?_
  refine ⟨tended.sane, _, (Index.Lists.replacePartition known (tended.sane.record found).2.nodup).2, ?_⟩
  exact covers.relist (MemoryStore.contents_eq_some found) fun row mem => ⟨row, mem, rfl⟩

theorem tended_rebuildEach (ids : List String) (summary : RebuildSummary) (tended : h.Tended) :
    (rebuildEach ids summary).Keeps h Tended := by
  induction ids generalizing h summary with
  | nil => exact keeps_pure tended summary
  | cons id rest ih =>
    simp only [rebuildEach]
    refine (Keeps.tryCatch (tended_rebuild tended).map ?_).bind ?_
    · intro e h₁ tended₁
      cases e <;> first | exact keeps_pure tended₁ none | exact keeps_throw tended₁ _
    · intro rows h₁ tended₁
      cases rows with
      | none => exact ih summary tended₁
      | some rows => exact ih _ tended₁

theorem tended_dropOrphan (partition : String) (tended : h.Tended) : (dropOrphan partition).Keeps h Tended := by
  simp only [dropOrphan]
  apply reads_isStored.keeps_bind tended
  intro stored same
  subst same
  by_cases there : (h.store.contents partition).isSome = true
  · simp only [if_pos there]
    exact keeps_pure tended false
  · simp only [if_neg there]
    obtain ⟨lists, known, covers⟩ := tended.covered
    refine keeps_index ?_
    refine ⟨tended.sane, _, (Index.Lists.dropPartition known partition).2, ?_⟩
    exact covers.aside (by simpa using there) none

theorem tended_dropOrphans (partitions : List String) (summary : RebuildSummary) (tended : h.Tended) :
    (dropOrphans partitions summary).Keeps h Tended := by
  induction partitions generalizing h summary with
  | nil => exact keeps_pure tended summary
  | cons partition rest ih =>
    simp only [dropOrphans]
    refine (Keeps.withLock (tended_dropOrphan partition tended) tended).bind ?_
    exact fun dropped h₁ tended₁ => ih _ tended₁

theorem tended_rebuildAll (tended : h.Tended) : rebuildAll.Keeps h Tended := by
  simp only [rebuildAll]
  refine ((looks_store .ids trivial).keeps tended).bind ?_
  intro ids h₁ tended₁
  refine (tended_rebuildEach ids {} tended₁).bind ?_
  intro summary h₂ tended₂
  refine ((looks_index .partitions trivial).keeps tended₂).bind ?_
  exact fun partitions h₃ tended₃ => tended_dropOrphans _ summary tended₃

end Repository

/-- Calls of every kind keep the rows to the members, however they end. -/
theorem Call.keeps_tended {settings : Settings} {h : Holdings} (call : Call) (tended : h.Tended) :
    (call.action settings).Keeps h Holdings.Tended := by
  by_cases question : call.IsQuestion
  · rcases Call.looks question with looks | ⟨body, same, looks⟩
    · exact Looks.keeps (looks.widen fun _ _ => trivial) tended
    · rw [same]
      exact (Looks.keeps (looks.widen fun _ impossible => impossible.elim) tended).withLock tended
  cases call with
  | create draft =>
    apply (reads_draw draft).keeps_bind tended
    exact fun c _ => (tended_create tended).map
  | delete id =>
    have deleted : (Repository.delete id).Keeps h Holdings.Tended :=
      (tended_deleteWithin deleteAttempts tended).withLock tended
    exact deleted.bind fun _ _ tended' => keeps_pure tended' Reply.done
  | updateMetadata id update => exact (tended_updateMetadata tended).map
  | addMember container member => exact (tended_addMember tended).map
  | addMembers container members => exact (tended_addMembers members tended).map
  | removeMember container member => exact (tended_removeMember tended).map
  | move id target => exact (tended_move tended).map
  | rebuild id => exact (tended_rebuild tended).map
  | rebuildAll => exact (tended_rebuildAll tended).map
  | get | contains | listMembers | countMembers | drain | nextBatch | children | parent | path | find | verify =>
    exact absurd trivial question

end Containment
