/-
Module: Containment.Proofs.Repository.Questions
Purpose: The calls that only read: loading, walking the hierarchy, listing members, reading batch by batch, and
  comparing index and store.
Main exports: Call.IsQuestion, Call.looks
-/
import Containment.Proofs.Looking
import Containment.Repository.Call

namespace Containment

namespace Repository

open Containment.Action

variable {limits : Limits} {locks : LockName → Prop}

theorem looks_read? (id : String) : (read? id).Looks locks :=
  looks_store (.read id) trivial

theorem looks_isStored (id : String) : (isStored id).Looks locks :=
  looks_store (.exists id) trivial

theorem looks_load (id : String) : (load id).Looks locks := by
  simp only [load]
  apply (looks_read? id).bind
  intro found
  cases found with
  | none => exact looks_throw not_false
  | some record => exact (looks_hydrate record).bind fun c => looks_pure _

theorem looks_climb (start : String) (remaining : Nat) (chain : List String) (current : String) :
    (climb limits start remaining chain current).Looks locks := by
  unfold climb
  apply (looks_load current).bind
  intro loaded
  obtain ⟨record, c⟩ := loaded
  by_cases top : record.parentId.isEmpty
  · simp only [if_pos top]
    exact looks_pure chain
  simp only [if_neg top]
  by_cases known : chain.contains record.parentId
  · simp only [if_pos known]
    exact looks_throw not_false
  simp only [if_neg known]
  match remaining with
  | 0 => exact looks_throw not_false
  | remaining + 1 => exact looks_climb start remaining _ _

theorem looks_ancestors (id : String) : (ancestors limits id).Looks locks :=
  looks_climb id _ _ _

theorem looks_readAll (ids : List String) : (readAll ids).Looks locks := by
  induction ids with
  | nil => exact looks_pure []
  | cons id rest ih =>
    simp only [readAll]
    exact (looks_read? id).bind fun record => ih.bind fun records => looks_pure _

theorem looks_childRecords (id : String) : (childRecords id).Looks locks := by
  simp only [childRecords]
  apply (looks_load id).bind
  intro loaded
  exact (looks_readAll _).bind fun records => looks_pure _

theorem looks_mapM {α β : Type} {f : α → Action β} (each : ∀ a, (f a).Looks locks) (items : List α) :
    (items.mapM f).Looks locks := by
  induction items with
  | nil => exact looks_pure []
  | cons a rest ih =>
    rw [List.mapM_cons]
    exact (each a).bind fun b => ih.bind fun bs => looks_pure _

theorem looks_children (id : String) : (children id).Looks LockName.IsContainer := by
  apply Looks.withLock trivial
  exact (looks_childRecords id).bind fun records => looks_mapM looks_hydrate records

theorem looks_parentHeld (id : String) : (parentHeld id).Looks locks := by
  simp only [parentHeld]
  apply (looks_load id).bind
  intro loaded
  obtain ⟨record, c⟩ := loaded
  by_cases top : record.parentId.isEmpty
  · simp only [if_pos top]
    exact looks_throw not_false
  · simp only [if_neg top]
    exact (looks_load record.parentId).bind fun above => looks_pure _

theorem looks_pathHeld (id : String) : (pathHeld limits id).Looks locks :=
  (looks_ancestors id).bind fun _ => looks_pure _

theorem looks_loadChild (target parentId id : String) : (loadChild target parentId id).Looks locks := by
  simp only [loadChild]
  refine ((looks_load id).mapError ?_).bind fun loaded => ?_
  · intro e harmless
    cases e <;> exact harmless
  · obtain ⟨record, c⟩ := loaded
    by_cases other : c.parentId ≠ parentId
    · simp only [if_pos other]
      exact looks_throw not_false
    · simp only [if_neg other]
      exact looks_pure c

theorem looks_descend (target : String) (rest : List String) (current : Container) :
    (descend target current rest).Looks locks := by
  induction rest generalizing current with
  | nil => exact looks_pure current
  | cons segment rest ih =>
    simp only [descend]
    by_cases unlisted : (!current.containsMember segment) = true
    · simp only [if_pos unlisted]
      exact looks_throw not_false
    · simp only [if_neg unlisted]
      exact (looks_loadChild target current.id segment).bind fun child => ih child

theorem looks_findHeld (target : String) : (findHeld target).Looks locks := by
  simp only [findHeld]
  cases segments target with
  | nil => exact looks_throw not_false
  | cons root rest => exact (looks_loadChild target "" root).bind fun c => looks_descend target rest c

theorem looks_get (id : String) : (get id).Looks LockName.IsContainer := by
  apply Looks.withLock trivial
  exact (looks_load id).bind fun loaded => looks_pure _

theorem looks_contains (id : String) : (contains id).Looks locks :=
  looks_checkContext.bind fun _ => looks_isStored id

/-! ### Questions to the index -/

/-- What is thrown for a failed question to the index. An error of the store itself is passed on, which takes a
request to the store that fails. -/
theorem looks_indexReadError (container : String) (error : IndexError) :
    Program.Looks locks (indexReadError container error).run fun out => ∃ e, out = .ok e ∧ ¬ e.IsWriteFault := by
  simp only [indexReadError]
  cases error with
  | partitionNotFound missing =>
    refine ⟨trivial, fun answer => ?_⟩
    rcases answer with e | _ | _
    · change Program.Looks locks (.done _) _
      intro given
      rcases given with ⟨a, impossible⟩
      cases impossible
    · exact fun _ => ⟨_, rfl, not_false⟩
    · exact fun _ => ⟨_, rfl, not_false⟩
  | partitionExists | duplicateEntry | database | corrupt | backend => exact ⟨_, rfl, not_false⟩

theorem looks_askIndex {α : Type} {container : String} {request : Action (Except IndexError α)}
    (looks : request.Looks locks) : (askIndex container request).Looks locks := by
  simp only [askIndex]
  apply looks.bind
  intro answer
  cases answer with
  | ok a => exact looks_pure a
  | error e =>
    apply Program.Looks.bind (looks_indexReadError container e)
    · intro given
      rcases given with e | e
      · exact trivial
      · exact trivial
    · intro _ given
      rcases given with ⟨e, rfl, harmless⟩
      exact looks_throw harmless

theorem looks_countMembers (container : String) (type : Option MemberType) :
    (countMembers container type).Looks LockName.IsContainer :=
  (looks_askIndex (looks_tryIndex (.count container type) trivial)).withLock trivial

theorem looks_listMembers (container : String) (options : ListOptions) :
    (listMembers limits container options).Looks LockName.IsContainer := by
  apply Looks.withLock trivial
  apply (looks_askIndex (looks_tryIndex (.count ..) trivial)).bind
  intro total
  by_cases nothing : limits.pageLimit options.limit = 0 ∨ total ≤ options.offset
  · simp only [if_pos nothing]
    exact (looks_pure _).bind fun entries => looks_pure _
  · simp only [if_neg nothing]
    exact (looks_askIndex (looks_tryIndex (.select ..) trivial)).bind fun entries => looks_pure _

theorem looks_fetch (cursor : Cursor) : (fetch cursor).Looks locks := by
  simp only [fetch]
  split
  · exact looks_tryIndex (.select ..) trivial
  · exact looks_tryIndex (.select ..) trivial
  · exact looks_tryIndex (.selectAfter ..) trivial
  · exact looks_pure _

theorem looks_fetchHeld (cursor : Cursor) : (fetchHeld cursor).Looks locks := by
  simp only [fetchHeld]
  apply (looks_fetch cursor).bind
  intro answer
  rcases answer with e | rows
  · cases e <;> exact looks_throw not_false
  · exact looks_pure rows

theorem looks_nextBatch (cursor : Cursor) : (nextBatch cursor).Looks LockName.IsContainer := by
  simp only [nextBatch]
  by_cases exhausted : cursor.isExhausted = true
  · rw [if_pos exhausted]
    exact looks_pure _
  rw [if_neg exhausted]
  by_cases nothing : cursor.take = 0
  · rw [if_pos nothing]
    exact looks_pure _
  rw [if_neg nothing]
  exact (Looks.withLock trivial (looks_fetchHeld cursor)).bind fun rows => looks_pure _

theorem looks_drainWithin (batches : Nat) (cursor : Cursor) :
    (drainWithin batches cursor).Looks LockName.IsContainer := by
  induction batches generalizing cursor with
  | zero => exact looks_pure []
  | succ batches ih =>
    simp only [drainWithin]
    apply (looks_nextBatch cursor).bind
    intro next
    obtain ⟨batch, cursor⟩ := next
    by_cases empty : batch.isEmpty = true
    · simp only [if_pos empty]
      exact looks_pure []
    · simp only [if_neg empty]
      exact (ih cursor).bind fun rest => looks_pure _

theorem looks_drain (cursor : Cursor) : (drain cursor).Looks LockName.IsContainer :=
  looks_drainWithin drainBatches cursor

/-! ### Comparing index and store -/

theorem looks_verifyHeld (id : String) : (verifyHeld id).Looks locks := by
  simp only [verifyHeld]
  apply (looks_read? id).bind
  intro found
  cases found with
  | none => exact looks_pure none
  | some record =>
    apply (looks_index (.hasPartition id) trivial).bind
    intro present
    by_cases missing : (!present) = true
    · simp only [if_pos missing]
      exact looks_pure _
    · simp only [if_neg missing]
      exact (looks_index (.select id {}) trivial).bind fun rows => looks_pure _

theorem looks_verifyEach (ids : List String) (report : ConsistencyReport) :
    (verifyEach ids report).Looks LockName.IsContainer := by
  induction ids generalizing report with
  | nil => exact looks_pure report
  | cons id rest ih =>
    simp only [verifyEach]
    apply (Looks.withLock trivial (looks_verifyHeld id)).bind
    intro compared
    cases compared with
    | none => exact ih report
    | some compared => exact ih _

theorem looks_findOrphans (partitions : List String) : (findOrphans partitions).Looks locks := by
  induction partitions with
  | nil => exact looks_pure []
  | cons partition rest ih =>
    simp only [findOrphans]
    exact (looks_isStored partition).bind fun stored => ih.bind fun others => looks_pure _

theorem looks_verify : verify.Looks LockName.IsContainer := by
  apply (looks_store .ids trivial).bind
  intro ids
  apply (looks_verifyEach ids {}).bind
  intro report
  apply (looks_index .partitions trivial).bind
  intro partitions
  exact (looks_findOrphans _).bind fun orphans => looks_pure _

end Repository

/-- The calls that only read. -/
def Call.IsQuestion : Call → Prop
  | .get _ | .contains _ | .listMembers _ _ | .countMembers _ _ | .drain _ _ _ | .nextBatch _ | .children _
  | .parent _ | .path _ | .find _ | .verify => True
  | _ => False

/-- Calls that only read make no other requests than questions. Those that go by the shape of the hierarchy share
its lock and take no other; all others take locks of containers only. -/
theorem Call.looks {settings : Settings} {call : Call} (question : call.IsQuestion) :
    (call.action settings).Looks LockName.IsContainer ∨ ∃ body : Action Reply,
      call.action settings = Action.withLock .hierarchy .shared body ∧ body.Looks fun _ => False := by
  cases call with
  | get id => exact .inl ((Repository.looks_get id).map _)
  | contains id => exact .inl ((Repository.looks_contains id).map _)
  | listMembers container options => exact .inl ((Repository.looks_listMembers container options).map _)
  | countMembers container type => exact .inl ((Repository.looks_countMembers container type).map _)
  | drain container options batchSize => exact .inl ((Repository.looks_drain _).map _)
  | nextBatch cursor => exact .inl ((Repository.looks_nextBatch cursor).map _)
  | children id => exact .inl ((Repository.looks_children id).map _)
  | verify => exact .inl (Repository.looks_verify.map _)
  | parent id => exact .inr ⟨_, Action.map_withLock _ _, (Repository.looks_parentHeld id).map _⟩
  | path id => exact .inr ⟨_, Action.map_withLock _ _, (Repository.looks_pathHeld id).map _⟩
  | find target => exact .inr ⟨_, Action.map_withLock _ _, (Repository.looks_findHeld target).map _⟩
  | create | delete | updateMetadata | addMember | addMembers | removeMember | move | rebuild | rebuildAll =>
    exact question.elim

end Containment
