/-
Module: Containment.Proofs.Concurrency.Calls
Purpose: Every call keeps its word among others: between two points at which it may wait it does nothing to the
  store, or it has its whole effect and ends. What a move has found out before it waits for its containers stays
  true, because it has the hierarchy alone.
Main exports: Call.Delivers, Call.Closes, Call.Achieves, Action.Idles, Call.guards_moveWithin, Call.guards
-/
import Containment.Proofs.Concurrency.Bare
import Containment.Proofs.Repository.Calls

namespace Containment

open Containment.Action Repository

/-- How a call ends that began its last stretch with the store `S`: with its whole effect on `S`, or with an error
that tells of no spoiled write and leaves all of `S` as it was. -/
def Call.Delivers (settings : Settings) (call : Call) (S : MemoryStore) (outcome : Outcome)
    (S' : MemoryStore) : Prop :=
  match outcome with
  | .ok reply => ∃ events, call.Effects settings S reply events S'
  | .error e => S' = S ∧ ¬ e.IsWriteFault

/-- What is so when a call ends: all is in order, the hierarchy is given back, and without having held it the call
has not changed its shape. -/
structure Call.Closes (settings : Settings) (call : Call) (outcome : Outcome) (m : Moment) : Prop where
  held : m.held = none
  orderly : m.now.Orderly settings.limits.maxDepth
  delivers : call.Delivers settings m.start outcome m.now.store
  shape : m.guarded = false → m.now.store.contents.shape = m.start.contents.shape

/-- What is so when a call that still holds the hierarchy has done its work. -/
structure Call.Achieves (settings : Settings) (call : Call) (outcome : Outcome) (m : Moment) : Prop where
  guarded : m.guarded = true
  orderly : m.now.Orderly settings.limits.maxDepth
  delivers : call.Delivers settings m.start outcome m.now.store

namespace Action

variable {α β : Type} {depth : Nat} {m : Moment} {x : Action α}

/-- The program does nothing to the store and may be interrupted at any time. -/
def Idles (depth : Nat) (x : Action α) : Prop :=
  ∀ m : Moment, m.Idle depth → x.Guards depth m (fun _ m' => m.Resumes depth m') fun e m' =>
    m.Resumes depth m' ∧ ¬ e.IsWriteFault

theorem Looks.idles (looks : x.Looks LockName.IsContainer) : x.Idles depth := by
  intro m idle
  apply looks.guards idle
  · exact fun _ _ resumes => resumes
  · exact fun _ _ resumes harmless => ⟨resumes, harmless⟩

theorem Idles.bind {f : α → Action β} (first : x.Idles depth) (second : ∀ a, (f a).Idles depth) :
    (x >>= f).Idles depth := by
  intro m idle
  apply Guards.bind
  apply (first m idle).mono
  · intro a m₁ resumes
    apply (second a m₁ resumes.idle).mono
    · exact fun _ _ resumes' => resumes.trans resumes'
    · exact fun _ _ ended => ⟨resumes.trans ended.1, ended.2⟩
  · exact fun _ _ ended => ended

theorem Idles.map (f : α → β) (idles : x.Idles depth) : (f <$> x).Idles depth := by
  rw [map_eq_pure_bind]
  exact idles.bind fun a => Looks.idles (looks_pure (f a))

theorem Idles.tryCatch {handler : RepositoryError → Action α} (first : x.Idles depth)
    (handled : ∀ e, ¬ e.IsWriteFault → (handler e).Idles depth) :
    (tryCatch x handler : Action α).Idles depth := by
  intro m idle
  apply Guards.tryCatch
  apply (first m idle).mono
  · exact fun _ _ resumes => resumes
  · intro e m₁ given
    rcases given with ⟨resumes, harmless⟩
    apply (handled e harmless m₁ resumes.idle).mono
    · exact fun _ _ resumes' => resumes.trans resumes'
    · exact fun _ _ ended => ⟨resumes.trans ended.1, ended.2⟩

/-- What touches the index alone may do so under the lock of a container. -/
theorem Bare.idles (bare : x.Bare) (tidies : ∀ h : Holdings, h.store.contents.Sane → x.Ensures h (Tidied h)) :
    x.Idles depth := by
  intro m idle
  have later : ∀ h : Holdings, m.now.IndexOnly h → h.Mirrored → m.Resumes depth { m with now := h } := by
    intro h only mirrored
    have orderly : h.Orderly depth := by
      refine ⟨?_, mirrored, ?_⟩
      · rw [only.store]
        exact idle.orderly.sane
      · rw [only.store]
        exact idle.orderly.forest
    refine ⟨⟨orderly, only.store.trans idle.untouched⟩, rfl, fun _ => ?_, id⟩
    rw [only.store]
  apply bare.guards_ensures (tidies m.now idle.orderly.sane)
  · intro a h given
    rcases given with ⟨only, mirrored, -⟩
    exact later h only (mirrored idle.orderly.mirrored)
  · intro e h given
    rcases given with ⟨only, mirrored, harmless⟩
    exact ⟨later h only (mirrored idle.orderly.mirrored), harmless rfl e rfl⟩

theorem Idles.writing {id : String} (idles : x.Idles depth) : (writing id x).Idles depth := by
  intro m idle
  apply guards_withLock idle (fun top => absurd top (LockName.container_ne id))
  · exact fun reason m' resumes => ⟨resumes, not_false⟩
  · intro h orderly allowed
    have later := Moment.resumes_resumed orderly allowed
    apply (idles _ later.idle).mono
    · exact fun _ _ resumes => later.trans resumes
    · exact fun _ _ ended => ⟨later.trans ended.1, ended.2⟩

/-- What a call does in one go, from its verdict when it is alone. -/
theorem Bare.guards_verdict {effect : α → List Event → MemoryStore → Prop} {ok : α → Moment → Prop}
    {error : RepositoryError → Moment → Prop} (bare : x.Bare) (orderly : m.now.Orderly depth)
    (ensures : x.Ensures m.now (Verdict m.now effect))
    (done : ∀ a events h, effect a events h.store → h.Mirrored → ok a { m with now := h })
    (refused : ∀ e h, h.store = m.now.store → h.Orderly depth → ¬ e.IsWriteFault → error e { m with now := h }) :
    x.Guards depth m ok error := by
  apply bare.guards_ensures ensures
  · intro a h given
    rcases given with ⟨events, whole, -, mirrors⟩
    exact done a events h whole (mirrors rfl orderly.mirrored)
  · intro e h kept
    obtain ⟨same, mirrored, harmless⟩ := kept.clean rfl orderly.mirrored
    refine refused e h same ⟨kept.sane, mirrored, ?_⟩ harmless
    rw [same]
    exact orderly.forest

end Action

namespace Repository

variable {depth : Nat}

/-! ### Writing the index anew -/

theorem idles_rebuildEach (ids : List String) (summary : RebuildSummary) :
    (rebuildEach ids summary).Idles depth := by
  induction ids generalizing summary with
  | nil => exact (looks_pure summary).idles
  | cons id rest ih =>
    simp only [rebuildEach]
    apply Idles.bind
    · apply Idles.tryCatch
      · exact ((bare_rebuildHeld id).idles fun h sane => ensures_rebuildHeld sane).writing.map some
      · intro e harmless
        cases e <;> first | exact (looks_pure none).idles | exact (looks_throw harmless).idles
    · intro rows
      cases rows with
      | none => exact ih summary
      | some rows => exact ih _

theorem idles_dropOrphans (partitions : List String) (summary : RebuildSummary) :
    (dropOrphans partitions summary).Idles depth := by
  induction partitions generalizing summary with
  | nil => exact (looks_pure summary).idles
  | cons partition rest ih =>
    simp only [dropOrphans]
    apply ((bare_dropOrphan partition).idles fun h _ => ensures_dropOrphan partition).writing.bind
    exact fun dropped => ih _

theorem idles_rebuildAll : rebuildAll.Idles depth := by
  simp only [rebuildAll]
  apply (looks_store .ids trivial).idles.bind
  intro ids
  apply (idles_rebuildEach ids {}).bind
  intro summary
  apply (looks_index .partitions trivial).idles.bind
  exact fun partitions => idles_dropOrphans _ summary

end Repository

namespace Call

variable {settings : Settings} {call : Call} {m : Moment} {α : Type} {x : Action α} {f : α → Reply}

theorem closes_error {e : RepositoryError} (idle : m.Idle settings.limits.maxDepth) (held : m.held = none)
    (harmless : ¬ e.IsWriteFault) : call.Closes settings (.error e) m := by
  refine ⟨held, idle.orderly, ⟨idle.untouched, harmless⟩, fun _ => ?_⟩
  rw [idle.untouched]

theorem achieves_error {e : RepositoryError} (idle : m.Idle settings.limits.maxDepth) (guarded : m.guarded = true)
    (harmless : ¬ e.IsWriteFault) : call.Achieves settings (.error e) m :=
  ⟨guarded, idle.orderly, idle.untouched, harmless⟩

/-- Giving the hierarchy back ends a call that has done its work. -/
theorem Achieves.closes {outcome : Outcome} (achieves : call.Achieves settings outcome m) :
    call.Closes settings outcome { m with held := none } := by
  refine ⟨rfl, achieves.orderly, achieves.delivers, fun unguarded => ?_⟩
  have guarded : m.guarded = true := achieves.guarded
  rw [show m.guarded = false from unguarded] at guarded
  cases guarded

/-- A call that does nothing to the store. -/
theorem guards_idles (idles : x.Idles settings.limits.maxDepth) (idle : m.Idle settings.limits.maxDepth)
    (free : m.held = none) (effect : ∀ a S, call.Effects settings S (f a) [] S) :
    x.Guards settings.limits.maxDepth m (fun a => call.Closes settings (.ok (f a)))
      fun e => call.Closes settings (.error e) := by
  apply (idles m idle).mono
  · intro a m' resumes
    refine ⟨resumes.held.trans free, resumes.idle.orderly, ⟨[], ?_⟩, fun _ => ?_⟩
    · rw [resumes.idle.untouched]
      exact effect a m'.start
    · rw [resumes.idle.untouched]
  · intro e m' given
    rcases given with ⟨resumes, harmless⟩
    exact closes_error resumes.idle (resumes.held.trans free) harmless

/-- A call that changes one container without moving it. -/
theorem guards_writing {id : String} (effect : MemoryStore → α → List Event → MemoryStore → Prop)
    (idle : m.Idle settings.limits.maxDepth) (free : m.held = none) (bare : x.Bare)
    (ensures : ∀ h : Holdings, h.store.contents.Sane → x.Ensures h (Verdict h (effect h.store)))
    (keeps : ∀ S a events S', S.contents.Sane → S.contents.Forest settings.limits.maxDepth → effect S a events S' →
      call.Effects settings S (f a) events S' ∧ S'.contents.Forest settings.limits.maxDepth ∧
        S'.contents.shape = S.contents.shape) :
    (writing id x).Guards settings.limits.maxDepth m (fun a => call.Closes settings (.ok (f a)))
      fun e => call.Closes settings (.error e) := by
  apply guards_withLock idle (fun top => absurd top (LockName.container_ne id))
  · exact fun reason m' resumes => closes_error resumes.idle (resumes.held.trans free) not_false
  intro h orderly _
  apply bare.guards_verdict orderly (ensures h orderly.sane)
  · intro a events h' whole mirrored
    obtain ⟨effects, forest, shape⟩ := keeps _ a events _ orderly.sane orderly.forest whole
    exact ⟨free, ⟨effects.sane orderly.sane, mirrored, forest⟩, ⟨events, effects⟩, fun _ => shape⟩
  · intro e h' same orderly' harmless
    exact ⟨free, orderly', ⟨same, harmless⟩, fun _ => congrArg (fun S => S.contents.shape) same⟩

/-- A call that holds the hierarchy. -/
theorem guards_hierarchy {mode : Mode} (idle : m.Idle settings.limits.maxDepth) (free : m.held = none)
    (held : ∀ h : Holdings, h.Orderly settings.limits.maxDepth →
      x.Guards settings.limits.maxDepth (.resumed (some mode) h) (fun a => call.Achieves settings (.ok (f a)))
        fun e => call.Achieves settings (.error e)) :
    (withLock .hierarchy mode x).Guards settings.limits.maxDepth m (fun a => call.Closes settings (.ok (f a)))
      fun e => call.Closes settings (.error e) := by
  apply guards_withLock idle (fun _ => free)
  · exact fun reason m' resumes => closes_error resumes.idle (resumes.held.trans free) not_false
  intro h orderly _
  apply (held h orderly).mono
  · exact fun _ _ achieves => achieves.closes
  · exact fun _ _ achieves => achieves.closes

/-! ### Making, deleting and moving containers -/

theorem guards_createHeld {draft : Draft} {c : Container} (positive : 1 ≤ settings.limits.maxDepth)
    (idle : m.Idle settings.limits.maxDepth) (guarded : m.guarded = true) (describes : draft.Describes c)
    (valid : c.toSnapshot.Valid) (empty : c.members = []) :
    (createHeld settings.limits c).Guards settings.limits.maxDepth m
      (fun a => (Call.create draft).Achieves settings (.ok (.container a)))
      fun e => (Call.create draft).Achieves settings (.error e) := by
  have sane := idle.orderly.sane
  apply (bare_createHeld c).guards_verdict idle.orderly (ensures_createHeld sane valid empty)
  · intro answer events h given mirrored
    rcases given with ⟨rfl, created, room⟩
    rw [idle.untouched] at sane created room
    refine ⟨guarded, ⟨created.sane sane, mirrored, ?_⟩, events, c, describes, rfl, created⟩
    exact created.forest sane (idle.untouched ▸ idle.orderly.forest) positive room
  · intro e h same orderly harmless
    exact ⟨guarded, orderly, same.trans idle.untouched, harmless⟩

theorem guards_deleteWithin {id : String} (attempts : Nat) (idle : m.Idle settings.limits.maxDepth)
    (held : m.held.isSome) (guarded : m.guarded = true) :
    (deleteWithin id attempts).Guards settings.limits.maxDepth m
      (fun _ => (Call.delete id).Achieves settings (.ok .done))
      fun e => (Call.delete id).Achieves settings (.error e) := by
  induction attempts generalizing m with
  | zero => exact guards_throw (achieves_error idle guarded not_false)
  | succ attempts ih =>
    simp only [deleteWithin]
    apply Guards.bind
    apply (bare_load id).guards_reads reads_load
    · intro answer given
      rcases answer with ⟨record, c⟩
      rcases given with ⟨found, -⟩
      apply Guards.bind
      apply guards_withContainers idle
      · intro reason m' resumes
        exact achieves_error resumes.idle ((resumes.guarded (guarded.trans held.symm)).trans held) not_false
      intro m' resumes
      have guarded' : m'.guarded = true := (resumes.guarded (guarded.trans held.symm)).trans held
      have sane := resumes.idle.orderly.sane
      apply (bare_deleteHeld id record.parentId).guards_ensures (ensures_deleteHeld sane)
      · intro done h given
        rcases given with ⟨same, -, rfl, -⟩ | ⟨events, ⟨rfl, deleted⟩, -, mirrors⟩
        · -- The container has another parent by now, and nothing has been done yet.
          cases same
          exact ih resumes.idle (by rw [resumes.held]; exact held) guarded'
        · have mirrored := mirrors rfl resumes.idle.orderly.mirrored
          rw [resumes.idle.untouched] at sane deleted
          have forest := deleted.forest sane (resumes.idle.untouched ▸ resumes.idle.orderly.forest)
          exact guards_pure ⟨guarded', ⟨deleted.sane sane, mirrored, forest⟩, events, rfl, deleted⟩
      · intro e h given
        rcases given with ⟨impossible, -⟩ | kept
        · cases impossible
        · obtain ⟨same, mirrored, harmless⟩ := kept.clean rfl resumes.idle.orderly.mirrored
          refine ⟨guarded', ⟨kept.sane, mirrored, ?_⟩, same.trans resumes.idle.untouched, harmless⟩
          rw [same]
          exact resumes.idle.orderly.forest
    · exact fun e harmless => achieves_error idle guarded harmless

theorem guards_moveHeld {id target source : String} (idle : m.Idle settings.limits.maxDepth)
    (guarded : m.guarded = true) (apart : target ≠ id) (known : m.now.store.contents.shape id = some source)
    (admits : m.now.store.contents.shape.Admits settings.limits.maxDepth id target) :
    (moveHeld id source target).Guards settings.limits.maxDepth m
      (fun a => (Call.move id target).Achieves settings (.ok (.container a)))
      fun e => (Call.move id target).Achieves settings (.error e) := by
  have sane := idle.orderly.sane
  have parent : ∀ r, m.now.store.records[id]? = some r → r.parentId = source := by
    intro r found
    rw [MemoryStore.shape_eq_some found] at known
    exact Option.some.inj known
  apply (bare_moveHeld id source target).guards_verdict idle.orderly (ensures_moveHeld sane apart parent)
  · intro answer events h moved mirrored
    rw [idle.untouched] at sane moved admits
    have forest := moved.forest sane (idle.untouched ▸ idle.orderly.forest) admits
    exact ⟨guarded, ⟨moved.sane sane, mirrored, forest⟩, events, answer, rfl, moved⟩
  · intro e h same orderly harmless
    exact ⟨guarded, orderly, same.trans idle.untouched, harmless⟩

/-- A move looks at the shape of the hierarchy before it waits for its containers. Nobody else changes that shape
while it waits, so what it has found out is still true when it writes. -/
theorem guards_moveWithin {id target : String} (idle : m.Idle settings.limits.maxDepth)
    (alone : m.held = some .exclusive) (guarded : m.guarded = true) :
    (moveWithin settings.limits id target).Guards settings.limits.maxDepth m
      (fun a => (Call.move id target).Achieves settings (.ok (.container a)))
      fun e => (Call.move id target).Achieves settings (.error e) := by
  have sane := idle.orderly.sane
  have known : m.guarded = m.held.isSome := by
    rw [guarded, alone]
    rfl
  simp only [moveWithin]
  apply Guards.bind
  apply (bare_load id).guards_reads reads_load
  · intro answer given
    rcases answer with ⟨record, c⟩
    rcases given with ⟨found, -⟩
    have stored := MemoryStore.contents_eq_some found
    apply Guards.bind
    apply (bare_checkMove id target).guards_reads (reads_checkMove sane (Option.isSome_of_mem stored))
    · intro _ given
      rcases given with ⟨apart, admits⟩
      have still : ∀ m', m.Resumes settings.limits.maxDepth m' → m'.guarded = true := by
        intro m' resumes
        rw [resumes.guarded known, alone]
        rfl
      apply guards_withContainers idle
      · exact fun reason m' resumes => achieves_error resumes.idle (still m' resumes) not_false
      intro m' resumes
      have shape := resumes.allowed alone
      apply guards_moveHeld resumes.idle (still m' resumes) apart
      · rw [shape]
        exact Contents.shape_of_eq stored
      · rw [shape]
        exact admits _ idle.orderly.forest
    · exact fun e harmless => achieves_error idle guarded harmless
  · exact fun e harmless => achieves_error idle guarded harmless

/-! ### All calls -/

theorem guards_create {draft : Draft} (positive : 1 ≤ settings.limits.maxDepth)
    (ordinary : (Call.create draft).IsOrdinary) (idle : m.Idle settings.limits.maxDepth) (free : m.held = none) :
    ((Call.create draft).action settings).Guards settings.limits.maxDepth m
      (fun reply => (Call.create draft).Closes settings (.ok reply))
      fun e => (Call.create draft).Closes settings (.error e) := by
  apply Guards.bind
  apply (bare_draw draft).guards_reads (reads_draw draft)
  · intro c describes
    apply Guards.map
    apply Guards.bind
    apply (bare_ofContainer _).guards_reads reads_ofContainer
    · intro _ accepted
      apply guards_hierarchy idle free
      intro h orderly
      have held : (Moment.resumed (some .shared) h).Idle settings.limits.maxDepth := ⟨orderly, rfl⟩
      apply guards_withContainers held
      · exact fun reason m' resumes => achieves_error resumes.idle (resumes.guarded rfl) not_false
      intro m' resumes
      apply guards_createHeld positive resumes.idle (resumes.guarded rfl) describes
      · exact Container.validate_eq_ok_iff.1 accepted
      · exact describes.memberless ordinary
    · exact fun e harmless => closes_error idle free harmless
  · exact fun e harmless => closes_error idle free harmless

theorem guards_question (question : call.IsQuestion) (idle : m.Idle settings.limits.maxDepth)
    (free : m.held = none) :
    (call.action settings).Guards settings.limits.maxDepth m (fun reply => call.Closes settings (.ok reply))
      fun e => call.Closes settings (.error e) := by
  have nothing : ∀ reply S, call.Effects settings S reply [] S := by
    intro reply S
    cases call <;> first | exact ⟨rfl, rfl⟩ | exact question.elim
  rcases Call.looks question with looks | ⟨body, same, looks⟩
  · exact guards_idles (f := fun reply => reply) looks.idles idle free nothing
  · rw [same]
    apply guards_hierarchy (f := fun reply => reply) idle free
    intro h orderly
    have held : (Moment.resumed (some .shared) h).Idle settings.limits.maxDepth := ⟨orderly, rfl⟩
    apply (Looks.guards (looks.widen fun _ impossible => impossible.elim) held)
    · intro reply m' resumes
      refine ⟨resumes.guarded rfl, resumes.idle.orderly, [], ?_⟩
      rw [resumes.idle.untouched]
      exact nothing reply m'.start
    · exact fun e m' resumes harmless => achieves_error resumes.idle (resumes.guarded rfl) harmless

/-- Every ordinary call keeps its word. -/
theorem guards (positive : 1 ≤ settings.limits.maxDepth) (ordinary : call.IsOrdinary) {h : Holdings}
    (orderly : h.Orderly settings.limits.maxDepth) :
    (call.action settings).Guards settings.limits.maxDepth (.resumed none h)
      (fun reply => call.Closes settings (.ok reply)) fun e => call.Closes settings (.error e) := by
  have idle : (Moment.resumed none h).Idle settings.limits.maxDepth := ⟨orderly, rfl⟩
  by_cases question : call.IsQuestion
  · exact guards_question question idle rfl
  cases call with
  | create draft => exact guards_create positive ordinary idle rfl
  | delete id =>
    apply Guards.bind
    apply guards_hierarchy (f := fun _ => Reply.done) idle rfl
    intro h orderly
    exact guards_deleteWithin deleteAttempts ⟨orderly, rfl⟩ rfl rfl
  | updateMetadata id update =>
    apply Guards.map
    apply guards_writing (fun S => Amended S id update) idle rfl (bare_updateMetadataHeld id update)
    · exact fun h sane => ensures_updateMetadataHeld sane
    intro S answer events S' sane forest amended
    exact ⟨⟨answer, rfl, amended⟩, amended.forest sane forest, amended.shape sane⟩
  | addMember container member =>
    apply Guards.map
    apply Guards.bind
    apply (bare_classify _ container member).guards_reads reads_classify
    · intro type kind
      apply guards_writing (fun S => Grown settings.classifier S container member) idle rfl
        (bare_addMemberHeld container member type)
      · exact fun h sane => ensures_addMemberHeld sane kind
      intro S added events S' sane forest grown
      exact ⟨⟨added, rfl, grown⟩, grown.forest sane forest, grown.shape sane⟩
    · exact fun e harmless => closes_error idle rfl harmless
  | removeMember container member =>
    apply Guards.map
    apply guards_writing (fun S => Shrunk S container member) idle rfl (bare_removeMemberHeld container member)
    · exact fun h sane => ensures_removeMemberHeld sane
    intro S removed events S' sane forest shrunk
    exact ⟨⟨removed, rfl, shrunk⟩, shrunk.forest sane forest, shrunk.shape sane⟩
  | move id target =>
    apply Guards.map
    apply guards_hierarchy idle rfl
    intro h orderly
    exact guards_moveWithin ⟨orderly, rfl⟩ rfl rfl
  | rebuild id =>
    apply Guards.map
    apply guards_idles ((bare_rebuildHeld id).idles fun h sane => ensures_rebuildHeld sane).writing idle rfl
    exact fun rows S => ⟨rfl, rfl⟩
  | rebuildAll =>
    apply Guards.map
    apply guards_idles idles_rebuildAll idle rfl
    exact fun summary S => ⟨rfl, rfl⟩
  | addMembers container members => exact ordinary.elim
  | get | contains | listMembers | countMembers | drain | nextBatch | children | parent | path | find | verify =>
    exact absurd trivial question

end Call

end Containment
