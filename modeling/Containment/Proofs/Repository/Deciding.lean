/-
Module: Containment.Proofs.Repository.Deciding
Purpose: Where calls that write look at their contexts. Up to its last look such a call makes no other requests than
  questions; if a look tells it to give up, it asks at most more questions, and if not, it can no longer be stopped
  once it has begun to write.
Main exports: Program.Decides, Action.Decides, Program.Decides.runs, Call.WritesOnce, Call.decides
-/
import Containment.Proofs.Looking
import Containment.Proofs.Repository.Finishing

namespace Containment

open Containment.Action

/-- The program asks questions only until it decides to write, after which it finishes without another look at its
context. It does not decide before a look has told it to go on (`clear`), and a look that tells it to stop is its last.
Its value is `idle` if it has not written, `written` if it has, and what `stopped` says of the reason if it gave up. -/
def Program.Decides {α : Type} (allowed : Effect → Prop) :
    Program α → Bool → (idle written : α → Prop) → (stopped : Cancellation → α → Prop) → Prop
  | .done a, _, idle, _, _ => idle a
  | .effect request next, clear, idle, written, stopped =>
      (request.IsQuestion ∧ ∀ answer, (next answer).Decides allowed clear idle written stopped) ∨
        clear = true ∧ (Program.effect request next).Finishes allowed written
  | .check next, _, idle, written, stopped | .acquire _ _ next, _, idle, written, stopped =>
      (next none).Decides allowed true idle written stopped ∧
        ∀ reason, (next (some reason)).Finishes Effect.IsQuestion (stopped reason)
  | .release _ next, clear, idle, written, stopped => (next ()).Decides allowed clear idle written stopped

namespace Program

variable {α β : Type} {allowed : Effect → Prop} {clear : Bool} {idle written : α → Prop}
  {stopped : Cancellation → α → Prop}

theorem Finishes.widen {wider : Effect → Prop} {p : Program α} {good : α → Prop} (finishes : p.Finishes allowed good)
    (imp : ∀ request, allowed request → wider request) : p.Finishes wider good := by
  induction p with
  | done a => exact finishes
  | effect request next ih => exact ⟨imp request finishes.1, fun answer => ih answer (finishes.2 answer)⟩
  | check next => exact finishes.elim
  | acquire lock mode next => exact finishes.elim
  | release lock next ih => exact ih () finishes

theorem Decides.widen {wider : Effect → Prop} {p : Program α} (decides : p.Decides allowed clear idle written stopped)
    (imp : ∀ request, allowed request → wider request) : p.Decides wider clear idle written stopped := by
  induction p generalizing clear with
  | done a => exact decides
  | effect request next ih =>
    rcases decides with ⟨question, rest⟩ | ⟨go, finishes⟩
    · exact .inl ⟨question, fun answer => ih answer (rest answer)⟩
    · exact .inr ⟨go, finishes.widen imp⟩
  | check next ih => exact ⟨ih none decides.1, decides.2⟩
  | acquire lock mode next ih => exact ⟨ih none decides.1, decides.2⟩
  | release lock next ih => exact ih () decides

/-- A program that may decide without another look may also decide after one. -/
theorem Decides.cleared {p : Program α} (decides : p.Decides allowed clear idle written stopped) :
    p.Decides allowed true idle written stopped := by
  induction p with
  | done a => exact decides
  | effect request next ih =>
    rcases decides with ⟨question, rest⟩ | ⟨-, finishes⟩
    · exact .inl ⟨question, fun answer => ih answer (rest answer)⟩
    · exact .inr ⟨rfl, finishes⟩
  | check next => exact decides
  | acquire lock mode next => exact decides
  | release lock next ih => exact ih () decides

/-- Questions alone decide nothing. -/
theorem Finishes.ponders {p : Program α} {good : α → Prop} (finishes : p.Finishes Effect.IsQuestion good)
    (imp : ∀ a, good a → idle a) : p.Decides allowed clear idle written stopped := by
  induction p with
  | done a => exact imp a finishes
  | effect request next ih => exact .inl ⟨finishes.1, fun answer => ih answer (finishes.2 answer)⟩
  | check next => exact finishes.elim
  | acquire lock mode next => exact finishes.elim
  | release lock next ih => exact ih () finishes

/-- Once the way is clear, the program may write and finish. -/
theorem Finishes.decides {p : Program α} {good : α → Prop} (finishes : p.Finishes allowed good)
    (unwritten : ∀ a, good a → idle a) (imp : ∀ a, good a → written a) :
    p.Decides allowed true idle written stopped := by
  induction p with
  | done a => exact unwritten a finishes
  | effect request next => exact .inr ⟨rfl, finishes.mono imp⟩
  | check next => exact finishes.elim
  | acquire lock mode next => exact finishes.elim
  | release lock next ih => exact ih () finishes

theorem Decides.bind {p : Program α} {f : α → Program β} {idle' written' : β → Prop}
    {stopped' : Cancellation → β → Prop}
    (first : p.Decides allowed clear idle written stopped)
    (goesOn : ∀ a, idle a → (f a).Decides allowed clear idle' written' stopped')
    (finishes : ∀ a, written a → (f a).Finishes allowed written')
    (givesUp : ∀ reason a, stopped reason a → (f a).Finishes Effect.IsQuestion (stopped' reason)) :
    (p.bind f).Decides allowed clear idle' written' stopped' := by
  induction p generalizing clear with
  | done a => exact goesOn a first
  | effect request next ih =>
    rcases first with ⟨question, rest⟩ | ⟨go, rest⟩
    · exact .inl ⟨question, fun answer => ih answer (rest answer) goesOn⟩
    · exact .inr ⟨go, rest.bind finishes⟩
  | check next ih =>
    exact ⟨ih none first.1 fun a good => (goesOn a good).cleared, fun reason => (first.2 reason).bind (givesUp reason)⟩
  | acquire lock mode next ih =>
    exact ⟨ih none first.1 fun a good => (goesOn a good).cleared, fun reason => (first.2 reason).bind (givesUp reason)⟩
  | release lock next ih => exact ih () first goesOn

/-- What questions and the allowed requests keep, the program keeps. -/
theorem Decides.runs {p : Program α} {keeps : Holdings → Holdings → Prop} (refl : ∀ h, keeps h h)
    (trans : ∀ h₁ h₂ h₃, keeps h₁ h₂ → keeps h₂ h₃ → keeps h₁ h₃)
    (step : ∀ (request : Effect) (fails : List FaultPoint) (answer : request.Answer) (h h' : Holdings),
      allowed request → h.Answers request fails answer h' → keeps h h')
    {h h' : Holdings} {fails : List FaultPoint} {value : α}
    (decides : p.Decides allowed clear idle written stopped) (run : p.Runs h fails value h') : keeps h h' := by
  have asked : ∀ {request : Effect} {fails : List FaultPoint} {answer : request.Answer} {h h' : Holdings},
      request.IsQuestion → h.Answers request fails answer h' → keeps h h' := by
    intro request fails answer h h' question answers
    rw [(Effect.answers_question question answers).1]
    exact refl h
  have looked : ∀ {next : Option Cancellation → Program α} {good : α → Prop} {reason : Cancellation}
      {h h' : Holdings} {fails : List FaultPoint} {value : α},
      (next (some reason)).Finishes Effect.IsQuestion good → (next (some reason)).Runs h fails value h' →
        keeps h h' :=
    fun finishes run => finishes.runs refl trans (fun _ _ _ _ _ question => asked question) run
  induction p generalizing clear h fails with
  | done a =>
    obtain ⟨-, -, rfl⟩ := run
    exact refl h'
  | effect request next ih =>
    rcases decides with ⟨question, rest⟩ | ⟨-, finishes⟩
    · obtain ⟨now, later, answer, h₁, answers, run, -⟩ := run
      exact trans _ _ _ (asked question answers) (ih answer (rest answer) run)
    · exact finishes.runs refl trans step run
  | check next ih =>
    obtain ⟨_ | reason, run⟩ := run
    · exact ih none decides.1 run
    · exact looked (decides.2 reason) run
  | acquire lock mode next ih =>
    obtain ⟨_ | reason, run⟩ := run
    · exact ih none decides.1 run
    · exact looked (decides.2 reason) run
  | release lock next ih => exact ih () decides run

end Program

namespace Action

variable {α β : Type} {allowed : Effect → Prop} {clear : Bool} {x : Action α} {f : α → Action β}

/-- The end of a call that has been stopped for this reason. -/
def Canceled (reason : Cancellation) (out : Except RepositoryError α) : Prop :=
  out = .error (.canceled reason)

/-- A program that may fail decides once, and says that it was stopped only if it was stopped by then, for the reason
that it was told. -/
def Decides (allowed : Effect → Prop) (x : Action α) (clear : Bool) : Prop :=
  Program.Decides allowed x.run clear Uncanceled Uncanceled Canceled

theorem Finishes.decides (finishes : x.Finishes allowed) : x.Decides allowed true :=
  Program.Finishes.decides finishes (fun _ => id) fun _ => id

theorem decides_throw {e : RepositoryError} (other : ∀ reason, e ≠ .canceled reason) :
    (throw e : Action α).Decides allowed clear :=
  fun reason same => other reason (Except.error.inj same)

theorem decides_pure (a : α) : (pure a : Action α).Decides allowed clear :=
  fun _ impossible => by cases impossible

theorem finishes_throw_canceled (reason : Cancellation) :
    Program.Finishes Effect.IsQuestion (throw (.canceled reason) : Action α).run (Canceled reason) :=
  rfl

/-- An error that has come up ends the rest, too. -/
theorem Decides.bind_ends {idle' written' : Except RepositoryError β → Prop}
    {stopped' : Cancellation → Except RepositoryError β → Prop} {idle written : Except RepositoryError α → Prop}
    (first : Program.Decides allowed x.run clear idle written Canceled)
    (goesOn : ∀ a, idle (.ok a) → Program.Decides allowed (f a).run clear idle' written' stopped')
    (finishes : ∀ a, written (.ok a) → Program.Finishes allowed (f a).run written')
    (fails : ∀ e, idle (.error e) → idle' (.error e)) (fails' : ∀ e, written (.error e) → written' (.error e))
    (canceled : ∀ reason, stopped' reason (.error (.canceled reason))) :
    Program.Decides allowed (x >>= f).run clear idle' written' stopped' := by
  apply Program.Decides.bind first
  · intro out good
    cases out with
    | ok a => exact goesOn a good
    | error e => exact fails e good
  · intro out good
    cases out with
    | ok a => exact finishes a good
    | error e => exact fails' e good
  · rintro reason _ rfl
    exact canceled reason

theorem Uncanceled.error {e : RepositoryError} (uncanceled : Uncanceled (.error e : Except RepositoryError α)) :
    Uncanceled (.error e : Except RepositoryError β) :=
  fun reason same => uncanceled reason (congrArg Except.error (Except.error.inj same))

/-- Pondering, and then deciding. -/
theorem Finishes.decides_bind_ends {idle written : Except RepositoryError β → Prop}
    (ponders : x.Finishes Effect.IsQuestion)
    (second : ∀ a, Program.Decides allowed (f a).run clear idle written Canceled)
    (fails : ∀ e, Uncanceled (.error e : Except RepositoryError β) → idle (.error e)) :
    Program.Decides allowed (x >>= f).run clear idle written Canceled := by
  have first : Program.Decides allowed x.run clear Uncanceled (fun _ => False) Canceled :=
    Program.Finishes.ponders ponders fun _ => id
  apply Decides.bind_ends first (fun a _ => second a)
  · exact fun _ impossible => impossible.elim
  · exact fun e uncanceled => fails e uncanceled.error
  · exact fun _ impossible => impossible.elim
  · exact fun _ => rfl

theorem Finishes.decides_bind (ponders : x.Finishes Effect.IsQuestion) (second : ∀ a, (f a).Decides allowed clear) :
    (x >>= f).Decides allowed clear :=
  ponders.decides_bind_ends second fun _ uncanceled => uncanceled

/-- Looking at the context, and then deciding. -/
theorem decides_checkContext_bind {f : Unit → Action β} (next : (f ()).Decides allowed true) :
    (checkContext >>= f).Decides allowed clear :=
  ⟨next, fun reason => finishes_throw_canceled reason⟩

theorem Decides.map (f : α → β) (decides : x.Decides allowed clear) : (f <$> x).Decides allowed clear := by
  rw [map_eq_pure_bind]
  apply Decides.bind_ends decides
  · exact fun a _ => decides_pure (f a)
  · exact fun a _ => finishes_pure (f a)
  · exact fun _ uncanceled => uncanceled.error
  · exact fun _ uncanceled => uncanceled.error
  · exact fun _ => rfl

/-! ### Locks -/

variable {idle written : Except RepositoryError α → Prop}

theorem Decides.withLock_ends (lock : LockName) (mode : Mode)
    (body : Program.Decides allowed x.run true idle written Canceled) :
    Program.Decides allowed (withLock lock mode x).run clear idle written Canceled := by
  refine ⟨?_, fun reason => finishes_throw_canceled reason⟩
  exact Program.Decides.bind body (fun _ good => good) (fun _ good => good) fun _ _ good => good

theorem finishes_releaseAll {asks : Effect → Prop} (locks : List LockName) :
    (releaseAll locks).Finishes asks fun _ => True := by
  induction locks with
  | nil => trivial
  | cons lock rest ih => exact ih

theorem decides_acquireAll (taken locks : List LockName) :
    (acquireAll taken locks).Decides allowed clear (· = none) (fun _ => False) fun reason out => out = some reason := by
  induction locks generalizing taken clear with
  | nil => exact rfl
  | cons lock rest ih =>
    refine ⟨ih _, fun reason => ?_⟩
    exact (finishes_releaseAll taken).bind fun _ _ => rfl

theorem Decides.withContainers_ends (ids : List String)
    (body : Program.Decides allowed x.run clear idle written Canceled) :
    Program.Decides allowed (withContainers ids x).run clear idle written Canceled := by
  have released : ∀ {asks : Effect → Prop} {good : Except RepositoryError α → Prop}
      (out : Except RepositoryError α), good out →
      ((releaseAll ((lockOrder ids).map .container)).bind fun _ => .done out).Finishes asks good :=
    fun out good => (finishes_releaseAll _).bind fun _ _ => good
  apply Program.Decides.bind (decides_acquireAll [] _)
  · intro status free
    subst free
    apply Program.Decides.bind body
    · exact fun out good => (released out good).ponders fun _ => id
    · exact fun out good => released out good
    · exact fun _ out good => released out good
  · exact fun _ impossible => impossible.elim
  · rintro reason _ rfl
    exact finishes_throw_canceled reason

theorem Decides.withLock (lock : LockName) (mode : Mode) (body : x.Decides allowed true) :
    (withLock lock mode x).Decides allowed clear :=
  Decides.withLock_ends lock mode body

theorem Decides.withContainers (ids : List String) (body : x.Decides allowed clear) :
    (withContainers ids x).Decides allowed clear :=
  Decides.withContainers_ends ids body

end Action

namespace Repository

/-! ### Looking around before the first write -/

variable {limits : Limits} {id : String}

theorem ponders_read? : (read? id).Finishes Effect.IsQuestion :=
  finishes_store trivial

theorem ponders_isStored : (isStored id).Finishes Effect.IsQuestion :=
  finishes_store trivial

theorem ponders_load : (load id).Finishes Effect.IsQuestion := by
  simp only [load]
  apply ponders_read?.bind
  intro found
  cases found with
  | none => exact finishes_throw nofun
  | some record => exact (finishes_hydrate record).bind fun c => finishes_pure _

theorem ponders_climb (start : String) (remaining : Nat) (chain : List String) (current : String) :
    (climb limits start remaining chain current).Finishes Effect.IsQuestion := by
  unfold climb
  apply ponders_load.bind
  intro loaded
  obtain ⟨record, c⟩ := loaded
  by_cases top : record.parentId.isEmpty
  · simp only [if_pos top]
    exact finishes_pure chain
  simp only [if_neg top]
  by_cases known : chain.contains record.parentId
  · simp only [if_pos known]
    exact finishes_throw nofun
  simp only [if_neg known]
  match remaining with
  | 0 => exact finishes_throw nofun
  | remaining + 1 => exact ponders_climb start remaining _ _

theorem ponders_ancestors : (ancestors limits id).Finishes Effect.IsQuestion :=
  ponders_climb id _ _ _

theorem ponders_readAll (ids : List String) : (readAll ids).Finishes Effect.IsQuestion := by
  induction ids with
  | nil => exact finishes_pure []
  | cons id rest ih =>
    simp only [readAll]
    exact ponders_read?.bind fun record => ih.bind fun records => finishes_pure _

theorem ponders_childRecords : (childRecords id).Finishes Effect.IsQuestion := by
  simp only [childRecords]
  apply ponders_load.bind
  intro loaded
  exact (ponders_readAll _).bind fun records => finishes_pure _

theorem ponders_nextLevel (level : List String) (seen : Std.ExtTreeSet String) :
    (nextLevel level seen).Finishes Effect.IsQuestion := by
  induction level generalizing seen with
  | nil => exact finishes_pure _
  | cons id rest ih =>
    simp only [nextLevel]
    apply ponders_childRecords.bind
    intro records
    exact (ih _).bind fun others => finishes_pure _

theorem ponders_levelsBelow (top : String) (remaining : Nat) (level : List String) (seen : Std.ExtTreeSet String) :
    (levelsBelow limits top remaining level seen).Finishes Effect.IsQuestion := by
  induction remaining generalizing level seen with
  | zero =>
    cases level with
    | nil => exact finishes_pure 0
    | cons id rest => exact finishes_throw nofun
  | succ remaining ih =>
    cases level with
    | nil => exact finishes_pure 0
    | cons id rest =>
      simp only [levelsBelow]
      apply (ponders_nextLevel _ _).bind
      intro next
      exact (ih _ _).bind fun levels => finishes_pure _

theorem ponders_checkMove (target : String) : (checkMove limits id target).Finishes Effect.IsQuestion := by
  simp only [checkMove]
  by_cases own : target = id
  · simp only [if_pos own]
    exact finishes_throw nofun
  simp only [if_neg own]
  by_cases top : (!target.isEmpty) = true
  · simp only [if_pos top]
    apply ponders_isStored.bind
    intro stored
    by_cases missing : (!stored) = true
    · simp only [if_pos missing]
      exact finishes_throw nofun
    simp only [if_neg missing]
    apply ponders_ancestors.bind
    intro chain
    by_cases cyclic : chain.contains id = true
    · simp only [if_pos cyclic]
      exact finishes_throw nofun
    simp only [if_neg cyclic]
    apply (ponders_levelsBelow _ _ _ _).bind
    intro height
    by_cases deep : limits.maxDepth < chain.length + height
    · simp only [if_pos deep]
      exact finishes_throw nofun
    · simp only [if_neg deep]
      exact finishes_pure ()
  · simp only [if_neg top]
    exact finishes_pure ()

theorem ponders_classify (classifier : Classifier) (member : String) :
    (classify classifier id member).Finishes Effect.IsQuestion := by
  simp only [classify]
  apply ponders_isStored.bind
  intro stored
  cases stored with
  | true => exact finishes_pure _
  | false => exact finishes_pure _

theorem ponders_refuseChild (member : String) : (refuseChild id member).Finishes Effect.IsQuestion := by
  simp only [refuseChild]
  apply ponders_read?.bind
  intro found
  cases found with
  | none => exact finishes_pure ()
  | some child =>
    by_cases own : child.parentId = id
    · simp only [if_pos own]
      exact finishes_throw nofun
    · simp only [if_neg own]
      exact finishes_pure ()

theorem ponders_newContainer (parentId : String) (type : ContainerType) :
    (newContainer id parentId type).Finishes Effect.IsQuestion := by
  have stamped : ∀ id, (now >>= fun time => ofContainer (Container.create id parentId type time)).Finishes
      Effect.IsQuestion := fun id => (finishes_now trivial).bind fun time => finishes_ofContainer _
  simp only [newContainer]
  by_cases unnamed : id.isEmpty
  · simp only [if_pos unnamed]
    exact ⟨trivial, stamped⟩
  · simp only [if_neg unnamed]
    exact stamped id

theorem ponders_draw (draft : Draft) : (draw draft).Finishes Effect.IsQuestion := by
  cases draft with
  | new id parentId type title =>
    apply (ponders_newContainer parentId type).bind
    intro made
    cases title with
    | none => exact finishes_pure _
    | some text => exact finishes_pure _
  | named id parentId typeName => exact (finishes_now trivial).bind fun time => finishes_ofContainer _
  | restored s => exact finishes_ofContainer _

theorem ponders_preparedParent (parentId : String) (time : Time.Instant) :
    (preparedParent limits id parentId time).Finishes Effect.IsQuestion := by
  simp only [preparedParent]
  refine (ponders_load.mapError ?_).bind fun loaded => ?_
  · intro e other reason
    cases e <;> first | exact other reason | exact nofun
  obtain ⟨record, parent⟩ := loaded
  apply ponders_ancestors.bind
  intro chain
  by_cases cyclic : chain.contains id = true
  · simp only [if_pos cyclic]
    exact finishes_throw nofun
  simp only [if_neg cyclic]
  by_cases deep : limits.maxDepth ≤ chain.length
  · simp only [if_pos deep]
    exact finishes_throw nofun
  simp only [if_neg deep]
  exact (finishes_ofContainer _).bind fun grown => finishes_pure _

theorem ponders_attached (target : String) (time : Time.Instant) :
    (attached id target time).Finishes Effect.IsQuestion := by
  simp only [attached]
  by_cases top : target.isEmpty
  · simp only [if_pos top]
    exact finishes_pure none
  simp only [if_neg top]
  refine (ponders_load.mapError ?_).bind fun loaded => ?_
  · intro e other reason
    cases e <;> first | exact other reason | exact nofun
  exact (finishes_ofContainer _).bind fun grown => finishes_pure _

theorem ponders_detached (source : String) (time : Time.Instant) :
    (detached id source time).Finishes Effect.IsQuestion := by
  simp only [detached]
  by_cases top : source.isEmpty
  · simp only [if_pos top]
    exact finishes_pure none
  simp only [if_neg top]
  apply ponders_read?.bind
  intro found
  cases found with
  | none => exact finishes_pure none
  | some record =>
    apply (finishes_hydrate record).bind
    intro parent
    by_cases listed : parent.containsMember id = true
    · simp only [if_pos listed]
      exact (finishes_ofContainer _).bind fun removed => finishes_pure _
    · simp only [if_neg listed]
      exact finishes_pure none

/-! ### The parts of calls that hold their locks -/

variable {used freed : String → Prop}

theorem decides_addMemberHeld (member : String) (type : MemberType) :
    (addMemberHeld id member type).Decides (Effect.Within (fun _ => True) used freed) true := by
  simp only [addMemberHeld]
  apply ponders_load.decides_bind
  intro loaded
  apply (finishes_now trivial).decides_bind
  intro time
  apply (finishes_ofContainer _).decides_bind
  intro grown
  apply decides_checkContext_bind
  exact (finishes_commit_publish trivial [_] _ _).decides

theorem decides_strikeOff (record : Record) (container : Container) (member : String) :
    (strikeOff record container member).Decides (Effect.Within (fun _ => True) used freed) true := by
  simp only [strikeOff]
  apply (finishes_now trivial).decides_bind
  intro time
  apply (finishes_ofContainer _).decides_bind
  intro removed
  apply decides_checkContext_bind
  exact (finishes_commit_publish trivial [_] _ _).decides

theorem decides_removeMemberHeld (member : String) :
    (removeMemberHeld id member).Decides (Effect.Within (fun _ => True) used freed) true := by
  simp only [removeMemberHeld]
  apply ponders_load.decides_bind
  intro loaded
  obtain ⟨record, c⟩ := loaded
  by_cases listed : c.containsMember member = true
  · simp only [if_pos listed]
    exact (ponders_refuseChild member).decides_bind fun _ => decides_strikeOff record c member
  · simp only [if_neg listed]
    exact decides_strikeOff record c member

theorem decides_updateMetadataHeld (update : MetadataUpdate) :
    (updateMetadataHeld id update).Decides (Effect.Within (fun _ => True) used freed) true := by
  simp only [updateMetadataHeld]
  apply ponders_load.decides_bind
  intro loaded
  obtain ⟨record, c⟩ := loaded
  apply (finishes_now trivial).decides_bind
  intro time
  by_cases unchanged : (applyUpdate c update time).pending.isEmpty
  · simp only [if_pos unchanged]
    exact decides_pure _
  · simp only [if_neg unchanged]
    apply decides_checkContext_bind
    exact (finishes_commit_publish trivial [] _ _).decides

theorem decides_rebuildHeld : (rebuildHeld id).Decides (Effect.Within (fun _ => True) used freed) true := by
  simp only [rebuildHeld]
  apply ponders_load.decides_bind
  intro loaded
  apply decides_checkContext_bind
  exact ((finishes_index trivial).bind fun _ => finishes_pure _).decides

theorem decides_storePrepared {c : Container} (new : used c.id) (ours : freed c.id) (time : Time.Instant)
    (parent : Option (Record × Container)) :
    (storePrepared c time parent).Decides (Effect.Within (fun _ => True) used freed) true := by
  simp only [storePrepared]
  apply decides_checkContext_bind
  exact (finishes_storeNew trivial new ours fun _ _ => trivial).decides

theorem decides_createHeld {c : Container} (new : used c.id) (ours : freed c.id) :
    (createHeld limits c).Decides (Effect.Within (fun _ => True) used freed) true := by
  simp only [createHeld]
  apply ponders_isStored.decides_bind
  intro stored
  by_cases known : stored = true
  · simp only [if_pos known]
    exact decides_throw (e := .alreadyExists c.id) nofun
  simp only [if_neg known]
  have asked : (store (.isRetired c.id)).Finishes Effect.IsQuestion := finishes_store trivial
  apply asked.decides_bind
  intro retired
  by_cases reserved : retired = true
  · simp only [if_pos reserved]
    exact decides_throw (e := .alreadyExists c.id) nofun
  simp only [if_neg reserved]
  apply (finishes_now trivial).decides_bind
  intro time
  by_cases top : c.parentId.isEmpty
  · simp only [if_pos top]
    exact (finishes_pure none).decides_bind fun parent => decides_storePrepared new ours time parent
  · simp only [if_neg top]
    apply ((ponders_preparedParent c.parentId time).map some).decides_bind
    exact fun parent => decides_storePrepared new ours time parent

theorem decides_moveHeld (source target : String) :
    (moveHeld id source target).Decides (Effect.Within (fun _ => True) used freed) true := by
  simp only [moveHeld]
  apply ponders_load.decides_bind
  intro loaded
  obtain ⟨record, c⟩ := loaded
  by_cases stays : source = target
  · simp only [if_pos stays]
    exact decides_pure c
  simp only [if_neg stays]
  apply (finishes_now trivial).decides_bind
  intro time
  apply (finishes_ofContainer _).decides_bind
  intro moved
  apply (ponders_attached target time).decides_bind
  intro newParent
  apply (ponders_detached source time).decides_bind
  intro oldParent
  apply decides_checkContext_bind
  exact finishes_writeMove.decides

/-- A deletion finds that the container has another parent only while it has not written. -/
theorem decides_deleteHeld (parentId : String) (own : used id) :
    Program.Decides (Effect.Within (fun _ => True) used freed) (deleteHeld id parentId).run true Uncanceled
      (fun out => Uncanceled out ∧ out ≠ .ok false) Canceled := by
  simp only [deleteHeld]
  refine ponders_load.decides_bind_ends (fun loaded => ?_) fun _ uncanceled => uncanceled
  obtain ⟨record, c⟩ := loaded
  by_cases elsewhere : record.parentId ≠ parentId
  · simp only [if_pos elsewhere]
    exact fun _ impossible => by cases impossible
  simp only [if_neg elsewhere]
  by_cases full : (!c.members.isEmpty) = true
  · simp only [if_pos full]
    exact fun _ impossible => by cases impossible
  simp only [if_neg full]
  refine ⟨?_, fun reason => finishes_throw_canceled reason⟩
  exact Program.Finishes.decides (finishes_remove own) (fun _ good => good.1) fun _ good => good

theorem decides_deleteWithin (attempts : Nat) (own : used id) :
    (deleteWithin id attempts).Decides (Effect.Within (fun _ => True) used freed) true := by
  induction attempts with
  | zero => exact decides_throw (e := .notFound id) nofun
  | succ attempts ih =>
    simp only [deleteWithin]
    apply ponders_load.decides_bind
    intro loaded
    obtain ⟨record, c⟩ := loaded
    apply Decides.bind_ends (Decides.withContainers_ends _ (decides_deleteHeld record.parentId own))
    · intro done _
      by_cases deleted : done = true
      · simp only [if_pos deleted]
        exact decides_pure ()
      · simp only [if_neg deleted]
        exact ih
    · intro done given
      cases done with
      | true => exact finishes_pure ()
      | false => exact absurd rfl given.2
    · exact fun _ uncanceled => uncanceled.error
    · exact fun _ given => given.1.error
    · exact fun _ => rfl

end Repository

open Repository

/-- The calls that write for one container and whose last look at the context comes before their first write. -/
def Call.WritesOnce : Call → Prop
  | .create _ | .delete _ | .updateMetadata _ _ | .addMember _ _ | .removeMember _ _ | .move _ _ | .rebuild _ => True
  | _ => False

/-- Every call that writes once decides before it does: up to then it can be stopped, and from then on it cannot. -/
theorem Call.decides {settings : Settings} {call : Call} (once : call.WritesOnce) :
    (call.action settings).Decides (fun _ => True) false := by
  have anything : ∀ {α : Type} {x : Action α} {clear : Bool},
      x.Decides (Effect.Within (fun _ => True) (fun _ => True) fun _ => True) clear → x.Decides (fun _ => True) clear :=
    fun decides => Program.Decides.widen decides fun _ _ => trivial
  apply anything
  cases call with
  | create draft =>
    apply (ponders_draw draft).decides_bind
    intro c
    apply Decides.map
    apply (finishes_ofContainer _).decides_bind
    intro _
    exact ((decides_createHeld trivial trivial).withContainers _).withLock _ _
  | delete id =>
    have deletes : (Repository.delete id).Decides
        (Effect.Within (fun _ => True) (fun _ => True) fun _ => True) false :=
      (decides_deleteWithin deleteAttempts trivial).withLock _ _
    have same : (Call.delete id).action settings = (fun _ => Reply.done) <$> Repository.delete id :=
      (map_eq_pure_bind ..).symm
    rw [same]
    exact deletes.map _
  | updateMetadata id update => exact ((decides_updateMetadataHeld update).withLock _ _).map _
  | addMember container member =>
    apply Decides.map
    apply (ponders_classify _ member).decides_bind
    exact fun type => (decides_addMemberHeld member type).withLock _ _
  | removeMember container member => exact ((decides_removeMemberHeld member).withLock _ _).map _
  | move id target =>
    apply Decides.map
    apply Decides.withLock
    simp only [moveWithin]
    apply ponders_load.decides_bind
    intro loaded
    apply (ponders_checkMove target).decides_bind
    exact fun _ => (decides_moveHeld _ target).withContainers _
  | rebuild id => exact (decides_rebuildHeld.withLock _ _).map _
  | addMembers | rebuildAll | get | contains | listMembers | countMembers | drain | nextBatch | children | parent
  | path | find | verify => exact once.elim

end Containment
