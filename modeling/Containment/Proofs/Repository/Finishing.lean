/-
Module: Containment.Proofs.Repository.Finishing
Purpose: The last stretch of calls that write. From its first write on, a call neither waits nor looks at its
  context, so it cannot be stopped half-way. Which containers it writes about can be told from its text.
Main exports: Effect.Within, Program.Finishes, Action.Finishes, Program.Finishes.runs, finishes_commit,
  finishes_storeNew, finishes_remove, finishes_writeMove
-/
import Containment.Proofs.Looking
import Containment.Repository.Call

namespace Containment

open Containment.Action

/-- Whatever the request changes belongs to containers of the first kind. It uses up identifiers of the second kind
only, and sets those of the third kind free. -/
def Effect.Within (ids used freed : String → Prop) : Effect → Prop
  | .store (.update record _) => ids record.id
  | .store (.insert record) => used record.id
  | .store (.retire id) => used id
  | .store (.delete id) => freed id
  | .index call => ids call.container
  | .store (.read _) | .store (.isRetired _) | .store .ids | .store (.exists _) => True
  | .readClock | .drawId | .publish _ => True

/-- The program runs to its end without waiting and without looking at its context. All its requests are allowed, and
its value is a good one. -/
def Program.Finishes {α : Type} (allowed : Effect → Prop) : Program α → (α → Prop) → Prop
  | .done a, good => good a
  | .effect request next, good => allowed request ∧ ∀ answer, (next answer).Finishes allowed good
  | .check _, _ | .acquire .., _ => False
  | .release _ next, good => (next ()).Finishes allowed good

namespace Program

variable {α β : Type} {allowed : Effect → Prop} {h h' : Holdings}

theorem Finishes.bind {p : Program α} {f : α → Program β} {good : α → Prop} {better : β → Prop}
    (first : p.Finishes allowed good) (second : ∀ a, good a → (f a).Finishes allowed better) :
    (p.bind f).Finishes allowed better := by
  induction p with
  | done a => exact second a first
  | effect request next ih => exact ⟨first.1, fun answer => ih answer (first.2 answer)⟩
  | check next => exact first.elim
  | acquire lock mode next => exact first.elim
  | release lock next ih => exact ih () first

theorem Finishes.mono {p : Program α} {good better : α → Prop} (finishes : p.Finishes allowed better)
    (imp : ∀ a, better a → good a) : p.Finishes allowed good := by
  rw [← bind_done p]
  exact finishes.bind imp

/-- What every allowed request keeps, the program keeps. -/
theorem Finishes.runs {p : Program α} {good : α → Prop} {keeps : Holdings → Holdings → Prop}
    (refl : ∀ h, keeps h h) (trans : ∀ h₁ h₂ h₃, keeps h₁ h₂ → keeps h₂ h₃ → keeps h₁ h₃)
    (step : ∀ (request : Effect) (fails : List FaultPoint) (answer : request.Answer) (h h' : Holdings),
      allowed request → h.Answers request fails answer h' → keeps h h')
    {fails : List FaultPoint} {value : α} (finishes : p.Finishes allowed good) (run : p.Runs h fails value h') :
    keeps h h' := by
  induction p generalizing h fails with
  | done a =>
    obtain ⟨-, -, rfl⟩ := run
    exact refl h'
  | effect request next ih =>
    obtain ⟨now, later, answer, h₁, answers, run, -⟩ := run
    exact trans _ _ _ (step request now answer h h₁ finishes.1 answers) (ih answer (finishes.2 answer) run)
  | check next => exact finishes.elim
  | acquire lock mode next => exact finishes.elim
  | release lock next ih => exact ih () finishes run

end Program

namespace Action

variable {α β : Type} {allowed : Effect → Prop} {x : Action α} {f : α → Action β}

/-- The end of a call that has not been stopped. -/
def Uncanceled (out : Except RepositoryError α) : Prop :=
  ∀ reason, out ≠ .error (.canceled reason)

/-- A program that may fail runs to its end without waiting and is not stopped. -/
def Finishes (allowed : Effect → Prop) (x : Action α) : Prop :=
  Program.Finishes allowed x.run Uncanceled

theorem finishes_pure (a : α) : (pure a : Action α).Finishes allowed :=
  fun _ impossible => by cases impossible

theorem finishes_throw {e : RepositoryError} (other : ∀ reason, e ≠ .canceled reason) :
    (throw e : Action α).Finishes allowed :=
  fun reason same => other reason (Except.error.inj same)

theorem Finishes.bind (first : x.Finishes allowed) (second : ∀ a, (f a).Finishes allowed) :
    (x >>= f).Finishes allowed := by
  apply Program.Finishes.bind first
  intro out uncanceled
  cases out with
  | ok a => exact second a
  | error e => exact finishes_throw fun reason same => uncanceled reason (congrArg _ same)

theorem Finishes.map (f : α → β) (finishes : x.Finishes allowed) : (f <$> x).Finishes allowed := by
  rw [map_eq_pure_bind]
  exact finishes.bind fun a => finishes_pure (f a)

theorem Finishes.tryCatch {handler : RepositoryError → Action α} (first : x.Finishes allowed)
    (handled : ∀ e, (∀ reason, e ≠ .canceled reason) → (handler e).Finishes allowed) :
    (tryCatch x handler : Action α).Finishes allowed := by
  apply Program.Finishes.bind first
  intro out uncanceled
  cases out with
  | ok a => exact finishes_pure a
  | error e => exact handled e fun reason same => uncanceled reason (congrArg _ same)

theorem Finishes.onError {handler : RepositoryError → Action Unit} (first : x.Finishes allowed)
    (handled : ∀ e, (handler e).Finishes allowed) : (onError x handler).Finishes allowed :=
  first.tryCatch fun e other => (handled e).bind fun _ => finishes_throw other

theorem Finishes.mapError {change : RepositoryError → RepositoryError} (first : x.Finishes allowed)
    (other : ∀ e, (∀ reason, e ≠ .canceled reason) → ∀ reason, change e ≠ .canceled reason) :
    (mapError x change).Finishes allowed :=
  first.tryCatch fun e uncanceled => finishes_throw (other e uncanceled)

theorem finishes_tryStore {call : StoreCall} (fine : allowed (.store call)) : (tryStore call).Finishes allowed :=
  ⟨fine, fun _ => finishes_pure _⟩

theorem finishes_tryIndex {call : IndexCall} (fine : allowed (.index call)) : (tryIndex call).Finishes allowed :=
  ⟨fine, fun _ => finishes_pure _⟩

theorem finishes_store {call : StoreCall} (fine : allowed (.store call)) : (store call).Finishes allowed := by
  apply (finishes_tryStore fine).bind
  intro answer
  cases answer with
  | ok a => exact finishes_pure a
  | error e => exact finishes_throw fun _ impossible => by cases impossible

theorem finishes_index {call : IndexCall} (fine : allowed (.index call)) : (index call).Finishes allowed := by
  apply (finishes_tryIndex fine).bind
  intro answer
  cases answer with
  | ok a => exact finishes_pure a
  | error e => exact finishes_throw fun _ impossible => by cases impossible

theorem finishes_now (fine : allowed .readClock) : now.Finishes allowed :=
  ⟨fine, fun time => finishes_pure time⟩

theorem finishes_publish {events : List Event} (fine : allowed (.publish events)) :
    (publish events).Finishes allowed := by
  simp only [publish]
  split
  · exact finishes_pure ()
  · exact ⟨fine, fun u => finishes_pure u⟩

theorem finishes_ofContainer (outcome : Except ContainerError α) : (ofContainer outcome).Finishes allowed := by
  cases outcome with
  | ok a => exact finishes_pure a
  | error e => exact finishes_throw fun _ impossible => by cases impossible

theorem finishes_hydrate (record : Record) : (hydrate record).Finishes allowed := by
  simp only [hydrate]
  split
  · exact finishes_pure _
  · exact finishes_throw fun _ impossible => by cases impossible

end Action

namespace Repository

variable {ids used freed : String → Prop}

/-! ### Writing one container -/

theorem finishes_attempt {id : String} (own : ids id) (change : IndexChange) :
    (attempt id change).Finishes (Effect.Within ids used freed) := by
  cases change with
  | insert member => exact (finishes_tryIndex own).bind fun _ => finishes_pure _
  | remove memberId => exact (finishes_tryIndex own).bind fun _ => finishes_pure _

theorem finishes_removeInserted {id : String} (own : ids id) (changes : List IndexChange) :
    (removeInserted id changes).Finishes (Effect.Within ids used freed) := by
  induction changes with
  | nil => exact finishes_pure ()
  | cons change rest ih =>
    cases change with
    | remove memberId => exact ih
    | insert member =>
      simp only [removeInserted]
      apply (finishes_tryIndex own).bind
      intro answer
      cases answer with
      | ok existed => exact ih
      | error e => exact finishes_pure ()

theorem finishes_undoIndex {id : String} (own : ids id) (applied : List IndexChange) (previous : List Member) :
    (undoIndex id applied previous).Finishes (Effect.Within ids used freed) := by
  simp only [undoIndex]
  split
  · exact finishes_pure ()
  · split
    · exact finishes_removeInserted own applied
    · exact (finishes_tryIndex own).bind fun _ => finishes_pure ()

theorem finishes_applyFrom {id : String} (own : ids id) (previous : List Member) (changes applied : List IndexChange) :
    (applyFrom id previous applied changes).Finishes (Effect.Within ids used freed) := by
  induction changes generalizing applied with
  | nil => exact finishes_pure ()
  | cons change rest ih =>
    simp only [applyFrom]
    apply (finishes_attempt own change).bind
    intro answer
    cases answer with
    | ok u => exact ih _
    | error e =>
      apply (finishes_undoIndex own applied previous).bind
      exact fun _ => finishes_throw fun _ impossible => by cases impossible

theorem finishes_commit {record : Record} {container : Container} (own : ids container.id)
    (changes : List IndexChange) : (commit record container changes).Finishes (Effect.Within ids used freed) := by
  simp only [commit]
  apply (finishes_applyFrom own record.container.members changes []).bind
  intro _
  have write : (Effect.store (.update (record.next container) record.revision)).Within ids used freed := own
  apply (finishes_tryStore write).bind
  intro answer
  cases answer with
  | ok u => exact finishes_pure _
  | error e =>
    apply (finishes_undoIndex own changes _).bind
    exact fun _ => finishes_throw fun _ impossible => by cases impossible

/-- The whole write of a call that changes one container. -/
theorem finishes_commit_publish {α : Type} {record : Record} {container : Container} (own : ids container.id)
    (changes : List IndexChange) (events : List Event) (a : α) :
    (commit record container changes >>= fun _ => publish events >>= fun _ => pure a).Finishes
      (Effect.Within ids used freed) := by
  apply (finishes_commit own changes).bind
  exact fun _ => (finishes_publish trivial).bind fun _ => finishes_pure a

theorem finishes_rollBack {previous committed : Record} (own : ids previous.id) :
    (rollBack previous committed).Finishes (Effect.Within ids used freed) := by
  simp only [rollBack]
  have write : (Effect.store (.update ⟨committed.revision + 1, previous.container⟩ committed.revision)).Within ids used
      freed := own
  apply (finishes_tryStore write).bind
  intro _
  exact (finishes_tryIndex own).bind fun _ => finishes_pure ()

/-! ### Making a container -/

theorem finishes_seedPartition {id : String} (own : ids id) :
    (seedPartition id).Finishes (Effect.Within ids used freed) := by
  simp only [seedPartition]
  apply (finishes_tryIndex own).bind
  intro answer
  rcases answer with e | _
  · cases e with
    | partitionExists =>
      apply (finishes_tryIndex own).bind
      intro answer
      cases answer with
      | ok u => exact finishes_pure u
      | error e => exact finishes_throw fun _ impossible => by cases impossible
    | partitionNotFound | duplicateEntry | database | corrupt | backend =>
      exact finishes_throw fun _ impossible => by cases impossible
  · exact finishes_pure ()

theorem finishes_insertNew {container : Container} (own : ids container.id) (new : used container.id) :
    (insertNew container).Finishes (Effect.Within ids used freed) := by
  simp only [insertNew]
  have write : (Effect.store (.insert (.first container))).Within ids used freed := new
  apply (finishes_tryStore write).bind
  intro answer
  cases answer with
  | ok u => exact finishes_pure ()
  | error e =>
    apply (finishes_tryIndex own).bind
    intro _
    cases e <;> exact finishes_throw fun _ impossible => by cases impossible

theorem finishes_unwindCreate {id : String} (own : ids id) (ours : freed id) :
    (unwindCreate id).Finishes (Effect.Within ids used freed) := by
  simp only [unwindCreate]
  have gone : (Effect.store (.delete id)).Within ids used freed := ours
  apply (finishes_tryStore gone).bind
  intro _
  exact (finishes_tryIndex own).bind fun _ => finishes_pure ()

/-- The whole write of a creation. -/
theorem finishes_storeNew {container : Container} {time : Time.Instant} {parent : Option (Record × Container)}
    (own : ids container.id) (new : used container.id) (ours : freed container.id)
    (above : ∀ p ∈ parent, ids p.2.id) :
    (do
      seedPartition container.id
      insertNew container
      let (events, container) := container.takeEvents
      let parentEvents ←
        match parent with
        | none => pure []
        | some (record, parent) =>
          let _ ← onError (commit record parent [.insert { id := container.id, type := .container, addedAt := time }])
            fun _ => unwindCreate container.id
          pure parent.takeEvents.1
      publish (events ++ parentEvents)
      pure container : Action Container).Finishes (Effect.Within ids used freed) := by
  apply (finishes_seedPartition own).bind
  intro _
  apply (finishes_insertNew own new).bind
  intro _
  cases parent with
  | none => exact (finishes_publish trivial).bind fun _ => finishes_pure _
  | some p =>
    apply ((finishes_commit (above p rfl) _).onError fun _ => finishes_unwindCreate own ours).bind
    exact fun _ => (finishes_publish trivial).bind fun _ => finishes_pure _

/-! ### Deleting and moving a container -/

theorem finishes_detach {id parentId : String} {time : Time.Instant} :
    (detach id parentId time).Finishes (Effect.Within (fun _ => True) used freed) := by
  simp only [detach]
  split
  · exact finishes_pure _
  · have asked : (read? parentId).Finishes (Effect.Within (fun _ => True) used freed) := finishes_store trivial
    apply asked.bind
    intro found
    cases found with
    | none => exact finishes_pure _
    | some record =>
      apply (finishes_hydrate record).bind
      intro parent
      by_cases listed : parent.containsMember id = true
      · simp only [if_pos listed]
        apply (finishes_ofContainer _).bind
        intro removed
        exact (finishes_commit trivial _).bind fun _ => finishes_pure _
      · simp only [if_neg listed]
        exact finishes_pure _

/-- The whole write of a deletion. It never says that there is nothing to delete. -/
theorem finishes_remove {id parentId : String} {container : Container} (own : used id) :
    Program.Finishes (Effect.Within (fun _ => True) used freed) (ExceptT.run (do
      let time ← now
      let (events, _) := (container.markDeleted time).takeEvents
      let (detached, parentEvents) ← detach id parentId time
      match ← tryStore (.retire id) with
      | .error e =>
        if let some (previous, committed) := detached then rollBack previous committed
        throw (.store e)
      | .ok _ =>
        let _ ← tryIndex (.dropPartition id)
        publish (events ++ parentEvents)
        pure true : Action Bool)) fun out => Uncanceled out ∧ out ≠ .ok false := by
  have refused : ∀ e : RepositoryError, (∀ reason, e ≠ .canceled reason) →
      Uncanceled (.error e : Except RepositoryError Bool) ∧ (.error e : Except RepositoryError Bool) ≠ .ok false :=
    fun e other => ⟨fun reason same => other reason (Except.error.inj same), fun impossible => by cases impossible⟩
  have failed : ∀ (x : Action Unit) (e : StoreError), x.Finishes (Effect.Within (fun _ => True) used freed) →
      Program.Finishes (Effect.Within (fun _ => True) used freed)
        (ExceptT.run (x >>= fun _ => throw (.store e) : Action Bool)) fun out => Uncanceled out ∧ out ≠ .ok false := by
    intro x e finishes
    apply Program.Finishes.bind finishes
    intro out uncanceled
    cases out with
    | ok u => exact refused (.store e) fun _ impossible => by cases impossible
    | error e' => exact refused e' fun reason same => uncanceled reason (congrArg _ same)
  refine ⟨trivial, fun time => ?_⟩
  apply Program.Finishes.bind finishes_detach
  intro out uncanceled
  cases out with
  | error e => exact refused e fun reason same => uncanceled reason (congrArg _ same)
  | ok detached =>
    obtain ⟨write, parentEvents⟩ := detached
    refine ⟨own, fun answer => ?_⟩
    cases answer with
    | error e =>
      cases write with
      | none => exact refused (.store e) fun _ impossible => by cases impossible
      | some write => exact failed (rollBack write.1 write.2) e (finishes_rollBack trivial)
    | ok existed =>
      refine ⟨trivial, fun _ => ?_⟩
      apply Program.Finishes.bind (finishes_publish trivial)
      intro out uncanceled
      cases out with
      | ok u =>
        have deleted : Uncanceled (.ok true : Except RepositoryError Bool) ∧
            (.ok true : Except RepositoryError Bool) ≠ .ok false :=
          ⟨nofun, nofun⟩
        exact deleted
      | error e => exact refused e fun reason same => uncanceled reason (congrArg _ same)

theorem finishes_unwind (writes : List (Record × Record)) :
    (unwind writes).Finishes (Effect.Within (fun _ => True) used freed) := by
  simp only [unwind]
  induction writes.reverse with
  | nil => exact finishes_pure ()
  | cons write rest ih => exact (finishes_rollBack trivial).bind fun _ => ih

theorem finishes_commitParent {change : IndexChange} {writes : List (Record × Record)} {events : List Event}
    {parent : Option (Record × Container)} :
    (commitParent change writes events parent).Finishes (Effect.Within (fun _ => True) used freed) := by
  cases parent with
  | none => exact finishes_pure _
  | some p =>
    have guarded : (onError (commit p.1 p.2 [change]) fun _ => unwind writes).Finishes
        (Effect.Within (fun _ => True) used freed) :=
      (finishes_commit trivial _).onError fun _ => finishes_unwind writes
    exact guarded.bind fun _ => finishes_pure _

theorem finishes_commitMoved {record : Record} {moved : Container} {writes : List (Record × Record)}
    {events : List Event} :
    (commitMoved record moved writes events).Finishes (Effect.Within (fun _ => True) used freed) := by
  simp only [commitMoved]
  have write : (Effect.store (.update (record.next moved) record.revision)).Within (fun _ => True) used freed :=
    trivial
  apply (finishes_tryStore write).bind
  intro answer
  cases answer with
  | ok u => exact (finishes_publish trivial).bind fun _ => finishes_pure _
  | error e =>
    apply (finishes_unwind writes).bind
    exact fun _ => finishes_throw fun _ impossible => by cases impossible

/-- The whole write of a move. -/
theorem finishes_writeMove {id : String} {entry : Member} {record : Record} {moved : Container}
    {newParent oldParent : Option (Record × Container)} :
    (do
      let (writes, events) ← commitParent (.insert entry) [] [] newParent
      let (writes, events) ← commitParent (.remove id) writes events oldParent
      commitMoved record moved writes events : Action Container).Finishes
        (Effect.Within (fun _ => True) used freed) := by
  apply finishes_commitParent.bind
  intro first
  apply finishes_commitParent.bind
  exact fun second => finishes_commitMoved

end Repository

end Containment
