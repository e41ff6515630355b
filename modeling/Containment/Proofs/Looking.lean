/-
Module: Containment.Proofs.Looking
Purpose: Programs that only look. The requests that they make can be told from their text, without a state to
  start from, so the same fact serves a program alone and one among others.
Main exports: Effect.IsQuestion, Program.Looks, Action.Looks, Program.Looks.runs, Action.Looks.reads
-/
import Containment.Proofs.Outcome

namespace Containment

/-- A request that changes neither store nor index and hands nothing on. -/
def Effect.IsQuestion : Effect → Prop
  | .store (.read _) | .store (.isRetired _) | .store .ids | .store (.exists _) => True
  | .store _ => False
  | .index (.hasPartition _) | .index .partitions | .index (.contains _ _) | .index (.count _ _)
  | .index (.select _ _) | .index (.selectAfter _ _ _ _) => True
  | .index _ => False
  | .readClock | .drawId => True
  | .publish _ => False

/-- An answer that can come without a failure: a store in memory answers every question. -/
def Effect.Plain : (request : Effect) → request.Answer → Prop
  | .store _, answer => ∃ a, answer = .ok a
  | _, _ => True

/-- The lock of a single container. -/
def LockName.IsContainer : LockName → Prop
  | .container _ => True
  | .hierarchy => False

/-- The program asks questions only and takes no other than these locks. If all answers are plain, its value is a
good one. -/
def Program.Looks {α : Type} (locks : LockName → Prop) : Program α → (α → Prop) → Prop
  | .done a, good => good a
  | .effect request next, good =>
      request.IsQuestion ∧ ∀ answer, (next answer).Looks locks fun a => request.Plain answer → good a
  | .check next, good => ∀ status, (next status).Looks locks good
  | .acquire lock _ next, good => locks lock ∧ ∀ status, (next status).Looks locks good
  | .release lock next, good => locks lock ∧ (next ()).Looks locks good

theorem MemoryStore.perform_question {S : MemoryStore} {call : StoreCall}
    (question : (Effect.store call).IsQuestion) : ∃ a, S.perform call = (.ok a, S) := by
  cases call with
  | read | isRetired | ids | «exists» => exact ⟨_, rfl⟩
  | insert | update | delete | retire => exact question.elim

theorem Index.perform_question {ix : Index} {call : IndexCall} (question : (Effect.index call).IsQuestion) :
    (ix.perform call).2 = ix := by
  cases ix <;> cases call <;> first | rfl | exact question.elim

/-- A question changes nothing, and if it does not fail, its answer is plain. -/
theorem Effect.answers_question {request : Effect} (question : request.IsQuestion) {h h' : Holdings}
    {fails : List FaultPoint} {answer : request.Answer} (answers : h.Answers request fails answer h') :
    h' = h ∧ (fails = [] → request.Plain answer) := by
  cases request with
  | store call =>
    rcases answers with ⟨-, rfl, rfl⟩ | ⟨e, rfl, -, rfl⟩
    · obtain ⟨a, served⟩ := MemoryStore.perform_question (S := h.store) question
      rw [served]
      exact ⟨rfl, fun _ => ⟨a, rfl⟩⟩
    · exact ⟨rfl, fun none => absurd none (List.cons_ne_nil _ _)⟩
  | index call =>
    rcases answers with ⟨-, -, rfl⟩ | ⟨e, -, -, rfl⟩
    · rw [Index.perform_question question]
      exact ⟨rfl, fun _ => trivial⟩
    · exact ⟨rfl, fun _ => trivial⟩
  | readClock => exact ⟨answers.2, fun _ => trivial⟩
  | drawId => exact ⟨answers.2, fun _ => trivial⟩
  | publish events => exact question.elim

namespace Program

variable {α β : Type} {locks : LockName → Prop} {h h' : Holdings}

theorem Looks.mono {p : Program α} {good better : α → Prop} (looks : p.Looks locks better)
    (imp : ∀ a, better a → good a) : p.Looks locks good := by
  induction p generalizing good better with
  | done a => exact imp a looks
  | effect request next ih =>
    refine ⟨looks.1, fun answer => ?_⟩
    exact ih answer (looks.2 answer) fun a holds plain => imp a (holds plain)
  | check next ih => exact fun status => ih status (looks status) imp
  | acquire lock mode next ih => exact ⟨looks.1, fun status => ih status (looks.2 status) imp⟩
  | release lock next ih => exact ⟨looks.1, ih () looks.2 imp⟩

theorem Looks.widen {p : Program α} {good : α → Prop} {wider : LockName → Prop} (looks : p.Looks locks good)
    (imp : ∀ lock, locks lock → wider lock) : p.Looks wider good := by
  induction p generalizing good with
  | done a => exact looks
  | effect request next ih => exact ⟨looks.1, fun answer => ih answer (looks.2 answer)⟩
  | check next ih => exact fun status => ih status (looks status)
  | acquire lock mode next ih => exact ⟨imp lock looks.1, fun status => ih status (looks.2 status)⟩
  | release lock next ih => exact ⟨imp lock looks.1, ih () looks.2⟩

theorem Looks.bind {p : Program α} {f : α → Program β} {good : α → Prop} {better : β → Prop}
    (first : p.Looks locks good) (always : ∀ a, (f a).Looks locks fun _ => True)
    (second : ∀ a, good a → (f a).Looks locks better) : (p.bind f).Looks locks better := by
  induction p generalizing good better with
  | done a => exact second a first
  | effect request next ih =>
    refine ⟨first.1, fun answer => ?_⟩
    apply ih answer (first.2 answer)
    intro a holds
    by_cases plain : request.Plain answer
    · exact (second a (holds plain)).mono fun _ holds _ => holds
    · exact (always a).mono fun _ _ impossible => absurd impossible plain
  | check next ih => exact fun status => ih status (first status) second
  | acquire lock mode next ih => exact ⟨first.1, fun status => ih status (first.2 status) second⟩
  | release lock next ih => exact ⟨first.1, ih () first.2 second⟩

/-- A program that only looks changes nothing, and if no request fails, it ends well. -/
theorem Looks.runs {p : Program α} {good : α → Prop} {fails : List FaultPoint} {value : α}
    (looks : p.Looks locks good) (run : p.Runs h fails value h') : h' = h ∧ (fails = [] → good value) := by
  induction p generalizing good fails with
  | done a =>
    obtain ⟨rfl, rfl, rfl⟩ := run
    exact ⟨rfl, fun _ => looks⟩
  | effect request next ih =>
    obtain ⟨now, later, answer, h₁, answers, run, rfl⟩ := run
    obtain ⟨question, rest⟩ := looks
    obtain ⟨rfl, plain⟩ := Effect.answers_question question answers
    obtain ⟨same, good⟩ := ih answer (rest answer) run
    refine ⟨same, fun none => ?_⟩
    obtain ⟨rfl, rfl⟩ := List.append_eq_nil_iff.1 none
    exact good rfl (plain rfl)
  | check next ih =>
    obtain ⟨status, run⟩ := run
    exact ih status (looks status) run
  | acquire lock mode next ih =>
    obtain ⟨status, run⟩ := run
    exact ih status (looks.2 status) run
  | release lock next ih => exact ih () looks.2 run

end Program

namespace Action

variable {α β : Type} {locks : LockName → Prop} {h : Holdings}

/-- How a program that only looks may end: not with the error of a spoiled write. -/
def Harmless (out : Except RepositoryError α) : Prop :=
  ∀ e, out = .error e → ¬ e.IsWriteFault

/-- The program only looks and takes no other than these locks. -/
def Looks (locks : LockName → Prop) (x : Action α) : Prop :=
  Program.Looks locks x.run Harmless

theorem Looks.always {x : Action α} (looks : x.Looks locks) : Program.Looks locks x.run fun _ => True :=
  Program.Looks.mono looks fun _ _ => trivial

theorem looks_pure (a : α) : (pure a : Action α).Looks locks := by
  intro e impossible
  cases impossible

theorem looks_throw {e : RepositoryError} (harmless : ¬ e.IsWriteFault) : (throw e : Action α).Looks locks := by
  intro _ impossible
  cases impossible
  exact harmless

theorem Looks.bind {x : Action α} {f : α → Action β} (first : x.Looks locks) (second : ∀ a, (f a).Looks locks) :
    (x >>= f).Looks locks := by
  apply Program.Looks.bind first
  · intro given
    rcases given with e | a
    · exact trivial
    · exact (second a).always
  · intro given harmless
    rcases given with e | a
    · exact fun e' same => harmless e' (by cases same; rfl)
    · exact second a

theorem Looks.map {x : Action α} (f : α → β) (looks : x.Looks locks) : (f <$> x).Looks locks := by
  rw [map_eq_pure_bind]
  exact looks.bind fun a => looks_pure (f a)

theorem Looks.mapError {x : Action α} {change : RepositoryError → RepositoryError} (looks : x.Looks locks)
    (harmless : ∀ e, ¬ e.IsWriteFault → ¬ (change e).IsWriteFault) : (mapError x change).Looks locks := by
  apply Program.Looks.bind looks
  · intro given
    rcases given with e | a
    · exact trivial
    · exact trivial
  · intro given good
    rcases given with e | a
    · exact looks_throw (harmless e (good e rfl))
    · exact looks_pure a

/-- A question to the store. Its own error would be that of the store, so plain answers matter here. -/
theorem looks_store (call : StoreCall) (question : (Effect.store call).IsQuestion) : (store call).Looks locks := by
  refine ⟨question, fun answer => ?_⟩
  cases answer with
  | ok a => exact (looks_pure a).mono fun _ holds _ => holds
  | error e =>
    change Program.Looks locks (.done _) _
    intro given
    rcases given with ⟨a, impossible⟩
    cases impossible

theorem looks_tryIndex (call : IndexCall) (question : (Effect.index call).IsQuestion) :
    (tryIndex call).Looks locks :=
  ⟨question, fun answer => (looks_pure answer).mono fun _ holds _ => holds⟩

theorem looks_index (call : IndexCall) (question : (Effect.index call).IsQuestion) : (index call).Looks locks := by
  apply (looks_tryIndex call question).bind
  intro answer
  cases answer with
  | ok a => exact looks_pure a
  | error e => exact looks_throw not_false

theorem looks_checkContext : checkContext.Looks locks := by
  intro given
  rcases given with _ | reason
  · exact looks_pure ()
  · exact looks_throw (e := .canceled reason) not_false

theorem looks_hydrate (record : Record) : (hydrate record).Looks locks := by
  simp only [hydrate]
  split
  · exact looks_pure _
  · rename_i e failed
    apply looks_throw
    rw [Record.hydrate] at failed
    cases made : record.toContainer with
    | ok c =>
      rw [made] at failed
      cases failed
    | error fault =>
      rw [made] at failed
      cases failed
      exact not_false

theorem Looks.withLock {lock : LockName} {mode : Mode} {body : Action α} (allowed : locks lock)
    (looks : body.Looks locks) : (withLock lock mode body).Looks locks := by
  refine ⟨allowed, ?_⟩
  intro given
  rcases given with _ | reason
  · exact Program.Looks.bind looks (fun _ => ⟨allowed, trivial⟩) fun _ harmless => ⟨allowed, harmless⟩
  · exact looks_throw (e := .canceled reason) not_false

/-- What is done with the answer may as well be done before the lock is given back. -/
theorem map_withLock {lock : LockName} {mode : Mode} (f : α → β) (body : Action α) :
    f <$> withLock lock mode body = withLock lock mode (f <$> body) := by
  change Program.bind (.acquire lock mode _) _ = Program.acquire lock mode _
  rw [Program.bind]
  congr
  funext status
  cases status with
  | some reason => rfl
  | none =>
    refine (Program.bind_assoc body.run _ _).trans (Eq.trans ?_ (Program.bind_assoc body.run _ _).symm)
    congr
    funext outcome
    cases outcome <;> rfl

theorem Looks.reads {x : Action α} (looks : x.Looks locks) {fails : List FaultPoint}
    {out : Except RepositoryError α} {h' : Holdings} (run : x.Runs h fails out h') :
    h' = h ∧ (fails = [] → Harmless out) :=
  Program.Looks.runs looks run

end Action

end Containment
