/-
Module: Containment.Proofs.Outcome
Purpose: What every run of a program that may fail ends in. One rule for each way to put such programs together,
  and a shorter form for programs that only look: they leave everything as it is.
Main exports: Action.Runs, Action.Ensures, Action.Reads, RepositoryError.IsWriteFault
-/
import Containment.Proofs.Runs

namespace Containment

open Time

/-- The errors that tell of a write that another writer or the index spoiled. -/
def RepositoryError.IsWriteFault : RepositoryError → Prop
  | .store (.revisionMismatch ..) | .indexWriteFailed .. => True
  | _ => False

namespace Action

variable {α β : Type} {h : Holdings}

/-- A program that may fail can go from `h` to `h'`, with an outcome. -/
def Runs (x : Action α) (h : Holdings) (fails : List FaultPoint) (out : Except RepositoryError α)
    (h' : Holdings) : Prop :=
  Program.Runs x.run h fails out h'

/-- What a run may end in: the requests that failed, the outcome, and what is held then. -/
abbrev Post (α : Type) := List FaultPoint → Except RepositoryError α → Holdings → Prop

/-- Every run from `h` ends as `post` says. -/
def Ensures (x : Action α) (h : Holdings) (post : Post α) : Prop :=
  ∀ fails out h', x.Runs h fails out h' → post fails out h'

theorem Ensures.mono {x : Action α} {weak strong : Post α} (ensures : x.Ensures h strong)
    (imp : ∀ fails out h', strong fails out h' → weak fails out h') : x.Ensures h weak :=
  fun fails out h' run => imp fails out h' (ensures fails out h' run)

theorem ensures_pure {a : α} {post : Post α} (ok : post [] (.ok a) h) :
    (pure a : Action α).Ensures h post := by
  intro _ _ _ given
  rcases given with ⟨rfl, rfl, rfl⟩
  exact ok

theorem ensures_throw {e : RepositoryError} {post : Post α} (error : post [] (.error e) h) :
    (throw e : Action α).Ensures h post := by
  intro _ _ _ given
  rcases given with ⟨rfl, rfl, rfl⟩
  exact error

theorem runs_bind {x : Action α} {f : α → Action β} {fails : List FaultPoint}
    {out : Except RepositoryError β} {h' : Holdings} :
    (x >>= f).Runs h fails out h' ↔
      (∃ a early late h₁, x.Runs h early (.ok a) h₁ ∧ (f a).Runs h₁ late out h' ∧ fails = early ++ late) ∨
        ∃ e, x.Runs h fails (.error e) h' ∧ out = .error e := by
  apply (Program.runs_bind (p := x.run)).trans
  constructor
  · intro given
    rcases given with ⟨a | a, early, late, h₁, first, second, rfl⟩
    · obtain ⟨rfl, rfl, rfl⟩ := second
      exact .inr ⟨a, (List.append_nil early).symm ▸ first, rfl⟩
    · exact .inl ⟨a, early, late, h₁, first, second, rfl⟩
  · intro given
    rcases given with ⟨a, early, late, h₁, first, second, rfl⟩ | ⟨e, first, rfl⟩
    · exact ⟨.ok a, early, late, h₁, first, second, rfl⟩
    · exact ⟨.error e, fails, [], h', first, ⟨rfl, rfl, rfl⟩, by simp⟩

/-- One program after another: what the first one ensures is what the second one starts from. -/
theorem Ensures.bind {x : Action α} {f : α → Action β} {between : Post α} {post : Post β}
    (first : x.Ensures h between)
    (ok : ∀ early a h₁, between early (.ok a) h₁ → (f a).Ensures h₁ fun late => post (early ++ late))
    (error : ∀ fails e h', between fails (.error e) h' → post fails (.error e) h') :
    (x >>= f).Ensures h post := by
  intro fails out h' run
  rcases runs_bind.1 run with ⟨a, early, late, h₁, front, back, rfl⟩ | ⟨e, front, rfl⟩
  · exact ok early a h₁ (first _ _ _ front) late out h' back
  · exact error fails e h' (first _ _ _ front)

theorem Ensures.map {x : Action α} {f : α → β} {post : Post β}
    (ensures : x.Ensures h fun fails out => post fails (out.map f)) : (f <$> x).Ensures h post := by
  rw [map_eq_pure_bind]
  refine ensures.bind (fun early a h₁ holds => ?_) fun fails e h' holds => holds
  exact ensures_pure ((List.append_nil early).symm ▸ holds)

/-- Taking an error and going on with a handler. -/
theorem Ensures.tryCatch {x : Action α} {handler : RepositoryError → Action α} {post : Post α}
    (ensures : x.Ensures h fun early out h₁ =>
      match out with
      | .ok a => post early (.ok a) h₁
      | .error e => (handler e).Ensures h₁ fun late => post (early ++ late)) :
    (tryCatch x handler : Action α).Ensures h post := by
  intro fails out h' run
  obtain ⟨mid, early, late, h₁, first, second, rfl⟩ := (Program.runs_bind (p := x.run)).1 run
  have between := ensures early mid h₁ first
  cases mid with
  | ok a =>
    obtain ⟨rfl, rfl, rfl⟩ := second
    simpa using between
  | error e => exact between late out h' second

/-- Doing something about an error and passing it on. A handler that never fails itself cannot hide it. -/
theorem Ensures.onError {x : Action α} {handler : RepositoryError → Action Unit} {post : Post α}
    (ensures : x.Ensures h fun early out h₁ =>
      match out with
      | .ok a => post early (.ok a) h₁
      | .error e => (handler e).Ensures h₁ fun late out' h' =>
          out' = .ok () ∧ post (early ++ late) (.error e) h') :
    (onError x handler).Ensures h post := by
  refine Ensures.tryCatch (ensures.mono fun early out h₁ => ?_)
  cases out with
  | ok a => exact id
  | error e =>
    intro handled
    refine handled.bind (fun late a h' ended => ensures_throw ?_) fun fails e' h' ended => by cases ended.1
    simpa using ended.2

/-- Changing the wording of an error. -/
theorem Ensures.mapError {x : Action α} {change : RepositoryError → RepositoryError} {post : Post α}
    (ensures : x.Ensures h fun fails out => post fails (out.mapError change)) :
    (mapError x change).Ensures h post := by
  refine Ensures.tryCatch (ensures.mono fun early out h₁ => ?_)
  cases out with
  | ok a => exact id
  | error e => exact fun ended => ensures_throw ((List.append_nil early).symm ▸ ended)

/-! ### Requests -/

theorem ensures_tryStore {call : StoreCall} {f : Except StoreError call.Answer → Action β} {post : Post β}
    (served : (f (h.store.perform call).1).Ensures { h with store := (h.store.perform call).2 } post)
    (failed : ∀ e, (f (.error e)).Ensures h fun late => post (.store call.kind :: late)) :
    (tryStore call >>= f).Ensures h post := by
  intro fails out h' run
  obtain ⟨now, later, answer, h₁, answers, run, rfl⟩ := run
  rcases answers with ⟨rfl, rfl, rfl⟩ | ⟨e, rfl, rfl, rfl⟩
  · exact served later out h' run
  · exact failed e later out h' run

theorem ensures_tryIndex {call : IndexCall} {f : Except IndexError call.Answer → Action β} {post : Post β}
    (served : (f (h.index.perform call).1).Ensures { h with index := (h.index.perform call).2 } post)
    (failed : ∀ e, (f (.error e)).Ensures h fun late => post (.index call.kind :: late)) :
    (tryIndex call >>= f).Ensures h post := by
  intro fails out h' run
  obtain ⟨now, later, answer, h₁, answers, run, rfl⟩ := run
  rcases answers with ⟨rfl, rfl, rfl⟩ | ⟨e, rfl, rfl, rfl⟩
  · exact served later out h' run
  · exact failed e later out h' run

theorem ensures_publish {events : List Event} {f : Unit → Action β} {post : Post β}
    (next : (f ()).Ensures { h with published := h.published ++ events } post) :
    (publish events >>= f).Ensures h post := by
  simp only [publish]
  split
  · rename_i empty
    have noEvents : events = [] := by simpa using empty
    subst noEvents
    simpa using next
  · intro fails out h' given
    rcases given with ⟨now, later, answer, h₁, ⟨rfl, rfl⟩, run, rfl⟩
    exact next _ out h' run

/-! ### Programs that only look -/

/-- The program changes nothing. If it succeeds, no request failed and the answer is as `P` says; its error is
never that of a spoiled write. -/
def Reads (x : Action α) (h : Holdings) (P : α → Prop) : Prop :=
  x.Ensures h fun fails out h' =>
    h' = h ∧
      match out with
      | .ok a => fails = [] ∧ P a
      | .error e => fails = [] → ¬ e.IsWriteFault

theorem Reads.mono {x : Action α} {weak strong : α → Prop} (reads : x.Reads h strong)
    (imp : ∀ a, strong a → weak a) : x.Reads h weak := by
  intro fails out h' run
  obtain ⟨rfl, ended⟩ := reads fails out h' run
  cases out with
  | ok a => exact ⟨rfl, ended.1, imp a ended.2⟩
  | error e => exact ⟨rfl, ended⟩

/-- After a program that only looks, everything is still as before. -/
theorem Reads.ensures_bind {x : Action α} {f : α → Action β} {P : α → Prop} {post : Post β}
    (reads : x.Reads h P)
    (refused : ∀ fails e, (fails = [] → ¬ e.IsWriteFault) → post fails (.error e) h)
    (ok : ∀ a, P a → (f a).Ensures h post) : (x >>= f).Ensures h post := by
  refine Ensures.bind reads ?_ ?_
  · intro _ a _ given
    rcases given with ⟨rfl, rfl, holds⟩
    exact ok a holds
  · intro fails e _ given
    rcases given with ⟨rfl, harmless⟩
    exact refused fails e harmless

theorem reads_pure {a : α} {P : α → Prop} (holds : P a) : (pure a : Action α).Reads h P :=
  ensures_pure ⟨rfl, rfl, holds⟩

theorem reads_throw {e : RepositoryError} {P : α → Prop} (harmless : ¬ e.IsWriteFault) :
    (throw e : Action α).Reads h P :=
  ensures_throw ⟨rfl, fun _ => harmless⟩

theorem Reads.bind {x : Action α} {f : α → Action β} {P : α → Prop} {Q : β → Prop}
    (first : x.Reads h P) (second : ∀ a, P a → (f a).Reads h Q) : (x >>= f).Reads h Q :=
  first.ensures_bind (fun _ _ harmless => ⟨rfl, harmless⟩) second

theorem Reads.map {x : Action α} {f : α → β} {P : β → Prop} (reads : x.Reads h fun a => P (f a)) :
    (f <$> x).Reads h P := by
  rw [map_eq_pure_bind]
  exact reads.bind fun a holds => reads_pure holds

theorem Reads.mapError {x : Action α} {change : RepositoryError → RepositoryError} {P : α → Prop}
    (reads : x.Reads h P) (harmless : ∀ e, ¬ e.IsWriteFault → ¬ (change e).IsWriteFault) :
    (mapError x change).Reads h P := by
  refine Ensures.mapError (Ensures.mono reads fun fails out h' ended => ?_)
  cases out with
  | ok a => exact ended
  | error e => exact ⟨ended.1, fun clean => harmless e (ended.2 clean)⟩

/-- A request that changes nothing in the store and is never refused. -/
theorem reads_store {call : StoreCall} {answer : call.Answer}
    (served : h.store.perform call = (.ok answer, h.store)) : (store call).Reads h (· = answer) := by
  refine ensures_tryStore ?_ fun e => ?_
  · rw [served]
    exact ensures_pure ⟨rfl, rfl, rfl⟩
  · refine ensures_throw ⟨rfl, ?_⟩
    intro clean
    cases clean

theorem reads_now : now.Reads h fun _ => True := by
  intro fails out h' given
  rcases given with ⟨now, later, answer, h₁, ⟨rfl, rfl⟩, ⟨rfl, rfl, rfl⟩, rfl⟩
  exact ⟨rfl, rfl, trivial⟩

theorem reads_freshId : freshId.Reads h fun _ => True := by
  intro fails out h' given
  rcases given with ⟨now, later, answer, h₁, ⟨rfl, rfl⟩, ⟨rfl, rfl, rfl⟩, rfl⟩
  exact ⟨rfl, rfl, trivial⟩

theorem reads_checkContext : checkContext.Reads h fun _ => True := by
  intro fails out h' given
  rcases given with ⟨_ | reason, rfl, rfl, rfl⟩
  · exact ⟨rfl, rfl, trivial⟩
  · exact ⟨rfl, fun _ => id⟩

theorem reads_ofContainer {outcome : Except ContainerError α} :
    (ofContainer outcome).Reads h (outcome = .ok ·) := by
  cases outcome with
  | ok a => exact reads_pure rfl
  | error e => exact reads_throw id

theorem reads_hydrate {record : Record} : (hydrate record).Reads h (record.hydrate = .ok ·) := by
  simp only [hydrate]
  split
  · rename_i c hydrated
    exact reads_pure hydrated
  · rename_i e failed
    apply reads_throw
    rw [Record.hydrate] at failed
    cases made : record.toContainer with
    | ok c => rw [made] at failed; cases failed
    | error fault => rw [made] at failed; cases failed; exact id

/-! ### Locks

Whoever runs alone gets every lock, unless the context ends while waiting. -/

theorem ensures_withLock {lock : LockName} {mode : Mode} {body : Action α} {post : Post α}
    (canceled : ∀ reason, post [] (.error (.canceled reason)) h) (held : body.Ensures h post) :
    (withLock lock mode body).Ensures h post := by
  intro fails out h' given
  rcases given with ⟨_ | reason, run⟩
  · obtain ⟨a, early, late, h₁, first, ⟨rfl, rfl, rfl⟩, rfl⟩ := Program.runs_bind.1 run
    rw [List.append_nil]
    exact held early out h' first
  · obtain ⟨rfl, rfl, rfl⟩ := run
    exact canceled reason

theorem runs_releaseAll {locks : List LockName} {fails : List FaultPoint} {u : Unit} {h' : Holdings}
    (run : (releaseAll locks).Runs h fails u h') : fails = [] ∧ h' = h := by
  induction locks with
  | nil => exact run.2
  | cons lock rest ih => exact ih run

theorem runs_acquireAll {taken locks : List LockName} {fails : List FaultPoint}
    {answer : Option Cancellation} {h' : Holdings}
    (run : (acquireAll taken locks).Runs h fails answer h') : fails = [] ∧ h' = h := by
  induction locks generalizing taken with
  | nil => exact run.2
  | cons lock rest ih =>
    obtain ⟨_ | reason, run⟩ := run
    · exact ih run
    · obtain ⟨u, early, late, h₁, first, ⟨rfl, rfl, rfl⟩, rfl⟩ := Program.runs_bind.1 run
      obtain ⟨rfl, rfl⟩ := runs_releaseAll first
      exact ⟨rfl, rfl⟩

theorem ensures_withContainers {ids : List String} {body : Action α} {post : Post α}
    (canceled : ∀ reason, post [] (.error (.canceled reason)) h) (held : body.Ensures h post) :
    (withContainers ids body).Ensures h post := by
  intro fails out h' run
  obtain ⟨answer, early, late, h₁, acquired, run, rfl⟩ := Program.runs_bind.1 run
  obtain ⟨rfl, rfl⟩ := runs_acquireAll acquired
  cases answer with
  | some reason =>
    obtain ⟨rfl, rfl, rfl⟩ := run
    exact canceled reason
  | none =>
    obtain ⟨outcome, front, back, h₂, first, rest, rfl⟩ := (Program.runs_bind (p := body.run)).1 run
    obtain ⟨u, early, late, h₃, released, ⟨rfl, rfl, rfl⟩, rfl⟩ := Program.runs_bind.1 rest
    obtain ⟨rfl, rfl⟩ := runs_releaseAll released
    rw [List.append_nil, List.append_nil, List.nil_append]
    exact held front out h' first

end Action

end Containment
