/-
Module: Containment.Proofs.Concurrency.Guards
Purpose: Programs among others. Whenever a program may have to wait, others may change everything that the locks it
  holds do not protect; between two such points it is undisturbed. A program keeps its word if it finds and leaves
  the repository in order at each of them.
Main exports: Holdings.Orderly, Moment, Program.Guards, Action.Guards, guards_withLock, guards_withContainers,
  Program.Bare
-/
import Containment.Proofs.Looking
import Containment.Proofs.Repository.IndexWrites
import Containment.Proofs.Hierarchy.Links

namespace Containment

/-- What holds whenever control passes from one task to another. -/
structure Holdings.Orderly (depth : Nat) (h : Holdings) : Prop where
  sane : h.store.contents.Sane
  mirrored : h.Mirrored
  forest : h.store.contents.Forest depth

/-- How the hierarchy is held once a lock has been taken. -/
def LockName.entered (lock : LockName) (mode : Mode) (held : Option Mode) : Option Mode :=
  match lock with
  | .hierarchy => some mode
  | .container _ => held

/-- How the hierarchy is held once a lock has been given back. -/
def LockName.left (lock : LockName) (held : Option Mode) : Option Mode :=
  match lock with
  | .hierarchy => none
  | .container _ => held

theorem LockName.container_ne (id : String) : LockName.container id ≠ .hierarchy := by
  intro impossible
  cases impossible

/-- Where a program stands: how it holds the hierarchy, whether it has held it since it last might have waited,
what the store was then, and what is held now. -/
structure Moment where
  held : Option Mode
  guarded : Bool
  start : MemoryStore
  now : Holdings

namespace Moment

/-- A program goes on after it might have waited. -/
def resumed (held : Option Mode) (h : Holdings) : Moment :=
  { held, guarded := held.isSome, start := h.store, now := h }

/-- The program may wait: all is in order, and it has not touched the store yet. -/
structure Idle (depth : Nat) (m : Moment) : Prop where
  orderly : m.now.Orderly depth
  untouched : m.now.store = m.start

/-- What others may leave behind. Nobody changes the shape of the hierarchy while a program has it alone. -/
def Allows (m : Moment) (h : Holdings) : Prop :=
  m.held = some .exclusive → h.store.contents.shape = m.now.store.contents.shape

/-- A later moment of a program that has done nothing but wait and look. -/
structure Resumes (depth : Nat) (m m' : Moment) : Prop where
  idle : m'.Idle depth
  held : m'.held = m.held
  allowed : m.Allows m'.now
  guarded : m.guarded = m.held.isSome → m'.guarded = m.held.isSome

variable {depth : Nat} {m m₁ m' : Moment}

theorem Resumes.refl (idle : m.Idle depth) : m.Resumes depth m :=
  ⟨idle, rfl, fun _ => rfl, id⟩

theorem Resumes.trans (first : m.Resumes depth m₁) (second : m₁.Resumes depth m') : m.Resumes depth m' := by
  refine ⟨second.idle, second.held.trans first.held, ?_, ?_⟩
  · intro alone
    exact (second.allowed (first.held.trans alone)).trans (first.allowed alone)
  · intro known
    have between := first.guarded known
    rw [← first.held] at between ⊢
    exact second.guarded between

theorem resumes_resumed {h : Holdings} (orderly : h.Orderly depth) (allowed : m.Allows h) :
    m.Resumes depth (resumed m.held h) :=
  ⟨⟨orderly, rfl⟩, rfl, allowed, fun _ => rfl⟩

end Moment

/-- From this moment on the program keeps its word: it waits only while all is in order and the store is untouched,
never asks for the hierarchy while holding it, and ends as `post` says, whatever others do while it waits. -/
def Program.Guards {α : Type} (depth : Nat) : Program α → Moment → (α → Moment → Prop) → Prop
  | .done a, m, post => post a m
  | .effect request next, m, post =>
      ∀ answer h, m.now.Answers request [] answer h → (next answer).Guards depth { m with now := h } post
  | .check next, m, post => ∀ status, (next status).Guards depth m post
  | .acquire lock mode next, m, post =>
      m.Idle depth ∧ (lock = .hierarchy → m.held = none) ∧ ∀ h, h.Orderly depth → m.Allows h →
        (∀ reason, (next (some reason)).Guards depth (.resumed m.held h) post) ∧
          (next none).Guards depth (.resumed (lock.entered mode m.held) h) post
  | .release lock next, m, post => (next ()).Guards depth { m with held := lock.left m.held } post

/-- The program neither takes nor gives back a lock, so it is never interrupted. -/
def Program.Bare {α : Type} : Program α → Prop
  | .done _ => True
  | .effect _ next => ∀ answer, (next answer).Bare
  | .check next => ∀ status, (next status).Bare
  | .acquire .. | .release .. => False

namespace Program

variable {α β : Type} {depth : Nat} {m : Moment}

/-- One program after another, the second one from whatever the first one leaves. -/
theorem Guards.andThen {p : Program α} {f : α → Program β} {better : α → Moment → Prop} {post : β → Moment → Prop}
    (first : p.Guards depth m better) (second : ∀ a m', better a m' → (f a).Guards depth m' post) :
    (p.bind f).Guards depth m post := by
  induction p generalizing m with
  | done a => exact second a m first
  | effect request next ih => exact fun answer h answers => ih answer (first answer h answers)
  | check next ih => exact fun status => ih status (first status)
  | acquire lock mode next ih =>
    obtain ⟨idle, free, rest⟩ := first
    refine ⟨idle, free, fun h orderly allowed => ?_⟩
    obtain ⟨canceled, entered⟩ := rest h orderly allowed
    exact ⟨fun reason => ih _ (canceled reason), ih _ entered⟩
  | release lock next ih => exact ih () first

theorem Guards.bind {p : Program α} {f : α → Program β} {post : β → Moment → Prop}
    (guards : p.Guards depth m fun a m' => (f a).Guards depth m' post) : (p.bind f).Guards depth m post :=
  guards.andThen fun _ _ => id

theorem Guards.mono {p : Program α} {post better : α → Moment → Prop} (guards : p.Guards depth m better)
    (imp : ∀ a m', better a m' → post a m') : p.Guards depth m post := by
  rw [← bind_done p]
  exact guards.andThen imp

/-- Without locks, a program among others does what it does alone. -/
theorem Bare.guards {p : Program α} {post : α → Moment → Prop} (bare : p.Bare)
    (runs : ∀ a h, p.Runs m.now [] a h → post a { m with now := h }) : p.Guards depth m post := by
  induction p generalizing m with
  | done a => exact runs a m.now ⟨rfl, rfl, rfl⟩
  | effect request next ih =>
    intro answer h₁ answers
    apply ih answer (bare answer)
    exact fun a h run => runs a h ⟨[], [], answer, h₁, answers, run, rfl⟩
  | check next ih =>
    intro status
    apply ih status (bare status)
    exact fun a h run => runs a h ⟨status, run⟩
  | acquire lock mode next => exact bare.elim
  | release lock next => exact bare.elim

theorem Bare.bind {p : Program α} {f : α → Program β} (first : p.Bare) (second : ∀ a, (f a).Bare) :
    (p.bind f).Bare := by
  induction p with
  | done a => exact second a
  | effect request next ih => exact fun answer => ih answer (first answer)
  | check next ih => exact fun status => ih status (first status)
  | acquire lock mode next => exact first.elim
  | release lock next => exact first.elim

theorem Looks.bare {p : Program α} {good : α → Prop} (looks : p.Looks (fun _ => False) good) : p.Bare := by
  induction p generalizing good with
  | done a => exact trivial
  | effect request next ih => exact fun answer => ih answer (looks.2 answer)
  | check next ih => exact fun status => ih status (looks status)
  | acquire lock mode next => exact looks.1.elim
  | release lock next => exact looks.1.elim

/-- A program that only looks, under locks of containers, may be interrupted but does no harm. -/
theorem Looks.guards {p : Program α} {good : α → Prop} {post : α → Moment → Prop}
    (looks : p.Looks LockName.IsContainer good) (idle : m.Idle depth)
    (ends : ∀ a m', m.Resumes depth m' → good a → post a m') : p.Guards depth m post := by
  induction p generalizing m good with
  | done a => exact ends a m (.refl idle) looks
  | effect request next ih =>
    intro answer h answers
    obtain ⟨same, plain⟩ := Effect.answers_question looks.1 answers
    subst same
    apply ih answer (looks.2 answer) idle
    exact fun a m' resumes good => ends a m' resumes (good (plain rfl))
  | check next ih => exact fun status => ih status (looks status) idle ends
  | acquire lock mode next ih =>
    cases lock with
    | hierarchy => exact looks.1.elim
    | container id =>
      refine ⟨idle, fun top => absurd top (LockName.container_ne id), fun h orderly allowed => ?_⟩
      have later := Moment.resumes_resumed orderly allowed
      have goOn : ∀ status, (next status).Guards depth (.resumed m.held h) post := by
        intro status
        apply ih status (looks.2 status) later.idle
        exact fun a m' resumes => ends a m' (later.trans resumes)
      exact ⟨fun reason => goOn (some reason), goOn none⟩
  | release lock next ih =>
    cases lock with
    | hierarchy => exact looks.1.elim
    | container id => exact ih () looks.2 idle ends

end Program

namespace Action

variable {α β : Type} {depth : Nat} {m : Moment}

/-- A program that may fail keeps its word, with one way to end for each outcome. -/
def Guards (depth : Nat) (x : Action α) (m : Moment) (ok : α → Moment → Prop)
    (error : RepositoryError → Moment → Prop) : Prop :=
  Program.Guards depth x.run m fun out m' =>
    match out with
    | .ok a => ok a m'
    | .error e => error e m'

/-- A program that may fail and neither takes nor gives back a lock. -/
def Bare (x : Action α) : Prop :=
  Program.Bare x.run

variable {x : Action α} {f : α → Action β} {ok : α → Moment → Prop} {error : RepositoryError → Moment → Prop}

theorem guards_pure {a : α} (good : ok a m) : (pure a : Action α).Guards depth m ok error :=
  good

theorem guards_throw {e : RepositoryError} (good : error e m) : (throw e : Action α).Guards depth m ok error :=
  good

theorem Guards.mono {better : α → Moment → Prop} {worse : RepositoryError → Moment → Prop}
    (guards : x.Guards depth m better worse) (imp : ∀ a m', better a m' → ok a m')
    (imp' : ∀ e m', worse e m' → error e m') : x.Guards depth m ok error := by
  apply Program.Guards.mono guards
  intro out m'
  cases out with
  | ok a => exact imp a m'
  | error e => exact imp' e m'

theorem Guards.bind {good : β → Moment → Prop}
    (guards : x.Guards depth m (fun a m' => (f a).Guards depth m' good error) error) :
    (x >>= f).Guards depth m good error := by
  apply Program.Guards.bind
  apply Program.Guards.mono guards
  intro out m' ended
  cases out with
  | ok a => exact ended
  | error e => exact ended

theorem Guards.map {f : α → β} {good : β → Moment → Prop}
    (guards : x.Guards depth m (fun a => good (f a)) error) : (f <$> x).Guards depth m good error := by
  rw [map_eq_pure_bind]
  exact guards.bind

/-- Taking an error and going on with a handler. -/
theorem Guards.tryCatch {handler : RepositoryError → Action α}
    (guards : x.Guards depth m ok fun e m' => (handler e).Guards depth m' ok error) :
    (tryCatch x handler : Action α).Guards depth m ok error := by
  apply Program.Guards.bind
  apply Program.Guards.mono guards
  intro out m' ended
  cases out with
  | ok a => exact ended
  | error e => exact ended

/-- Without locks, a program among others ends as it does alone while nothing fails. -/
theorem Bare.guards_ensures {post : Post α} (bare : x.Bare) (ensures : x.Ensures m.now post)
    (done : ∀ a h, post [] (.ok a) h → ok a { m with now := h })
    (refused : ∀ e h, post [] (.error e) h → error e { m with now := h }) : x.Guards depth m ok error := by
  apply Program.Bare.guards bare
  intro out h run
  cases out with
  | ok a => exact done a h (ensures _ _ _ run)
  | error e => exact refused e h (ensures _ _ _ run)

theorem Bare.guards_reads {P : α → Prop} (bare : x.Bare) (reads : x.Reads m.now P)
    (done : ∀ a, P a → ok a m) (refused : ∀ e, ¬ e.IsWriteFault → error e m) : x.Guards depth m ok error := by
  apply bare.guards_ensures reads
  · intro a _ given
    rcases given with ⟨rfl, -, good⟩
    exact done a good
  · intro e _ given
    rcases given with ⟨rfl, harmless⟩
    exact refused e (harmless rfl)

theorem Looks.guards (looks : x.Looks LockName.IsContainer) (idle : m.Idle depth)
    (done : ∀ a m', m.Resumes depth m' → ok a m')
    (refused : ∀ e m', m.Resumes depth m' → ¬ e.IsWriteFault → error e m') : x.Guards depth m ok error := by
  apply Program.Looks.guards looks idle
  intro out m' resumes harmless
  cases out with
  | ok a => exact done a m' resumes
  | error e => exact refused e m' resumes (harmless e rfl)

/-! ### Locks -/

theorem guards_withLock {lock : LockName} {mode : Mode} (idle : m.Idle depth)
    (free : lock = .hierarchy → m.held = none)
    (canceled : ∀ reason m', m.Resumes depth m' → error (.canceled reason) m')
    (held : ∀ h, h.Orderly depth → m.Allows h → x.Guards depth (.resumed (lock.entered mode m.held) h)
      (fun a m' => ok a { m' with held := lock.left m'.held })
      fun e m' => error e { m' with held := lock.left m'.held }) :
    (withLock lock mode x).Guards depth m ok error := by
  refine ⟨idle, free, fun h orderly allowed => ⟨?_, ?_⟩⟩
  · exact fun reason => canceled reason _ (Moment.resumes_resumed orderly allowed)
  · apply Program.Guards.bind
    apply Program.Guards.mono (held h orderly allowed)
    intro out m' ended
    cases out with
    | ok a => exact ended
    | error e => exact ended

theorem guards_releaseAll {ids : List String} {post : Unit → Moment → Prop} (good : post () m) :
    (releaseAll (ids.map .container)).Guards depth m post := by
  induction ids with
  | nil => exact good
  | cons id rest ih => exact ih

theorem guards_acquireAll {ids : List String} {post : Option Cancellation → Moment → Prop} (idle : m.Idle depth)
    (ends : ∀ status m', m.Resumes depth m' → post status m') (taken : List String) :
    (acquireAll (taken.map .container) (ids.map .container)).Guards depth m post := by
  induction ids generalizing m taken with
  | nil => exact ends none m (.refl idle)
  | cons id rest ih =>
    refine ⟨idle, fun top => absurd top (LockName.container_ne id), fun h orderly allowed => ⟨?_, ?_⟩⟩
    · intro reason
      apply Program.Guards.bind
      apply guards_releaseAll
      exact ends (some reason) _ (Moment.resumes_resumed orderly allowed)
    · have later := Moment.resumes_resumed orderly allowed
      have grown : (taken.map LockName.container) ++ [.container id] = (taken ++ [id]).map .container := by
        rw [List.map_append]
        rfl
      change (acquireAll ((taken.map .container) ++ [.container id]) (rest.map .container)).Guards depth _ post
      rw [grown]
      exact ih later.idle (fun status m' resumes => ends status m' (later.trans resumes)) _

/-- The locks of several containers leave the hierarchy alone. -/
theorem guards_withContainers {ids : List String} (idle : m.Idle depth)
    (canceled : ∀ reason m', m.Resumes depth m' → error (.canceled reason) m')
    (held : ∀ m', m.Resumes depth m' → x.Guards depth m' ok error) :
    (withContainers ids x).Guards depth m ok error := by
  apply Program.Guards.bind
  apply guards_acquireAll idle _ []
  intro status m' resumes
  cases status with
  | some reason => exact canceled reason m' resumes
  | none =>
    apply Program.Guards.bind
    apply Program.Guards.mono (held m' resumes)
    intro out m'' ended
    apply Program.Guards.bind
    apply guards_releaseAll
    cases out with
    | ok a => exact ended
    | error e => exact ended

end Action

end Containment
