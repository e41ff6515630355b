/-
Module: Containment.Proofs.Concurrency.Endurance
Purpose: Programs among others whose requests may fail. Whenever a program may have to wait, others may change
  everything that the locks it holds do not protect; what it does between two such points is told together with the
  requests that failed and the number of those that were refused.
Main exports: Holdings.WellKept, Stretch, Program.Endures, Action.Endures, endures_withLock, endures_withContainers,
  Program.Bare.endures
-/
import Containment.Proofs.Concurrency.Course
import Containment.Proofs.Concurrency.Guards
import Containment.Proofs.Repository.Agreement

namespace Containment

/-- What is stored keeps the rules, and the index is in order, whatever it lists. -/
structure Holdings.WellKept (h : Holdings) : Prop where
  sane : h.store.contents.Sane
  indexed : h.Indexed

/-- Where a program stands that might have waited some time ago: how it holds the hierarchy, whether it has held it
since, what was held by all then, which requests failed since and how many were refused, and what is held now. -/
structure Stretch where
  held : Option Mode
  guarded : Bool
  start : Holdings
  fails : List FaultPoint := []
  refusals : Nat := 0
  now : Holdings

namespace Stretch

/-- A program goes on after it might have waited. -/
def resumed (held : Option Mode) (h : Holdings) : Stretch :=
  { held, guarded := held.isSome, start := h, now := h }

/-- A program goes on after some of its requests, so many of which were refused. -/
def passed (m : Stretch) (fails : List FaultPoint) (refusals : Nat) (h : Holdings) : Stretch :=
  { m with fails := m.fails ++ fails, refusals := m.refusals + refusals, now := h }

/-- What others may leave behind. Nobody changes the shape of the hierarchy while a program has it alone. -/
def Allows (m : Stretch) (h : Holdings) : Prop :=
  m.held = some .exclusive → h.store.contents.shape = m.now.store.contents.shape

variable {m m₁ m' : Stretch} {idle : Holdings → Holdings → Prop}

@[simp]
theorem passed_nil (m : Stretch) : m.passed [] 0 m.now = m := by
  simp [passed]

theorem passed_passed (m : Stretch) (early late : List FaultPoint) (n k : Nat) (h h' : Holdings) :
    (m.passed early n h).passed late k h' = m.passed (early ++ late) (n + k) h' := by
  simp only [passed, List.append_assoc, Nat.add_assoc]

/-- A later moment of a program that has done nothing but wait and look. -/
structure Later (idle : Holdings → Holdings → Prop) (m m' : Stretch) : Prop where
  rests : idle m'.start m'.now
  wellKept : m'.now.WellKept
  held : m'.held = m.held
  allowed : m.Allows m'.now
  guarded : m.guarded = m.held.isSome → m'.guarded = m.held.isSome

theorem Later.refl (rests : idle m.start m.now) (wellKept : m.now.WellKept) : m.Later idle m :=
  ⟨rests, wellKept, rfl, fun _ => rfl, fun known => known⟩

theorem Later.trans (first : m.Later idle m₁) (second : m₁.Later idle m') : m.Later idle m' := by
  refine ⟨second.rests, second.wellKept, second.held.trans first.held, ?_, ?_⟩
  · intro alone
    exact (second.allowed (first.held.trans alone)).trans (first.allowed alone)
  · intro known
    have between := first.guarded known
    rw [← first.held] at between ⊢
    exact second.guarded between

theorem later_resumed {h : Holdings} (rests : idle h h) (wellKept : h.WellKept) (allowed : m.Allows h) :
    m.Later idle (resumed m.held h) :=
  ⟨rests, wellKept, rfl, allowed, fun _ => rfl⟩

end Stretch

/-- From this moment on the program ends as `post` says, whatever others do while it waits and whichever requests
fail. When it may have to wait, it has done no more than `idle` allows since it last might have waited; and it never
asks for the hierarchy while holding it. -/
def Program.Endures {α : Type} (idle : Holdings → Holdings → Prop) :
    Program α → Stretch → (α → Stretch → Prop) → Prop
  | .done a, m, post => post a m
  | .effect request next, m, post => ∀ fails answer h, m.now.Answers request fails answer h →
      (next answer).Endures idle (m.passed fails (request.refusals answer) h) post
  | .check next, m, post => ∀ status, (next status).Endures idle m post
  | .acquire lock mode next, m, post =>
      idle m.start m.now ∧ (lock = .hierarchy → m.held = none) ∧ ∀ h, h.WellKept → m.Allows h →
        (∀ reason, (next (some reason)).Endures idle (.resumed m.held h) post) ∧
          (next none).Endures idle (.resumed (lock.entered mode m.held) h) post
  | .release lock next, m, post => (next ()).Endures idle { m with held := lock.left m.held } post

namespace Program

variable {α β : Type} {idle : Holdings → Holdings → Prop} {m : Stretch}

/-- One program after another, the second one from whatever the first one leaves. -/
theorem Endures.andThen {p : Program α} {f : α → Program β} {better : α → Stretch → Prop} {post : β → Stretch → Prop}
    (first : p.Endures idle m better) (second : ∀ a m', better a m' → (f a).Endures idle m' post) :
    (p.bind f).Endures idle m post := by
  induction p generalizing m with
  | done a => exact second a m first
  | effect request next ih => exact fun fails answer h answers => ih answer (first fails answer h answers)
  | check next ih => exact fun status => ih status (first status)
  | acquire lock mode next ih =>
    obtain ⟨rests, free, rest⟩ := first
    refine ⟨rests, free, fun h wellKept allowed => ?_⟩
    obtain ⟨canceled, entered⟩ := rest h wellKept allowed
    exact ⟨fun reason => ih _ (canceled reason), ih _ entered⟩
  | release lock next ih => exact ih () first

theorem Endures.bind {p : Program α} {f : α → Program β} {post : β → Stretch → Prop}
    (endures : p.Endures idle m fun a m' => (f a).Endures idle m' post) : (p.bind f).Endures idle m post :=
  endures.andThen fun _ _ => id

theorem Endures.mono {p : Program α} {post better : α → Stretch → Prop} (endures : p.Endures idle m better)
    (imp : ∀ a m', better a m' → post a m') : p.Endures idle m post := by
  rw [← bind_done p]
  exact endures.andThen imp

/-- Two things that are each so in the end are so together. -/
theorem Endures.and {p : Program α} {post also : α → Stretch → Prop} (endures : p.Endures idle m post)
    (endures' : p.Endures idle m also) : p.Endures idle m fun a m' => post a m' ∧ also a m' := by
  induction p generalizing m with
  | done a => exact ⟨endures, endures'⟩
  | effect request next ih =>
    exact fun fails answer h answers => ih answer (endures fails answer h answers) (endures' fails answer h answers)
  | check next ih => exact fun status => ih status (endures status) (endures' status)
  | acquire lock mode next ih =>
    obtain ⟨rests, free, rest⟩ := endures
    refine ⟨rests, free, fun h wellKept allowed => ?_⟩
    obtain ⟨canceled, entered⟩ := rest h wellKept allowed
    obtain ⟨canceled', entered'⟩ := endures'.2.2 h wellKept allowed
    exact ⟨fun reason => ih _ (canceled reason) (canceled' reason), ih _ entered entered'⟩
  | release lock next ih => exact ih () endures endures'

/-- Without locks, a program among others does what it does alone. -/
theorem Bare.endures {p : Program α} {post : α → Stretch → Prop} (bare : p.Bare)
    (runs : ∀ fails refusals a h, p.Runs m.now fails a h → post a (m.passed fails refusals h)) :
    p.Endures idle m post := by
  induction p generalizing m with
  | done a =>
    have ended := runs [] 0 a m.now ⟨rfl, rfl, rfl⟩
    rw [Stretch.passed_nil] at ended
    exact ended
  | effect request next ih =>
    intro fails answer h₁ answers
    apply ih answer (bare answer)
    intro late refusals a h run
    rw [Stretch.passed_passed]
    exact runs _ _ a h ⟨fails, late, answer, h₁, answers, run, rfl⟩
  | check next ih =>
    intro status
    apply ih status (bare status)
    exact fun fails refusals a h run => runs fails refusals a h ⟨status, run⟩
  | acquire lock mode next => exact bare.elim
  | release lock next => exact bare.elim

/-- A program that only looks, under locks of containers, may be interrupted but does no harm. -/
theorem Looks.endures {p : Program α} {good : α → Prop} {post : α → Stretch → Prop}
    (looks : p.Looks LockName.IsContainer good) (refl : ∀ h, idle h h) (rests : idle m.start m.now)
    (wellKept : m.now.WellKept) (ends : ∀ a m', m.Later idle m' → post a m') : p.Endures idle m post := by
  induction p generalizing m good with
  | done a => exact ends a m (.refl rests wellKept)
  | effect request next ih =>
    intro fails answer h answers
    obtain ⟨same, -⟩ := Effect.answers_question looks.1 answers
    subst same
    refine ih answer (m := m.passed fails (request.refusals answer) m.now) (looks.2 answer) rests wellKept ?_
    exact fun a m' later => ends a m' ⟨later.rests, later.wellKept, later.held, later.allowed, later.guarded⟩
  | check next ih => exact fun status => ih status (looks status) rests wellKept ends
  | acquire lock mode next ih =>
    cases lock with
    | hierarchy => exact looks.1.elim
    | container id =>
      refine ⟨rests, fun top => absurd top (LockName.container_ne id), fun h wellKept' allowed => ?_⟩
      have later := Stretch.later_resumed (refl h) wellKept' allowed
      have goOn : ∀ status, (next status).Endures idle (.resumed m.held h) post := by
        intro status
        apply ih status (looks.2 status) (refl h) wellKept'
        exact fun a m' later' => ends a m' (later.trans later')
      exact ⟨fun reason => goOn (some reason), goOn none⟩
  | release lock next ih =>
    cases lock with
    | hierarchy => exact looks.1.elim
    | container id => exact ih () looks.2 rests wellKept ends

end Program

namespace Action

variable {α β : Type} {idle : Holdings → Holdings → Prop} {m : Stretch} {x : Action α} {f : α → Action β}
  {post : Except RepositoryError α → Stretch → Prop}

/-- A program that may fail ends as `post` says, whatever others do while it waits. -/
def Endures (idle : Holdings → Holdings → Prop) (x : Action α) (m : Stretch)
    (post : Except RepositoryError α → Stretch → Prop) : Prop :=
  Program.Endures idle x.run m post

theorem Endures.mono {better : Except RepositoryError α → Stretch → Prop} (endures : x.Endures idle m better)
    (imp : ∀ out m', better out m' → post out m') : x.Endures idle m post :=
  Program.Endures.mono endures imp

theorem Endures.bind {post : Except RepositoryError β → Stretch → Prop}
    (endures : x.Endures idle m fun out m' =>
      match out with
      | .ok a => (f a).Endures idle m' post
      | .error e => post (.error e) m') : (x >>= f).Endures idle m post := by
  apply Program.Endures.bind
  apply Program.Endures.mono endures
  intro out m' ended
  cases out with
  | ok a => exact ended
  | error e => exact ended

theorem Endures.map {f : α → β} {post : Except RepositoryError β → Stretch → Prop}
    (endures : x.Endures idle m fun out => post (out.map f)) : (f <$> x).Endures idle m post := by
  rw [map_eq_pure_bind]
  apply Endures.bind
  apply endures.mono
  intro out m' ended
  cases out with
  | ok a => exact ended
  | error e => exact ended

/-- Taking an error and going on with a handler. -/
theorem Endures.tryCatch {handler : RepositoryError → Action α}
    (endures : x.Endures idle m fun out m' =>
      match out with
      | .ok a => post (.ok a) m'
      | .error e => (handler e).Endures idle m' post) : (tryCatch x handler : Action α).Endures idle m post := by
  apply Program.Endures.bind
  apply Program.Endures.mono endures
  intro out m' ended
  cases out with
  | ok a => exact ended
  | error e => exact ended

/-- What the program does when it is alone, it does in one go if it takes no locks. -/
theorem Bare.endures {alone : Post α} (bare : x.Bare) (ensures : x.Ensures m.now alone)
    (ends : ∀ fails refusals out h, alone fails out h → post out (m.passed fails refusals h)) :
    x.Endures idle m post := by
  apply Program.Bare.endures bare
  exact fun fails refusals out h run => ends fails refusals out h (ensures fails out h run)

/-- Looking around without locks. -/
theorem Bare.endures_bind {P : α → Prop} {post : Except RepositoryError β → Stretch → Prop} (bare : x.Bare)
    (reads : x.Reads m.now P)
    (refused : ∀ fails refusals e, (fails = [] → ¬ e.IsWriteFault) → post (.error e) (m.passed fails refusals m.now))
    (ok : ∀ refusals a, P a → (f a).Endures idle (m.passed [] refusals m.now) post) :
    (x >>= f).Endures idle m post := by
  apply Endures.bind
  apply bare.endures reads
  intro fails refusals out h given
  rcases given with ⟨rfl, ended⟩
  cases out with
  | ok a =>
    obtain ⟨rfl, good⟩ := ended
    exact ok refusals a good
  | error e => exact refused fails refusals e ended

theorem Looks.endures (looks : x.Looks LockName.IsContainer) (refl : ∀ h, idle h h) (rests : idle m.start m.now)
    (wellKept : m.now.WellKept) (ends : ∀ out m', m.Later idle m' → post out m') : x.Endures idle m post :=
  Program.Looks.endures looks refl rests wellKept ends

/-! ### Locks -/

theorem endures_withLock {lock : LockName} {mode : Mode} (rests : idle m.start m.now)
    (free : lock = .hierarchy → m.held = none)
    (canceled : ∀ reason h, h.WellKept → m.Allows h → post (.error (.canceled reason)) (.resumed m.held h))
    (body : ∀ h, h.WellKept → m.Allows h → x.Endures idle (.resumed (lock.entered mode m.held) h)
      fun out m' => post out { m' with held := lock.left m'.held }) :
    (withLock lock mode x).Endures idle m post := by
  refine ⟨rests, free, fun h wellKept allowed => ⟨fun reason => canceled reason h wellKept allowed, ?_⟩⟩
  apply Program.Endures.bind
  exact body h wellKept allowed

theorem endures_releaseAll {ids : List String} {post : Unit → Stretch → Prop} (good : post () m) :
    (releaseAll (ids.map .container)).Endures idle m post := by
  induction ids with
  | nil => exact good
  | cons id rest ih => exact ih

theorem endures_acquireAll {ids : List String} {post : Option Cancellation → Stretch → Prop} (refl : ∀ h, idle h h)
    (rests : idle m.start m.now) (wellKept : m.now.WellKept) (ends : ∀ status m', m.Later idle m' → post status m')
    (taken : List String) :
    (acquireAll (taken.map .container) (ids.map .container)).Endures idle m post := by
  induction ids generalizing m taken with
  | nil => exact ends none m (.refl rests wellKept)
  | cons id rest ih =>
    refine ⟨rests, fun top => absurd top (LockName.container_ne id), fun h wellKept' allowed => ⟨?_, ?_⟩⟩
    · intro reason
      apply Program.Endures.bind
      apply endures_releaseAll
      exact ends (some reason) _ (Stretch.later_resumed (refl h) wellKept' allowed)
    · have later := Stretch.later_resumed (refl h) wellKept' allowed
      have grown : (taken.map LockName.container) ++ [.container id] = (taken ++ [id]).map .container := by
        rw [List.map_append]
        rfl
      change (acquireAll ((taken.map .container) ++ [.container id]) (rest.map .container)).Endures idle _ post
      rw [grown]
      exact ih (refl h) wellKept' (fun status m' later' => ends status m' (later.trans later')) _

/-- The locks of several containers leave the hierarchy alone. -/
theorem endures_withContainers {ids : List String} (refl : ∀ h, idle h h) (rests : idle m.start m.now)
    (wellKept : m.now.WellKept) (canceled : ∀ reason m', m.Later idle m' → post (.error (.canceled reason)) m')
    (body : ∀ m', m.Later idle m' → x.Endures idle m' post) : (withContainers ids x).Endures idle m post := by
  apply Program.Endures.bind
  apply endures_acquireAll refl rests wellKept _ []
  intro status m' later
  cases status with
  | some reason => exact canceled reason m' later
  | none =>
    apply Program.Endures.bind
    apply Program.Endures.mono (body m' later)
    intro out m'' ended
    apply Program.Endures.bind
    apply endures_releaseAll
    exact ended

end Action

end Containment
