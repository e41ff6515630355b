/-
Module: Containment.Proofs.Concurrency.Chronicle
Purpose: The history of a course. Operations take turns in any way while contexts end and requests fail; every turn
  but the last one of an operation leaves the store as it is, and the last one has the whole effect of the operation
  on what it found, or keeps that. A creation that has drawn an identifier is told of as one that names it.
Main exports: TaskState.Awaits, Task.Takes.spec, Task.Takes.drawing, Turn.Does, called, Chronicle, System.Chronicled,
  Course.chronicled
-/
import Containment.Proofs.Concurrency.Conclusions
import Containment.Proofs.Concurrency.Drawing

namespace Containment

/-! ### What a task waits with -/

variable {settings : Settings} {call : Call} {m m' m₁ : Stretch} {h h' : Holdings}

/-- The program ends as its call should, whatever others do of what the hierarchy as it is held allows. -/
def Call.Abides (settings : Settings) (call : Call) (p : Program Outcome) (held : Option Mode) (h : Holdings) : Prop :=
  ∀ h', h'.WellKept → (Stretch.resumed held h).Allows h' →
    p.Endures call.Idles (.resumed held h') (call.Completes settings)

theorem Call.Abides.later {p : Program Outcome} {held : Option Mode} (abides : call.Abides settings p held h)
    (allowed : (Stretch.resumed held h).Allows h') : call.Abides settings p held h' := by
  intro h'' wellKept allowed'
  apply abides h'' wellKept
  exact fun alone => (allowed' alone).trans (allowed alone)

/-- Coming to a lock, a program may as well stop there. -/
theorem Program.Endures.abides {lock : LockName} {mode : Mode} {next : Option Cancellation → Program Outcome}
    (endures : (Program.acquire lock mode next).Endures call.Idles m (call.Completes settings)) :
    call.Abides settings (.acquire lock mode next) m.held m.now := by
  obtain ⟨-, free, rest⟩ := endures
  intro h' wellKept allowed
  refine ⟨Call.Idles.refl h', free, fun h'' wellKept' allowed' => ?_⟩
  apply rest h'' wellKept'
  exact fun alone => (allowed' alone).trans (allowed alone)

/-- An operation may begin at any time. -/
theorem Call.program_abides (h : Holdings) : call.Abides settings (call.program settings) none h :=
  fun _ wellKept _ => Call.endures wellKept

/-- A task between two turns: it has the claims that it should have, and its program will end as it should. -/
def TaskState.Awaits (settings : Settings) (call : Call) (gate : Gate) (id : Nat) (h : Holdings) :
    TaskState Outcome → Prop
  | .fresh p => ∃ held, gate.Respects id (.holding held) ∧ call.Abides settings p held h
  | .waiting lock next => ∃ held mode, gate.Respects id (lock.claimed mode held) ∧
      call.Abides settings (.acquire lock mode next) held h
  | .finished _ => gate.Respects id .outside

/-- A task that fits still fits after the turn of another one, which has respected what the task holds. -/
theorem TaskState.Awaits.later {gate gate' : Gate} {id : Nat} {state : TaskState Outcome}
    (awaits : state.Awaits settings call gate id h) (wellKept : h.WellKept)
    (stays : ∀ stance, gate.Respects id stance → gate'.Respects id stance)
    (shape : gate.Respects id (.inside .exclusive) → h'.store.contents.shape = h.store.contents.shape) :
    state.Awaits settings call gate' id h' := by
  cases state with
  | fresh p =>
    obtain ⟨held, own, abides⟩ := awaits
    refine ⟨held, stays _ own, abides.later ?_⟩
    rintro (rfl : held = some .exclusive)
    exact shape own
  | waiting lock next =>
    obtain ⟨held, mode, own, abides⟩ := awaits
    refine ⟨held, mode, stays _ own, abides.later ?_⟩
    rintro (rfl : held = some .exclusive)
    obtain ⟨-, free, -⟩ := abides h wellKept fun _ => rfl
    cases lock with
    | hierarchy =>
      have unheld : some Mode.exclusive = none := free rfl
      cases unheld
    | container name => exact shape own
  | finished value => exact stays .outside awaits

/-- A task at the end of a turn: it has done nothing and fits, or it has ended as it should. -/
def TaskState.Yields (settings : Settings) (call : Call) (gate : Gate) (id : Nat) (m : Stretch)
    (state : TaskState Outcome) : Prop :=
  match state with
  | .finished outcome => gate.Respects id .outside ∧ call.Completes settings outcome m
  | .fresh _ | .waiting _ _ => call.Idles m.start m.now ∧ state.Awaits settings call gate id m.now

theorem TaskState.Yields.awaits {gate : Gate} {id : Nat} {state : TaskState Outcome}
    (yields : state.Yields settings call gate id m) : state.Awaits settings call gate id m.now := by
  cases state with
  | finished outcome => exact yields.1
  | fresh p | waiting lock next => exact yields.2

/-- Without having held the hierarchy, a task has not changed its shape. -/
theorem TaskState.Yields.shape {gate : Gate} {id : Nat} {state : TaskState Outcome}
    (yields : state.Yields settings call gate id m) (unguarded : m.guarded = false) :
    m.now.store.contents.shape = m.start.store.contents.shape := by
  cases state with
  | finished outcome => exact yields.2.shape unguarded
  | fresh p | waiting lock next => exact yields.1.shape

/-! ### What a turn does -/

namespace Stretch

/-- A moment in a turn that began with `s₀`. While somebody else has the hierarchy alone, the task does not get
it. -/
structure Amid (id : Nat) (s₀ : Shared) (m : Stretch) (s : Shared) : Prop where
  start : m.start.WellKept
  indexed : m.now.Indexed
  holds : s.world.Holds m.now
  alone : Gate.Alone s.locks.hierarchy.granted
  spares : Gate.Spares id s₀.locks.hierarchy s.locks.hierarchy
  apart : ∀ other, other ≠ id → s₀.locks.hierarchy.Respects other (.inside .exclusive) → m.guarded = false

/-- How one moment of a turn leads to another by some requests. What was done before the call might have waited again
is no longer counted, and was nothing. -/
structure Leads (call : Call) (m : Stretch) (deeds : List Deed) (m' : Stretch) : Prop where
  undergoes : m.now.Undergoes deeds m'.now
  rests : call.Idles m.start m'.start
  fails : ∃ early, m.fails ++ deeds.flatMap Deed.fails = early ++ m'.fails
  refusals : m'.refusals ≤ m.refusals + (deeds.map fun deed => deed.request.refusals deed.answer).sum

theorem Leads.refl (m : Stretch) : m.Leads call [] m :=
  ⟨rfl, .refl _, ⟨[], by simp⟩, by simp⟩

/-- A turn goes on after a request. -/
theorem Leads.cons {deed : Deed} {deeds : List Deed} (answers : m.now.Answers deed.request deed.fails deed.answer h)
    (leads : (m.passed deed.fails (deed.request.refusals deed.answer) h).Leads call deeds m') :
    m.Leads call (deed :: deeds) m' := by
  obtain ⟨undergoes, rests, ⟨early, fails⟩, refusals⟩ := leads
  refine ⟨⟨h, answers, undergoes⟩, rests, ⟨early, ?_⟩, ?_⟩
  · rw [List.flatMap_cons, ← List.append_assoc]
    exact fails
  · rw [List.map_cons, List.sum_cons, ← Nat.add_assoc]
    exact refusals

/-- A turn goes on after a point at which it might have waited. -/
theorem Leads.resumed {held : Option Mode} {deeds : List Deed}
    (leads : (Stretch.resumed held m.now).Leads call deeds m') (rests : call.Idles m.start m.now) :
    m.Leads call deeds m' := by
  obtain ⟨undergoes, rests', ⟨early, fails⟩, refusals⟩ := leads
  refine ⟨undergoes, rests.trans rests', ⟨m.fails ++ early, ?_⟩, refusals.trans ?_⟩
  · rw [List.append_assoc]
    exact congrArg (m.fails ++ ·) fails
  · exact Nat.add_le_add_right (Nat.zero_le _) _

namespace Amid

variable {id : Nat} {s₀ s s₁ : Shared}

theorem wellKept (amid : m.Amid id s₀ s) (rests : call.Idles m.start m.now) : m.now.WellKept :=
  ⟨rests.sane amid.start.sane, amid.indexed⟩

/-- Doing something to the locks, or letting other things happen. -/
theorem keep (amid : m.Amid id s₀ s) (holds : s₁.world.Holds m.now)
    (spares : Gate.Spares id s.locks.hierarchy s₁.locks.hierarchy) : m.Amid id s₀ s₁ :=
  { amid with
    holds
    alone := spares.alone amid.alone
    spares := amid.spares.trans spares }

/-- As long as nothing is done, the turn might as well have begun here. -/
theorem resume {held : Option Mode} (amid : m.Amid id s₀ s) (rests : call.Idles m.start m.now)
    (holds : s₁.world.Holds m.now) (spares : Gate.Spares id s.locks.hierarchy s₁.locks.hierarchy)
    (own : s₁.locks.hierarchy.Respects id (.holding held)) : (resumed held m.now).Amid id s₀ s₁ := by
  have kept := amid.keep holds spares
  refine ⟨amid.wellKept rests, amid.indexed, holds, kept.alone, kept.spares, fun other ne inside => ?_⟩
  have beside := kept.spares.others other _ ne inside
  cases held with
  | none => rfl
  | some mode => exact absurd own (kept.alone.excludes beside (Ne.symm ne))

/-- Asking the world in the middle of a turn. -/
theorem ask (amid : m.Amid id s₀ s) (request : Effect) :
    ∃ h₁, m.now.Answers request (s.world.failing request) (s.ask request).1 h₁ ∧
      (m.passed (s.world.failing request) (request.refusals (s.ask request).1) h₁).Amid id s₀ (s.ask request).2 := by
  obtain ⟨h₁, answers, holds₁⟩ := Shared.holds_ask amid.holds request
  exact ⟨h₁, answers, amid.start, amid.indexed.answers answers, holds₁, amid.alone, amid.spares, amid.apart⟩

end Amid

end Stretch

/-- A program that endures leaves all as it should be at the end of a turn. -/
theorem Program.Travels.spec {context : Context} {id : Nat} {p : Program Outcome} {s₀ s s' : Shared}
    {deeds : List Deed} {state : TaskState Outcome} (travels : p.Travels context id s deeds state s')
    (endures : p.Endures call.Idles m (call.Completes settings)) (amid : m.Amid id s₀ s)
    (own : s.locks.hierarchy.Respects id (.holding m.held)) :
    ∃ m', m'.Amid id s₀ s' ∧ m.Leads call deeds m' ∧ state.Yields settings call s'.locks.hierarchy id m' := by
  induction travels generalizing m with
  | done =>
    refine ⟨m, amid, .refl m, ?_, endures⟩
    have outside := endures.held
    rw [outside] at own
    exact own
  | @effect request next s s' deeds state _ ih =>
    obtain ⟨h₁, answers, amid₁⟩ := amid.ask request
    obtain ⟨m', amid', leads, yields⟩ := ih (endures _ _ h₁ answers) amid₁ own
    exact ⟨m', amid', leads.cons answers, yields⟩
  | check _ ih => exact ih (endures _) amid own
  | @refused lock mode next s s' deeds state reason _ _ ih =>
    obtain ⟨rests, -, rest⟩ := endures
    obtain ⟨canceled, -⟩ := rest m.now (amid.wellKept rests) fun _ => rfl
    obtain ⟨spares, still⟩ := Shared.reclaim_spec lock own
    obtain ⟨m', amid', leads, yields⟩ := ih (canceled reason) (amid.resume rests amid.holds spares still) still
    exact ⟨m', amid', leads.resumed rests, yields⟩
  | @granted lock mode next s s' deeds state _ free _ ih =>
    obtain ⟨rests, unheld, rest⟩ := endures
    obtain ⟨-, entered⟩ := rest m.now (amid.wellKept rests) fun _ => rfl
    obtain ⟨spares, -, inside⟩ := Shared.claim_spec mode unheld own
    obtain ⟨m', amid', leads, yields⟩ :=
      ih entered (amid.resume rests amid.holds spares (inside free)) (inside free)
    exact ⟨m', amid', leads.resumed rests, yields⟩
  | @waits lock mode next s =>
    obtain ⟨spares, claimed, -⟩ := Shared.claim_spec mode endures.2.1 own
    exact ⟨m, amid.keep amid.holds spares, .refl m, endures.1, m.held, mode, claimed, endures.abides⟩
  | pauses => exact ⟨m, amid, .refl m, endures.1, m.held, own, endures.abides⟩
  | @release lock next s s' deeds state _ ih =>
    obtain ⟨spares, left⟩ := Shared.leave_spec lock own
    have kept : m.Amid id s₀ (s.leave lock id) := amid.keep amid.holds spares
    have next : ({ m with held := lock.left m.held } : Stretch).Amid id s₀ (s.leave lock id) :=
      ⟨kept.start, kept.indexed, kept.holds, kept.alone, kept.spares, kept.apart⟩
    obtain ⟨m', amid', leads, yields⟩ := ih endures next left
    exact ⟨m', amid', ⟨leads.undergoes, leads.rests, leads.fails, leads.refusals⟩, yields⟩
  | @drift p s s₁ s' deeds state drifts _ ih =>
    have same : s₁.locks.hierarchy = s.locks.hierarchy := congrArg Locks.hierarchy drifts.locks
    apply ih endures (amid.keep (drifts.holds amid.holds) _)
    · rw [same]
      exact own
    · rw [same]
      exact Gate.spares_refl id _

/-- One turn of a task that fits. -/
theorem Task.Takes.spec {id : Nat} {s s' : Shared} {task : Task Outcome} {deeds : List Deed}
    {state : TaskState Outcome} (takes : task.Takes id s deeds state s')
    (awaits : task.state.Awaits settings call s.locks.hierarchy id h) (wellKept : h.WellKept)
    (holds : s.world.Holds h) (alone : Gate.Alone s.locks.hierarchy.granted) :
    ∃ m', m'.Amid id s s' ∧ (Stretch.resumed none h).Leads call deeds m' ∧
      state.Yields settings call s'.locks.hierarchy id m' := by
  have start : (Stretch.resumed none h).Amid id s s :=
    ⟨wellKept, wellKept.indexed, holds, alone, Gate.spares_refl id _, fun _ _ _ => rfl⟩
  have rests : call.Idles h h := .refl h
  cases takes with
  | starts travels =>
    obtain ⟨held, own, abides⟩ := awaits
    have begun := start.resume rests holds (Gate.spares_refl id _) own
    obtain ⟨m', amid, leads, yields⟩ := travels.spec (abides h wellKept fun _ => rfl) begun own
    exact ⟨m', amid, .resumed (m := .resumed none h) leads rests, yields⟩
  | @givesUp _ lock next _ _ _ _ _ travels =>
    obtain ⟨held, mode, own, abides⟩ := awaits
    obtain ⟨-, free, rest⟩ := abides h wellKept fun _ => rfl
    obtain ⟨canceled, -⟩ := rest h wellKept fun _ => rfl
    obtain ⟨spares, left⟩ := Shared.leave_claimed free own
    have begun : (Stretch.resumed held h).Amid id s (s.leave lock id) := start.resume rests holds spares left
    obtain ⟨m', amid, leads, yields⟩ := travels.spec (canceled _) begun left
    exact ⟨m', amid, .resumed (m := .resumed none h) leads rests, yields⟩
  | goesOn _ granted travels =>
    obtain ⟨held, mode, own, abides⟩ := awaits
    obtain ⟨-, free, rest⟩ := abides h wellKept fun _ => rfl
    obtain ⟨-, entered⟩ := rest h wellKept fun _ => rfl
    have inside := Shared.enter_claimed own granted
    have begun := start.resume rests holds (Gate.spares_refl id _) inside
    obtain ⟨m', amid, leads, yields⟩ := travels.spec entered begun inside
    exact ⟨m', amid, .resumed (m := .resumed none h) leads rests, yields⟩

/-! ### Turns in which an identifier is drawn -/

/-- Drawing an identifier first, a program ends as its call should. -/
theorem Call.drawId_abides (h : Holdings) :
    call.Abides settings (.effect .drawId fun _ => call.program settings) none h := by
  intro h' wellKept _ fails answer h₁ given
  obtain ⟨rfl, rfl⟩ := given
  change (call.program settings).Endures call.Idles ((Stretch.resumed none h₁).passed [] 0 h₁) (call.Completes settings)
  rw [show (Stretch.resumed none h₁).passed [] 0 h₁ = .resumed none h₁ from Stretch.passed_nil _]
  exact Call.endures wellKept

/-- A turn of a task that fits may be seen as one of the call with the identifier that is drawn in it: in its first turn
a creation that names none does what a program does that is the other creation once it has drawn. -/
theorem Task.Takes.drawing {id : Nat} {s s' : Shared} {task : Task Outcome} {order : Order} {log : List Turn}
    {deeds : List Deed} {state : TaskState Outcome} {gate : Gate} (takes : task.Takes id s deeds state s')
    (awaits : task.state.Awaits settings (order.call.drawing (drawnBy log id)) gate id h)
    (begun : (∀ turn ∈ log, turn.task ≠ id) →
      task.state = .fresh (order.call.program settings) ∧ gate.Respects id .outside)
    (drew : (∃ turn ∈ log, turn.task = id) → order.call.IsUnnamed → drawnBy log id ≠ []) :
    ∃ task' : Task Outcome, task'.Takes id s deeds state s' ∧ task'.state.Awaits settings
      (order.call.drawing (drawnBy (log ++ [.noted id s deeds state s']) id)) gate id h := by
  by_cases unnamed : order.call.IsUnnamed
  case neg =>
    rw [Call.drawing_of_named unnamed] at awaits ⊢
    exact ⟨task, takes, awaits⟩
  rw [drawnBy_append]
  by_cases first : ∀ turn ∈ log, turn.task ≠ id
  case neg =>
    push Not at first
    rw [Call.drawing_append _ (drew first unnamed)]
    exact ⟨task, takes, awaits⟩
  obtain ⟨begins, outside⟩ := begun first
  obtain ⟨context, _⟩ := task
  cases begins
  obtain ⟨parentId, type, title, same⟩ := unnamed
  rw [drawnBy_eq_nil first] at awaits ⊢
  rw [same] at awaits takes ⊢
  cases takes with
  | starts travels =>
    obtain ⟨x, rest, drawn, goesOn⟩ := travels.draws
    have own : drawnBy [.noted id s deeds state s'] id = x :: rest := (drawnBy_own _).trans drawn
    rw [own, List.nil_append]
    by_cases nameless : x = ""
    · subst nameless
      exact ⟨_, .starts travels, awaits⟩
    · exact ⟨_, .starts (goesOn nameless), none, outside, Call.drawId_abides h⟩

/-! ### The history of a course -/

/-- What a turn of a call does to what is held: nothing or no more than to write the index anew while the call goes
on, and what it should when the call ends. -/
structure Turn.Does (settings : Settings) (turn : Turn) (call : Call) (h h' : Holdings) : Prop where
  before : turn.before.Holds h
  after : turn.after.Holds h'
  undergoes : h.Undergoes turn.deeds h'
  idles : turn.outcome? = none → call.Idles h h'
  concludes : ∀ outcome ∈ turn.outcome?, call.Concludes settings h turn.fails outcome h'
  unadded : ∀ draft e, call = .create draft → turn.outcome? = some (.error e) → turn.refusals ≤ 1 →
    h' = h ∨ ∃ c, draft.Describes c ∧ h.Unadded c.id h'

/-- The turns of a course, from an empty repository on, each told by what it did to what was held. -/
inductive Chronicle (settings : Settings) (calls : Nat → Option Call) : List Turn → Holdings → Prop
  | start : Chronicle settings calls [] {}
  | next {log : List Turn} {h h' : Holdings} {turn : Turn} {call : Call} : Chronicle settings calls log h →
      calls turn.task = some call → turn.Does settings call h h' → Chronicle settings calls (log ++ [turn]) h'

theorem Holdings.Undergoes.indexed {deeds : List Deed} (undergoes : h.Undergoes deeds h') (indexed : h.Indexed) :
    h'.Indexed := by
  induction deeds generalizing h with
  | nil =>
    rw [show h' = h from undergoes]
    exact indexed
  | cons deed rest ih =>
    obtain ⟨h₁, answers, undergoes⟩ := undergoes
    exact ih undergoes (indexed.answers answers)

theorem Turn.Does.wellKept {turn : Turn} (does : turn.Does settings call h h') (wellKept : h.WellKept) :
    h'.WellKept := by
  refine ⟨?_, does.undergoes.indexed wellKept.indexed⟩
  cases ended : turn.outcome? with
  | none => exact (does.idles ended).sane wellKept.sane
  | some outcome => exact (does.concludes outcome ended).sane wellKept.sane

/-- The turn at the end of which a task stands as it should. -/
theorem Stretch.Leads.does {id : Nat} {s s' : Shared} {deeds : List Deed} {state : TaskState Outcome} {gate : Gate}
    (leads : (Stretch.resumed none h).Leads call deeds m') (holds : s.world.Holds h) (amid : m'.Amid id s s')
    (yields : state.Yields settings call gate id m') :
    (Turn.noted id s deeds state s').Does settings call h m'.now := by
  obtain ⟨undergoes, rests, ⟨early, fails⟩, few⟩ := leads
  have counted : deeds.flatMap Deed.fails = early ++ m'.fails := fails
  have fewer : m'.refusals ≤ (deeds.map fun deed => deed.request.refusals deed.answer).sum :=
    few.trans_eq (Nat.zero_add _)
  have still : ∀ {p : TaskState Outcome}, p.outcome? = none → p.Yields settings call gate id m' →
      call.Idles m'.start m'.now := by
    intro p unended yields
    cases p with
    | finished outcome => cases unended
    | fresh p => exact yields.1
    | waiting lock next => exact yields.1
  refine ⟨holds, amid.holds, undergoes, fun unended => rests.trans (still unended yields), ?_, ?_⟩
  · intro outcome ended
    cases state with
    | finished value =>
      cases ended
      change call.Concludes settings h (deeds.flatMap Deed.fails) outcome m'.now
      rw [counted]
      exact yields.2.concludes.after rests
    | fresh p => cases ended
    | waiting lock next => cases ended
  · intro draft e same ended refusals
    cases state with
    | finished value =>
      cases ended
      subst same
      have begun : m'.start = h := rests.still trivial
      have unadded := yields.2.unadded draft e rfl rfl (fewer.trans refusals)
      rw [begun] at unadded
      exact unadded
    | fresh p => cases ended
    | waiting lock next => cases ended

section

variable {x parentId : String} {type : ContainerType} {title : Option String}

theorem Call.Idles.unnamed (idles : (Call.create (.new x parentId type title)).Idles h h') :
    (Call.create (.new "" parentId type title)).Idles h h' :=
  ⟨idles.sane, idles.shape, idles.spends, idles.still⟩

/-- A creation that ends as one that names an identifier ends as one that leaves it to be drawn. -/
theorem Call.Concludes.unnamed {fails : List FaultPoint} {outcome : Outcome}
    (concludes : (Call.create (.new x parentId type title)).Concludes settings h fails outcome h') :
    (Call.create (.new "" parentId type title)).Concludes settings h fails outcome h' := by
  have effects : ∀ reply events S, (Call.create (.new x parentId type title)).Effects settings h.store reply events S →
      (Call.create (.new "" parentId type title)).Effects settings h.store reply events S := by
    rintro reply events S ⟨c, describes, rest⟩
    exact ⟨c, describes.unnamed, rest⟩
  exact { idles := fun never => absurd trivial never
          settled := fun once => (concludes.settled once).mono effects
          verdict := fun once _ => (concludes.verdict once trivial).mono effects
          rewrites := fun _ _ => trivial
          spends := fun old => absurd trivial old
          uses := by
            rintro _ ⟨rfl⟩
            obtain ⟨fresh, -⟩ := concludes.uses _ rfl
            refine ⟨fresh.imp_right ?_, fun _ named => by cases named⟩
            rintro ⟨c, describes, rest⟩
            exact ⟨c, describes.unnamed, rest⟩ }

theorem Turn.Does.unnamed {turn : Turn} (does : turn.Does settings (.create (.new x parentId type title)) h h') :
    turn.Does settings (.create (.new "" parentId type title)) h h' where
  before := does.before
  after := does.after
  undergoes := does.undergoes
  idles unended := (does.idles unended).unnamed
  concludes outcome ended := (does.concludes outcome ended).unnamed
  unadded := by
    rintro _ e ⟨rfl⟩ ended few
    refine (does.unadded _ e rfl ended few).imp_right ?_
    rintro ⟨c, describes, unadded⟩
    exact ⟨c, describes.unnamed, unadded⟩

end

/-- What a turn does for the call with the identifier that was drawn, it does for the call. -/
theorem Turn.Does.of_drawing {turn : Turn} {drawn : List String} (does : turn.Does settings (call.drawing drawn) h h') :
    turn.Does settings call h h' := by
  by_cases unnamed : call.IsUnnamed
  · obtain ⟨parentId, type, title, rfl⟩ := unnamed
    exact does.unnamed
  · rw [Call.drawing_of_named unnamed] at does
    exact does

namespace Chronicle

variable {calls more : Nat → Option Call} {log : List Turn}

/-- Only the calls whose turns it tells matter. -/
theorem congr (chronicle : Chronicle settings calls log h)
    (same : ∀ turn ∈ log, more turn.task = calls turn.task) : Chronicle settings more log h := by
  induction chronicle with
  | start => exact .start
  | next _ known does before =>
    obtain ⟨earlier, last⟩ := List.forall_mem_append.1 same
    refine .next (before earlier) ?_ does
    rw [List.forall_mem_singleton.1 last, known]

theorem wellKept (chronicle : Chronicle settings calls log h) : h.WellKept := by
  induction chronicle with
  | start => exact ⟨MemoryStore.sane_empty, Holdings.indexed_empty⟩
  | next _ _ does before => exact does.wellKept before

/-- Each turn by itself. -/
theorem mem {turn : Turn} (chronicle : Chronicle settings calls log h) (there : turn ∈ log) :
    ∃ call h₁ h₂, calls turn.task = some call ∧ h₁.WellKept ∧ turn.Does settings call h₁ h₂ := by
  induction chronicle with
  | start => exact absurd there List.not_mem_nil
  | next earlier known does before =>
    rcases List.mem_append.1 there with old | new
    · exact before old
    · rw [List.mem_singleton.1 new]
      exact ⟨_, _, _, known, earlier.wellKept, does⟩

end Chronicle

/-- The call of each task, with the identifier that the task has drawn for it. -/
def called (orders : Nat → Option Order) (log : List Turn) (id : Nat) : Option Call :=
  (orders id).map fun order => order.call.drawing (drawnBy log id)

theorem called_of_known {orders : Nat → Option Order} {log : List Turn} {id : Nat} {order : Order}
    (known : orders id = some order) : called orders log id = some (order.call.drawing (drawnBy log id)) := by
  rw [called, known]
  rfl

/-- Later turns of a task make no difference to its call. -/
theorem System.Draws.called_append {sys : System Outcome} {orders : Nat → Option Order} {log : List Turn} {turn : Turn}
    (draws : sys.Draws settings orders log) (mem : turn ∈ log) (more : List Turn) :
    called orders (log ++ more) turn.task = called orders log turn.task := by
  obtain ⟨order, known, -⟩ := draws.draws turn mem
  rw [called_of_known known, called_of_known known, draws.drawing_append mem known]

/-- The state of a system between two turns: its past is told, and every task fits. Who has had no turn has to do with
no lock. -/
structure System.Chronicled (settings : Settings) (sys : System Outcome) (orders : Nat → Option Order)
    (log : List Turn) (h : Holdings) : Prop where
  chronicle : Chronicle settings (called orders log) log h
  holds : sys.shared.world.Holds h
  alone : Gate.Alone sys.shared.locks.hierarchy.granted
  tells : sys.Tells orders
    (fun id order task =>
      task.state.Awaits settings (order.call.drawing (drawnBy log id)) sys.shared.locks.hierarchy id h ∧
        ((∀ turn ∈ log, turn.task ≠ id) → sys.shared.locks.hierarchy.Respects id .outside))
    fun id => sys.shared.locks.hierarchy.Respects id .outside

namespace System.Chronicled

variable {sys : System Outcome} {orders : Nat → Option Order} {log : List Turn}

theorem start {world : World} (holds : world.Holds {}) :
    Chronicled settings { shared := { world } } (fun _ => none) [] {} :=
  ⟨.start, holds, fun _ mem => absurd mem List.not_mem_nil, .start fun _ _ mem => absurd mem List.not_mem_nil⟩

theorem drift {shared : Shared} (chronicled : sys.Chronicled settings orders log h)
    (drifts : sys.shared.Drifts shared) : ({ sys with shared } : System Outcome).Chronicled settings orders log h := by
  obtain ⟨chronicle, holds, alone, tells⟩ := chronicled
  rw [← drifts.locks] at alone tells
  exact ⟨chronicle, drifts.holds holds, alone, tells.tasks, tells.unborn⟩

theorem spawn {context : Context} (chronicled : sys.Chronicled settings orders log h)
    (draws : sys.Draws settings orders log) (entry : Timeline) :
    (sys.spawn context (call.program settings)).2.Chronicled settings
      (Function.update orders sys.made (some { call, context, entry })) log h := by
  have new : ∀ turn ∈ log, turn.task ≠ sys.made := (draws.begins.unborn sys.made le_rfl).2.2
  refine ⟨chronicled.chronicle.congr fun turn mem => ?_, chronicled.holds, chronicled.alone, ?_⟩
  · rw [called, called, Function.update_of_ne (new turn mem)]
  · refine chronicled.tells.spawn context _ _ fun outside => ⟨?_, fun _ => outside⟩
    rw [drawnBy_eq_nil new, Call.drawing_nil]
    exact ⟨none, outside, Call.program_abides h⟩

/-- A turn of one task. -/
theorem turn {id : Nat} {task : Task Outcome} {deeds : List Deed} {state : TaskState Outcome} {shared : Shared}
    (chronicled : sys.Chronicled settings orders log h) (draws : sys.Draws settings orders log)
    (found : sys.tasks[id]? = some task) (takes : task.Takes id sys.shared deeds state shared) :
    ∃ h', (sys.turned id task state shared).Chronicled settings orders
      (log ++ [.noted id sys.shared deeds state shared]) h' := by
  obtain ⟨order, known, awaits, outside⟩ := chronicled.tells.tasks id task found
  obtain ⟨order', known', begins⟩ := draws.begins.tasks id task found
  rw [known] at known'
  cases known'
  have wellKept := chronicled.chronicle.wellKept
  have drew : (∃ turn ∈ log, turn.task = id) → order.call.IsUnnamed → drawnBy log id ≠ [] := by
    rintro ⟨turn, mem, rfl⟩
    exact draws.drawn mem known
  obtain ⟨task', takes', awaits'⟩ := takes.drawing awaits (fun first => ⟨begins first, outside first⟩) drew
  obtain ⟨m, amid, leads, yields⟩ := takes'.spec awaits' wellKept chronicled.holds chronicled.alone
  have does := leads.does chronicled.holds amid yields
  have shape : m.guarded = false → m.now.store.contents.shape = h.store.contents.shape :=
    fun unguarded => (yields.shape unguarded).trans leads.rests.shape
  have told : Chronicle settings (called orders (log ++ [.noted id sys.shared deeds state shared])) log h :=
    chronicled.chronicle.congr fun turn mem => draws.called_append mem _
  refine ⟨m.now, .next told (called_of_known known) does, amid.holds, amid.alone, ?_⟩
  refine chronicled.tells.turned found ?_ ?_ ?_
  · intro order' known' _
    rw [known] at known'
    cases known'
    exact ⟨yields.awaits, fun apart => absurd rfl (apart _ (List.mem_append_right _ (List.mem_singleton_self _)))⟩
  · rintro other order' t ne ⟨awaits', outside'⟩
    rw [drawnBy_concat_other (Ne.symm ne)]
    constructor
    · apply awaits'.later wellKept
      · exact fun stance stands => amid.spares.others other stance ne stands
      · exact fun inside => shape (amid.apart other ne inside)
    · intro apart
      exact amid.spares.others other _ ne (outside' fun turn mem => apart turn (List.mem_append_left _ mem))
  · exact fun other ne outside => amid.spares.others other _ ne outside

/-- Each turn by itself. -/
theorem mem {turn : Turn} (chronicled : sys.Chronicled settings orders log h) (there : turn ∈ log) :
    ∃ order h₁ h₂, orders turn.task = some order ∧ h₁.WellKept ∧ turn.Does settings order.call h₁ h₂ := by
  obtain ⟨call, h₁, h₂, known, wellKept, does⟩ := chronicled.chronicle.mem there
  obtain ⟨order, found, rfl⟩ := Option.map_eq_some_iff.1 known
  exact ⟨order, h₁, h₂, found, wellKept, does.of_drawing⟩

end System.Chronicled

/-- Whatever happens, what is held came about by the turns that the log tells of. -/
theorem Course.chronicled {sys : System Outcome} {orders : Nat → Option Order} {log : List Turn}
    (course : Course settings sys orders log) : ∃ h, sys.Chronicled settings orders log h := by
  induction course with
  | start holds => exact ⟨{}, .start holds⟩
  | spawn context call earlier before =>
    obtain ⟨h, chronicled⟩ := before
    exact ⟨h, chronicled.spawn earlier.draws _⟩
  | turn earlier found takes before =>
    obtain ⟨h, chronicled⟩ := before
    exact chronicled.turn earlier.draws found takes
  | drift _ drifts before =>
    obtain ⟨h, chronicled⟩ := before
    exact ⟨h, chronicled.drift drifts⟩

end Containment
