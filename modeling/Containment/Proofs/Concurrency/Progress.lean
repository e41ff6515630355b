/-
Module: Containment.Proofs.Concurrency.Progress
Purpose: Many calls side by side, taking turns in any way. Whenever control passes from one to another, index and
  store agree and the stored containers form a bounded forest; and what has ended so far is as if the calls had
  been made one after the other, so that no change is lost.
Main exports: Progress, System.Sound, Progress.settle, System.Consistent, Progress.loses_nothing
-/
import Containment.Proofs.Concurrency.Serial
import Containment.Proofs.Concurrency.Turns
import Containment.Proofs.Repository.Reachable

namespace Containment

/-- What is noted of a turn: the ending of the task if it ended. -/
def TaskState.ending (id : Nat) (before after : World) : TaskState Outcome → List Ending
  | .finished outcome => [{ task := id, outcome, before := before.store, after := after.store }]
  | .fresh _ | .waiting _ _ => []

/-- The system once a task has taken a turn. -/
def System.turned {α : Type} (sys : System α) (id : Nat) (task : Task α) (state : TaskState α) (shared : Shared) :
    System α :=
  { sys with shared, tasks := sys.tasks.insert id { task with state } }

/-- All ways in which tasks can proceed that started on an empty repository in memory without planted faults. Any
task may begin at any time, in any context; any task may take a turn at any time; and all but the store, the index
and the locks may change in between. `calls` names the call of each task, and the log lists the endings. -/
inductive Progress (settings : Settings) : System Outcome → (Nat → Option Call) → List Ending → Prop
  | start {world : World} : world.Holds {} → world.faults = [] →
      Progress settings { shared := { world } } (fun _ => none) []
  | spawn {sys : System Outcome} {calls : Nat → Option Call} {log : List Ending} (context : Context)
      (call : Call) : Progress settings sys calls log → call.IsOrdinary →
        Progress settings (sys.spawn context (call.program settings)).2
          (Function.update calls sys.made (some call)) log
  | turn {sys : System Outcome} {calls : Nat → Option Call} {log : List Ending} {id : Nat} {task : Task Outcome}
      {state : TaskState Outcome} {shared : Shared} :
      Progress settings sys calls log → sys.tasks[id]? = some task → task.Goes id sys.shared state shared →
        Progress settings (sys.turned id task state shared) calls
          (log ++ state.ending id sys.shared.world shared.world)
  | drift {sys : System Outcome} {calls : Nat → Option Call} {log : List Ending} {shared : Shared} :
      Progress settings sys calls log → shared.locks = sys.shared.locks →
      shared.world.store = sys.shared.world.store → shared.world.index = sys.shared.world.index →
      shared.world.faults = sys.shared.world.faults → Progress settings { sys with shared } calls log

/-! ### What holds whenever control passes -/

/-- A task that fits still fits after the turn of another one, which has respected what the task holds. -/
theorem TaskState.Fits.later {α : Type} {depth : Nat} {post : α → Moment → Prop} {gate gate' : Gate} {id : Nat}
    {h h' : Holdings} {state : TaskState α} (fits : state.Fits depth post gate id h) (orderly : h.Orderly depth)
    (stays : ∀ stance, gate.Respects id stance → gate'.Respects id stance)
    (shape : gate.Respects id (.inside .exclusive) → h'.store.contents.shape = h.store.contents.shape) :
    state.Fits depth post gate' id h' := by
  cases state with
  | fresh p =>
    obtain ⟨held, own, ready⟩ := fits
    refine ⟨held, stays _ own, ready.later ?_⟩
    rintro (rfl : held = some .exclusive)
    exact shape own
  | waiting lock next =>
    obtain ⟨held, mode, own, ready⟩ := fits
    refine ⟨held, mode, stays _ own, ready.later ?_⟩
    rintro (rfl : held = some .exclusive)
    obtain ⟨-, free, -⟩ := ready h orderly fun _ => rfl
    cases lock with
    | hierarchy =>
      have unheld : some Mode.exclusive = none := free rfl
      cases unheld
    | container name => exact shape own
  | finished value => exact stays .outside fits

/-- The state of a system between two turns: everything is in order, every task fits, and the log tells how the
store came about. -/
structure System.Sound (settings : Settings) (sys : System Outcome) (calls : Nat → Option Call) (log : List Ending)
    (h : Holdings) : Prop where
  carries : sys.shared.Carries h
  orderly : h.Orderly settings.limits.maxDepth
  serial : Serial settings calls log h.store
  tasks : ∀ id task, sys.tasks[id]? = some task → ∃ call, calls id = some call ∧
    task.state.Fits settings.limits.maxDepth (call.Closes settings) sys.shared.locks.hierarchy id h
  ended : ∀ id outcome, sys.result? id = some outcome ↔ ∃ e ∈ log, e.task = id ∧ e.outcome = outcome
  once : (log.map Ending.task).Nodup
  unborn : ∀ id, sys.made ≤ id → sys.tasks[id]? = none ∧ calls id = none ∧
    sys.shared.locks.hierarchy.Respects id .outside

/-- A call is ready to begin at any time. -/
theorem Call.program_ready {settings : Settings} {call : Call} (positive : 1 ≤ settings.limits.maxDepth)
    (ordinary : call.IsOrdinary) (h : Holdings) :
    (call.program settings).Ready settings.limits.maxDepth none h (call.Closes settings) := by
  intro h' orderly _
  apply Program.Guards.mono (Call.guards positive ordinary orderly)
  intro outcome m closes
  cases outcome with
  | ok reply => exact closes
  | error e => exact closes

theorem System.getElem?_insert (tasks : Std.ExtTreeMap Nat (Task Outcome)) (id : Nat) (task : Task Outcome)
    (other : Nat) : (tasks.insert id task)[other]? = if other = id then some task else tasks[other]? := by
  by_cases own : other = id
  · rw [if_pos own, own]
    exact Std.ExtTreeMap.getElem?_insert_self
  · rw [if_neg own]
    simp only [Std.ExtTreeMap.getElem?_insert, Std.LawfulEqCmp.compare_eq_iff_eq, if_neg (Ne.symm own)]

/-- How tasks have ended once one of them has another state. -/
theorem System.result?_insert (sys : System Outcome) (shared : Shared) (id made : Nat) (task : Task Outcome)
    (other : Nat) : System.result? { shared, tasks := sys.tasks.insert id task, made } other =
      if other = id then task.result? else sys.result? other := by
  simp only [System.result?]
  simp only [System.getElem?_insert]
  by_cases own : other = id
  · rw [if_pos own, if_pos own]
    rfl
  · rw [if_neg own, if_neg own]

namespace System.Sound

variable {settings : Settings} {sys : System Outcome} {calls : Nat → Option Call} {log : List Ending}
  {h : Holdings}

theorem start {world : World} (holds : world.Holds {}) (clean : world.faults = []) :
    Sound settings { shared := { world } } (fun _ => none) [] {} := by
  have empty : ({} : MemoryStore).contents.Forest settings.limits.maxDepth := by
    rw [MemoryStore.contents_empty]
    exact Contents.forest_empty
  have nobody : ∀ id : Nat, (∅ : Std.ExtTreeMap Nat (Task Outcome))[id]? = none :=
    fun _ => Std.ExtTreeMap.getElem?_empty
  constructor
  · exact ⟨holds, clean, fun c mem => absurd mem List.not_mem_nil⟩
  · exact ⟨MemoryStore.sane_empty, Holdings.mirrored_empty, empty⟩
  · exact .start
  · intro id task found
    rw [nobody id] at found
    cases found
  · intro id outcome
    refine ⟨fun ended => ?_, fun ⟨e, mem, _⟩ => absurd mem List.not_mem_nil⟩
    unfold System.result? at ended
    rw [nobody id] at ended
    cases ended
  · exact List.nodup_nil
  · exact fun id _ => ⟨nobody id, rfl, fun c mem => absurd mem List.not_mem_nil⟩

theorem drift {shared : Shared} (sound : sys.Sound settings calls log h) (locks : shared.locks = sys.shared.locks)
    (store : shared.world.store = sys.shared.world.store) (index : shared.world.index = sys.shared.world.index)
    (faults : shared.world.faults = sys.shared.world.faults) :
    ({ sys with shared } : System Outcome).Sound settings calls log h := by
  obtain ⟨⟨⟨stored, indexed⟩, clean, alone⟩, orderly, serial, tasks, ended, once, unborn⟩ := sound
  rw [← locks] at alone tasks unborn
  have carries : shared.Carries h := ⟨⟨store.trans stored, index.trans indexed⟩, faults.trans clean, alone⟩
  exact ⟨carries, orderly, serial, tasks, ended, once, unborn⟩

theorem spawn {context : Context} {call : Call} (sound : sys.Sound settings calls log h)
    (positive : 1 ≤ settings.limits.maxDepth) (ordinary : call.IsOrdinary) :
    (sys.spawn context (call.program settings)).2.Sound settings (Function.update calls sys.made (some call)) log
      h := by
  obtain ⟨absent, nameless, outside⟩ := sound.unborn sys.made le_rfl
  have kept : ∀ id call', calls id = some call' → Function.update calls sys.made (some call) id = some call' := by
    intro id call' known
    rw [Function.update_of_ne _ _ _]
    · exact known
    · intro same
      subst same
      rw [nameless] at known
      cases known
  constructor
  · exact ⟨sound.carries.holds, sound.carries.clean, sound.carries.alone⟩
  · exact sound.orderly
  · exact sound.serial.extend kept
  · intro id task found
    have looked : (sys.tasks.insert sys.made _)[id]? = some task := found
    rw [System.getElem?_insert] at looked
    by_cases new : id = sys.made
    · rw [if_pos new] at looked
      cases looked
      subst new
      refine ⟨call, Function.update_self .., none, outside, ?_⟩
      exact Call.program_ready positive ordinary h
    · rw [if_neg new] at looked
      obtain ⟨call', known, fits⟩ := sound.tasks id task looked
      exact ⟨call', kept id call' known, fits⟩
  · intro id outcome
    rw [← sound.ended]
    simp only [System.spawn]
    rw [result?_insert]
    by_cases new : id = sys.made
    · subst new
      unfold System.result?
      rw [if_pos rfl, absent]
      exact Iff.rfl
    · rw [if_neg new]
  · exact sound.once
  · intro id later
    have older : sys.made ≤ id := Nat.le_of_succ_le later
    obtain ⟨absent', nameless', outside'⟩ := sound.unborn id older
    have ne : id ≠ sys.made := Nat.ne_of_gt later
    refine ⟨?_, ?_, outside'⟩
    · change (sys.tasks.insert sys.made _)[id]? = none
      rw [System.getElem?_insert, if_neg ne]
      exact absent'
    · rw [Function.update_of_ne ne]
      exact nameless'

/-- What a turn of one task leaves of the others. -/
theorem others {id : Nat} {shared : Shared} {m : Moment} (sound : sys.Sound settings calls log h)
    (amid : m.Amid id h sys.shared shared)
    (shape : m.guarded = false → m.now.store.contents.shape = h.store.contents.shape) {other : Nat}
    {task : Task Outcome} (ne : other ≠ id) (found : sys.tasks[other]? = some task) :
    ∃ call, calls other = some call ∧ task.state.Fits settings.limits.maxDepth (call.Closes settings)
      shared.locks.hierarchy other m.now := by
  obtain ⟨call, known, fits⟩ := sound.tasks other task found
  refine ⟨call, known, fits.later sound.orderly ?_ ?_⟩
  · exact fun stance own => amid.spares.others other stance ne own
  · exact fun alone => shape (amid.apart other ne alone)

/-- What a turn of one task makes of the whole, once it is known what it does to the log. -/
theorem advance {id : Nat} {task : Task Outcome} {state : TaskState Outcome} {shared : Shared} {m : Moment}
    {log' : List Ending} {call : Call} (sound : sys.Sound settings calls log h)
    (found : sys.tasks[id]? = some task) (known : calls id = some call) (amid : m.Amid id h sys.shared shared)
    (orderly : m.now.Orderly settings.limits.maxDepth)
    (shape : m.guarded = false → m.now.store.contents.shape = h.store.contents.shape)
    (own : state.Fits settings.limits.maxDepth (call.Closes settings) shared.locks.hierarchy id m.now)
    (serial : Serial settings calls log' m.now.store)
    (ended : ∀ other outcome, (if other = id then Task.result? { task with state } else sys.result? other) =
      some outcome ↔ ∃ e ∈ log', e.task = other ∧ e.outcome = outcome)
    (once : (log'.map Ending.task).Nodup) :
    (sys.turned id task state shared).Sound settings calls log' m.now := by
  constructor
  · exact amid.carries
  · exact orderly
  · exact serial
  · intro other t there
    have looked : (sys.tasks.insert id { task with state })[other]? = some t := there
    rw [System.getElem?_insert] at looked
    by_cases same : other = id
    · rw [if_pos same] at looked
      cases looked
      exact ⟨call, same ▸ known, same ▸ own⟩
    · rw [if_neg same] at looked
      exact sound.others amid shape same looked
  · intro other outcome
    simp only [System.turned]
    rw [result?_insert]
    exact ended other outcome
  · exact once
  · intro other later
    obtain ⟨absent, nameless, outside⟩ := sound.unborn other later
    have ne : other ≠ id := by
      intro equal
      subst equal
      rw [absent] at found
      cases found
    refine ⟨?_, nameless, amid.spares.others other _ ne outside⟩
    change (sys.tasks.insert id { task with state })[other]? = none
    rw [System.getElem?_insert, if_neg ne]
    exact absent

/-- A turn in which the task does not end leaves the store and the log as they are. -/
theorem turn_rests {id : Nat} {task : Task Outcome} {state : TaskState Outcome} {shared : Shared} {m : Moment}
    {call : Call} (sound : sys.Sound settings calls log h) (found : sys.tasks[id]? = some task)
    (pending : sys.result? id = none) (known : calls id = some call) (amid : m.Amid id h sys.shared shared)
    (idle : m.Idle settings.limits.maxDepth) (unfinished : Task.result? { task with state } = none)
    (own : state.Fits settings.limits.maxDepth (call.Closes settings) shared.locks.hierarchy id m.now) :
    (sys.turned id task state shared).Sound settings calls log m.now := by
  have same : m.now.store = h.store := idle.untouched.trans amid.start
  apply sound.advance found known amid idle.orderly
  · exact fun _ => congrArg (fun S => S.contents.shape) same
  · exact own
  · rw [same]
    exact sound.serial
  · intro other outcome
    rw [← sound.ended]
    by_cases here : other = id
    · rw [if_pos here, unfinished, here, pending]
    · rw [if_neg here]
  · exact sound.once

/-- A turn in which the task ends adds its ending to the log. -/
theorem turn_ends {id : Nat} {task : Task Outcome} {outcome : Outcome} {shared : Shared} {m : Moment} {call : Call}
    (sound : sys.Sound settings calls log h) (found : sys.tasks[id]? = some task) (pending : sys.result? id = none)
    (known : calls id = some call) (amid : m.Amid id h sys.shared shared)
    (own : shared.locks.hierarchy.Respects id (.holding m.held)) (closes : call.Closes settings outcome m) :
    (sys.turned id task (.finished outcome) shared).Sound settings calls
      (log ++ (TaskState.finished outcome).ending id sys.shared.world shared.world) m.now := by
  obtain ⟨held, orderly, delivers, shape⟩ := closes
  rw [amid.start] at delivers shape
  rw [held] at own
  have unended : ∀ e ∈ log, e.task ≠ id := by
    intro e mem same
    have ended := (sound.ended id e.outcome).2 ⟨e, mem, same, rfl⟩
    rw [pending] at ended
    cases ended
  simp only [TaskState.ending]
  rw [sound.carries.holds.store, amid.carries.holds.store]
  apply sound.advance found known amid orderly shape
  · exact own
  · exact .next sound.serial known delivers
  · intro other result
    rw [Serial.ended_next, ← sound.ended]
    by_cases here : other = id
    · rw [if_pos here, here, pending]
      simp [Task.result?]
    · rw [if_neg here]
      simp [Ne.symm here]
  · rw [List.map_append, List.nodup_append]
    refine ⟨sound.once, List.nodup_singleton _, ?_⟩
    intro a old b new
    obtain ⟨e, mem, rfl⟩ := List.mem_map.1 old
    rw [List.mem_singleton.1 new]
    exact unended e mem

/-- A turn of one task. -/
theorem turn {id : Nat} {task : Task Outcome} {state : TaskState Outcome} {shared : Shared}
    (sound : sys.Sound settings calls log h) (found : sys.tasks[id]? = some task)
    (goes : task.Goes id sys.shared state shared) :
    ∃ h', (sys.turned id task state shared).Sound settings calls
      (log ++ state.ending id sys.shared.world shared.world) h' := by
  obtain ⟨call, known, fits⟩ := sound.tasks id task found
  obtain ⟨m, amid, rests⟩ := goes.spec fits sound.orderly sound.carries
  have pending : sys.result? id = none := by
    simp only [System.result?]
    rw [found]
    cases goes <;> rfl
  refine ⟨m.now, ?_⟩
  cases state with
  | finished outcome => exact sound.turn_ends found pending known amid rests.1 rests.2
  | fresh p =>
    rw [show (TaskState.fresh p).ending id sys.shared.world shared.world = [] from rfl, List.append_nil]
    exact sound.turn_rests found pending known amid rests.1 rfl rests.2
  | waiting lock next =>
    rw [show (TaskState.waiting lock next).ending id sys.shared.world shared.world = [] from rfl, List.append_nil]
    exact sound.turn_rests found pending known amid rests.1 rfl rests.2

end System.Sound

/-! ### The running system -/

namespace Progress

variable {settings : Settings} {sys : System Outcome} {calls : Nat → Option Call} {log : List Ending}

theorem step {sys' : System Outcome} (progress : Progress settings sys calls log)
    (stepped : sys.step? = some sys') : ∃ more, Progress settings sys' calls (log ++ more) := by
  unfold System.step? at stepped
  cases queue : sys.shared.queue with
  | nil =>
    rw [queue] at stepped
    cases stepped
  | cons id rest =>
    rw [queue] at stepped
    have drifted : Progress settings { sys with shared := { sys.shared with queue := rest } } calls log :=
      progress.drift rfl rfl rfl rfl
    cases found : sys.tasks[id]? with
    | none =>
      simp only [found] at stepped
      cases stepped
      exact ⟨[], (List.append_nil log).symm ▸ drifted⟩
    | some task =>
      simp only [found] at stepped
      cases stepped
      rcases task.resume_goes id { sys.shared with queue := rest } with same | ⟨state, shared, goes, same⟩
      · -- The task has to go on waiting, or it has ended before.
        have unchanged : sys.tasks.insert id task = sys.tasks := by
          apply Std.ExtTreeMap.ext_getElem?
          intro other
          rw [System.getElem?_insert]
          by_cases own : other = id
          · rw [if_pos own, own, found]
          · rw [if_neg own]
        rw [same, unchanged]
        exact ⟨[], (List.append_nil log).symm ▸ drifted⟩
      · rw [same]
        exact ⟨_, drifted.turn found goes⟩

theorem settleWithin (turns : Nat) (progress : Progress settings sys calls log) :
    ∃ more, Progress settings (sys.settleWithin turns) calls (log ++ more) := by
  induction turns generalizing sys log with
  | zero => exact ⟨[], (List.append_nil log).symm ▸ progress⟩
  | succ turns ih =>
    simp only [System.settleWithin]
    cases stepped : sys.step? with
    | none => exact ⟨[], (List.append_nil log).symm ▸ progress⟩
    | some sys' =>
      obtain ⟨early, next⟩ := progress.step stepped
      obtain ⟨late, rest⟩ := ih next
      exact ⟨early ++ late, List.append_assoc log early late ▸ rest⟩

theorem settle (progress : Progress settings sys calls log) :
    ∃ more, Progress settings sys.settle calls (log ++ more) :=
  progress.settleWithin System.settleTurns

/-- Letting time pass wakes those who waited long enough. -/
theorem advance (ms : Nat) (progress : Progress settings sys calls log) :
    ∃ more, Progress settings (sys.advance ms) calls (log ++ more) := by
  have drifted : Progress settings (sys.withTimeline (sys.shared.timeline.advance ms)).wakeExpired calls log :=
    progress.drift rfl rfl rfl rfl
  exact drifted.settle

/-- Cancelling a token wakes those who run under it. -/
theorem cancel (token : Token) (progress : Progress settings sys calls log) :
    ∃ more, Progress settings (sys.cancel token) calls (log ++ more) := by
  have drifted : Progress settings
      ((sys.withTimeline (sys.shared.timeline.cancel token)).wake fun task => token.isPrefixOf task.context.token)
      calls log := progress.drift rfl rfl rfl rfl
  exact drifted.settle

end Progress

/-! ### No update is lost -/

/-- What an onlooker finds between two turns. Index and store agree and the stored containers form a bounded
forest; the calls that ended did so one after the other, none of them with a spoiled write; and a record came about
by those that changed it, each applied to what the one before had left, and its revision counts them. -/
structure System.Consistent (settings : Settings) (sys : System Outcome) (calls : Nat → Option Call)
    (log : List Ending) (h : Holdings) : Prop where
  holds : sys.world.Holds h
  agrees : h.Agrees
  hierarchical : h.store.Hierarchical settings.limits.maxDepth
  serial : Serial settings calls log h.store
  ended : ∀ id outcome, sys.result? id = some outcome ↔ ∃ e ∈ log, e.task = id ∧ e.outcome = outcome
  once : (log.map Ending.task).Nodup
  unspoiled : ∀ id e, sys.result? id = some (.error e) → ¬ e.IsWriteFault
  lineage : ∀ x r, h.store.records[x]? = some r → Lineage x (log.filter fun e => e.changes x) r
  revision : ∀ x r, h.store.records[x]? = some r → r.revision = 1 + (log.filter fun e => e.changes x).length

theorem Progress.sound {settings : Settings} {sys : System Outcome} {calls : Nat → Option Call} {log : List Ending}
    (positive : 1 ≤ settings.limits.maxDepth) (progress : Progress settings sys calls log) :
    ∃ h, sys.Sound settings calls log h := by
  induction progress with
  | start holds clean => exact ⟨{}, .start holds clean⟩
  | spawn _ _ _ ordinary before =>
    obtain ⟨h, sound⟩ := before
    exact ⟨h, sound.spawn positive ordinary⟩
  | turn _ found goes before =>
    obtain ⟨h, sound⟩ := before
    exact sound.turn found goes
  | drift _ locks store index faults before =>
    obtain ⟨h, sound⟩ := before
    exact ⟨h, sound.drift locks store index faults⟩

/-- However calls take turns, no update is lost or torn. -/
theorem Progress.loses_nothing {settings : Settings} {sys : System Outcome} {calls : Nat → Option Call}
    {log : List Ending} (positive : 1 ≤ settings.limits.maxDepth) (progress : Progress settings sys calls log) :
    ∃ h, sys.Consistent settings calls log h := by
  obtain ⟨h, sound⟩ := progress.sound positive
  have lineage := fun x => (sound.serial.lineage x).1
  have hierarchical := sound.orderly.forest.hierarchical sound.orderly.sane
  have unspoiled : ∀ id e, sys.result? id = some (.error e) → ¬ e.IsWriteFault := by
    intro id e failed
    obtain ⟨entry, mem, -, same⟩ := (sound.ended id (.error e)).1 failed
    exact sound.serial.harmless entry mem e same
  have revision := fun x r found => (lineage x r found).revision
  exact ⟨h, sound.carries.holds, sound.orderly.mirrored.agrees, hierarchical, sound.serial, sound.ended,
    sound.once, unspoiled, lineage, revision⟩

/-- A container with one member. -/
def sampleSystem : System Outcome :=
  let empty : System Outcome := { shared := { world := default } }
  let created := (empty.spawn { token := [0] } ((Call.create (.new "a" "" .basic none)).program {})).2
  (created.spawn { token := [1] } ((Call.addMember "a" "b.txt").program {})).2.settle

theorem sampleSystem_progresses : ∃ calls log, Progress {} sampleSystem calls log := by
  have empty : Progress {} { shared := { world := default } } (fun _ => none) [] := .start ⟨rfl, rfl⟩ rfl
  have created := empty.spawn { token := [0] } (.create (.new "a" "" .basic none)) trivial
  obtain ⟨log, settled⟩ := (created.spawn { token := [1] } (.addMember "a" "b.txt") trivial).settle
  exact ⟨_, _, settled⟩

/-- A task that removes the member has claimed the container when another one comes to add to it and has to
wait. -/
theorem racing_tasks_consistent : ∃ sys calls log h, Progress {} sys calls log ∧ sys.Consistent {} calls log h ∧
    (h.store.records["a"]?).map Record.revision = some 4 := by
  obtain ⟨calls, log, start⟩ := sampleSystem_progresses
  have adding := start.spawn { token := [2] } (.addMember "a" "c.txt") trivial
  have removing := adding.spawn { token := [3] } (.removeMember "a" "b.txt") trivial
  have claimed := removing.turn Std.ExtTreeMap.getElem?_insert_self (.starts .waits)
  obtain ⟨more, settled⟩ := claimed.settle
  obtain ⟨h, consistent⟩ := settled.loses_nothing (by decide)
  refine ⟨_, _, _, h, settled, consistent, ?_⟩
  have stored := congrArg (fun store => (store.read "a").map (·.map Record.revision)) consistent.holds.store
  refine Except.ok.inj (stored.symm.trans ?_)
  decide +kernel

end Containment
