/-
Module: Containment.Proofs.Cli.Verbose
Purpose: What a command that is to tell of its changes prints. What a command does and shows does not depend on the
  dispatcher that it reports to, and it hands the same reports to each. They are printed, all of them and in their order,
  if they have room in one mailbox; if there is one too many, nothing is printed at all.
Main exports: Desk.reportingTo, Step.Hands, Step.Hands.unique, Step.Oblivious, Command.oblivious_step,
  Invocation.verbose_exact
-/
import Containment.Proofs.Cli.Repairing
import Containment.Proofs.Dealings
import Containment.Proofs.Dispatch.FanOut

namespace Containment

/-! ### One dispatcher in the place of another -/

/-- The same world with another dispatcher. -/
def World.reportingTo (w : World) (dispatcher : Dispatcher) : World :=
  { w with dispatcher }

/-- The reports in a request. -/
def Effect.reports : Effect → List Event
  | .publish events => events
  | _ => []

/-- The reports that a program hands on if it runs alone. -/
def Program.reports {α : Type} (status : Option Cancellation) (p : Program α) (w : World) : List Event :=
  (p.requests status w).flatMap Effect.reports

theorem Dispatcher.dispatch_append (d : Dispatcher) (first later : List Event) :
    d.dispatch (first ++ later) = (d.dispatch first).dispatch later :=
  List.foldl_append

/-- Nobody answers differently because of the dispatcher. -/
theorem World.answer_reportingTo (w : World) (d : Dispatcher) (request : Effect) :
    (w.reportingTo d).answer request =
      ((w.answer request).1, (w.answer request).2.reportingTo (d.dispatch request.reports)) := by
  cases request with
  | store call =>
    simp only [answer, askStore, reportingTo]
    split <;> rfl
  | index call =>
    simp only [answer, askIndex, reportingTo]
    split <;> rfl
  | readClock | drawId | publish _ => rfl

/-- A program does the same whatever the dispatcher, and hands the same reports to it. -/
theorem Program.run_reportingTo {α : Type} (status : Option Cancellation) (p : Program α) (w : World) (d : Dispatcher) :
    p.run status (w.reportingTo d) =
      ((p.run status w).1, (p.run status w).2.reportingTo (d.dispatch (p.reports status w))) := by
  induction p generalizing w d with
  | done => rfl
  | effect request k ih =>
    simp only [run, World.answer_reportingTo]
    rw [ih, ← Dispatcher.dispatch_append]
    rfl
  | check k ih => exact ih _ _ _
  | acquire l m k ih => exact ih _ _ _
  | release l k ih => exact ih _ _ _

/-- One subscriber who asks for everything and has read nothing yet. -/
theorem Dispatcher.receiveAll_subscribed (capacity : Nat) (events : List Event) :
    ((((ofCapacity capacity).subscribe {}).2.dispatch events).receiveAll 0).1 =
      Mailbox.due (powerOfTwoAbove (max capacity 1)) events := by
  have supplies := ((orderly_ofCapacity capacity).supplies {}).dispatch events
  have all : events.filter ({} : EventFilter).accepts = events := List.filter_eq_self.2 fun _ _ => rfl
  rw [all] at supplies
  have attended := (Mailbox.attended_ofCapacity (max capacity 1)).deliverAll events
  have due := supplies.receiveAll attended
  rw [Mailbox.consumed_deliverAll] at due
  exact due

end Containment

namespace Containment.Cli

/-- The same desk with another dispatcher. -/
def Desk.reportingTo (desk : Desk) (dispatcher : Dispatcher) : Desk :=
  { desk with world := desk.world.reportingTo dispatcher }

namespace Step

variable {α β : Type} {desk : Desk} {x : Step α} {f : α → Step β} {events others : List Event}

/-- Whatever the dispatcher, the step does the same, and hands just these reports to it. -/
def Hands (x : Step α) (desk : Desk) (events : List Event) : Prop :=
  ∀ dispatcher, x.run (desk.reportingTo dispatcher) =
    ((x.run desk).1, (x.run desk).2.reportingTo (dispatcher.dispatch events))

/-- A reader who asks for everything finds the reports that there was room for. -/
theorem Hands.receiveAll (hands : x.Hands desk events) (capacity : Nat) :
    ((x.run (desk.reportingTo ((Dispatcher.ofCapacity capacity).subscribe {}).2)).2.world.dispatcher.receiveAll 0).1 =
      Mailbox.due (powerOfTwoAbove (max capacity 1)) events := by
  rw [hands]
  exact Dispatcher.receiveAll_subscribed capacity events

/-- There is only one answer to what is handed over: reports differ for a reader with room for all of them. -/
theorem Hands.unique (hands : x.Hands desk events) (alike : x.Hands desk others) : events = others := by
  let capacity := events.length + others.length
  have roomy : max capacity 1 ≤ powerOfTwoAbove (max capacity 1) :=
    (powerOfTwoAbove_bounds (Nat.le_max_right capacity 1)).2.1
  have same := (hands.receiveAll capacity).symm.trans (alike.receiveAll capacity)
  rw [Mailbox.due, if_neg (by omega), Mailbox.due, if_neg (by omega)] at same
  exact List.map_injective_iff.2 (fun _ _ => Receipt.event.inj) same

/-- Whatever the step begins with, there are reports that it hands to each dispatcher. -/
def Oblivious (x : Step α) : Prop :=
  ∀ desk, ∃ events, x.Hands desk events

theorem oblivious_pure (a : α) : (pure a : Step α).Oblivious :=
  fun _ => ⟨[], fun _ => rfl⟩

theorem oblivious_throw (complaint : Complaint) : (throw complaint : Step α).Oblivious :=
  fun _ => ⟨[], fun _ => rfl⟩

theorem oblivious_line (text : String) : (line text).Oblivious :=
  fun _ => ⟨[], fun _ => rfl⟩

/-- One step after another hands over the reports of both. -/
theorem Oblivious.bind (first : x.Oblivious) (second : ∀ a, (f a).Oblivious) : (x >>= f).Oblivious := by
  intro desk
  obtain ⟨events, hands⟩ := first desk
  rcases ended : x.run desk with ⟨outcome | a, later⟩
  · refine ⟨events, fun d => ?_⟩
    have ended' := hands d
    rw [ended] at ended'
    rw [run_bind_error ended', run_bind_error ended]
  · obtain ⟨others, hands'⟩ := second a later
    refine ⟨events ++ others, fun d => ?_⟩
    have ended' := hands d
    rw [ended] at ended'
    rw [run_bind ended', run_bind ended, hands', Dispatcher.dispatch_append]

/-- A step may look at the desk, as long as it does not look at the dispatcher. -/
theorem oblivious_get_bind {f : Desk → Step β} (blind : ∀ desk d, f (desk.reportingTo d) = f desk)
    (each : ∀ desk, (f desk).Oblivious) : (get >>= f).Oblivious := by
  intro desk
  obtain ⟨events, hands⟩ := each desk desk
  refine ⟨events, fun d => ?_⟩
  rw [run_bind (run_get _), run_bind (run_get _), blind]
  exact hands d

/-- A call hands over the reports of its program. -/
theorem oblivious_call (action : Action α) : (call action).Oblivious := by
  intro desk
  refine ⟨action.run.reports desk.status desk.world, fun d => ?_⟩
  have ended : action.run.run (desk.reportingTo d).status (desk.reportingTo d).world = _ :=
    Program.run_reportingTo desk.status action.run desk.world d
  have ended' : (call action).run desk = _ := run_call rfl
  rw [run_call ended, ended']
  rfl

theorem oblivious_lines (texts : List String) : (lines texts).Oblivious := by
  induction texts with
  | nil => exact oblivious_pure ()
  | cons text rest ih => exact (oblivious_line text).bind fun _ => ih

theorem oblivious_present (json : Text.Json) (spread : Bool) (texts : List String) :
    (present json spread texts).Oblivious := by
  refine oblivious_get_bind (fun _ _ => rfl) fun desk => ?_
  cases desk.format with
  | json => exact oblivious_line _
  | text => exact oblivious_lines texts

theorem oblivious_done (text : String) : (done text).Oblivious := by
  refine oblivious_get_bind (fun _ _ => rfl) fun desk => ?_
  by_cases shown : desk.format = .text
  · simpa only [shown, if_true] using oblivious_line _
  · simpa only [shown, if_false] using oblivious_pure ()

end Step

open Step

variable {desk : Desk}

theorem oblivious_showContainer (c : Container) : (showContainer c).Oblivious :=
  oblivious_present _ _ _

theorem oblivious_addEach (container : String) (members : List String) : (addEach container members).Oblivious := by
  induction members with
  | nil => exact oblivious_pure ()
  | cons id rest ih => exact (oblivious_call _).bind fun _ => (oblivious_done _).bind fun _ => ih

theorem oblivious_removeEach (container : String) (members : List String) :
    (removeEach container members).Oblivious := by
  induction members with
  | nil => exact oblivious_pure ()
  | cons id rest ih => exact (oblivious_call _).bind fun _ => (oblivious_done _).bind fun _ => ih

theorem oblivious_verifyIndex (repair : Bool) : (verifyIndex repair).Oblivious := by
  refine (oblivious_call _).bind fun report => (oblivious_present _ _ _).bind fun _ => ?_
  cases report.isConsistent with
  | true => exact oblivious_pure ()
  | false =>
    cases repair with
    | true => exact (oblivious_call _).bind fun _ => oblivious_done _
    | false => exact oblivious_throw _

theorem oblivious_listMembers (container : String) (options : ListOptions) (all : Bool) :
    (listMembers container options all).Oblivious := by
  refine oblivious_get_bind (fun _ _ => rfl) fun desk => ?_
  cases all with
  | true => exact (oblivious_call _).bind fun _ => oblivious_present _ _ _
  | false => exact (oblivious_call _).bind fun _ => oblivious_present _ _ _

theorem oblivious_moveUnder (id target : String) : (moveUnder id target).Oblivious :=
  oblivious_get_bind (fun _ _ => rfl) fun _ =>
    (oblivious_call _).bind fun _ => (oblivious_call _).bind fun _ => oblivious_present _ _ _

/-- No command looks at the dispatcher. -/
theorem Command.oblivious_step (command : Command) : command.step.Oblivious := by
  cases command with
  | init _ _ => exact oblivious_pure ()
  | create id parent type title =>
    exact oblivious_get_bind (fun _ _ => rfl) fun _ => (oblivious_call _).bind fun _ => oblivious_present _ _ _
  | inspect id => exact (oblivious_call _).bind oblivious_showContainer
  | delete id => exact (oblivious_call _).bind fun _ => oblivious_done _
  | annotate id set unset =>
    rw [step]
    split
    · exact (oblivious_throw _).bind fun _ => (oblivious_call _).bind oblivious_showContainer
    · exact (oblivious_call _).bind oblivious_showContainer
  | add container members => exact oblivious_addEach container members
  | remove container members => exact oblivious_removeEach container members
  | list container offset limit sort type all => exact oblivious_listMembers container _ all
  | children id => exact (oblivious_call _).bind fun _ => oblivious_present _ _ _
  | path id =>
    exact oblivious_get_bind (fun _ _ => rfl) fun _ => (oblivious_call _).bind fun _ => oblivious_present _ _ _
  | find target => exact (oblivious_call _).bind oblivious_showContainer
  | move id parent toRoot =>
    cases parent <;> cases toRoot
    · exact oblivious_throw _
    · exact oblivious_moveUnder id ""
    · exact oblivious_moveUnder id _
    · exact oblivious_throw _
  | rebuild id =>
    cases id with
    | none => exact (oblivious_call _).bind fun _ => oblivious_present _ _ _
    | some id => exact (oblivious_call _).bind fun _ => oblivious_present _ _ _
  | verify repair => exact oblivious_verifyIndex repair

/-! ### What is printed -/

/-- The first receipt that is no report ends the printing, and a note of what is lost comes before all reports. -/
theorem eventLines_due (room : Nat) (events : List Event) :
    eventLines (Mailbox.due room events) = if events.length ≤ room then events.map eventLine else [] := by
  have all : ∀ events : List Event, eventLines (events.map .event) = events.map eventLine := by
    intro events
    induction events with
    | nil => rfl
    | cons event rest ih => exact congrArg (eventLine event :: ·) ih
  rw [Mailbox.due]
  split
  · next late => exact (if_neg (Nat.not_le_of_lt late)).symm
  · next fits => rw [if_pos (Nat.le_of_not_lt fits), all]

/-- A configuration that is loaded keeps the rules. -/
theorem validate_of_loadConfig {ws : Workspace} {path : String} {config : Config}
    (loaded : ws.loadConfig path = .ok config) : config.validate = .ok () := by
  rw [Workspace.loadConfig] at loaded
  split at loaded
  · cases loaded
  · split at loaded
    · next source _ =>
      rw [Config.ofToml] at loaded
      split at loaded
      · next config' _ =>
        cases kept : config'.validate with
        | ok _ =>
          rw [kept] at loaded
          cases loaded
          exact kept
        | error fault =>
          rw [kept] at loaded
          cases loaded
      · cases loaded
    · cases loaded

/-- So there is room for a report. -/
theorem one_le_eventCapacity {config : Config} (valid : config.validate = .ok ()) : 1 ≤ config.eventCapacity := by
  refine Nat.pos_of_ne_zero fun zero => ?_
  simp only [Config.validate, zero, if_true] at valid
  repeat' split at valid
  all_goals cases valid

/-- With a subscriber who asks for everything, what was handed over is printed at the end. -/
theorem Invocation.stderr_runIn {inv : Invocation} {config : Config} {origin : Origin} {index : Index} {ws : Workspace}
    {dispatcher : Dispatcher} {events : List Event} (verbose : inv.verbose = true)
    (hands : inv.command.step.Hands (inv.desk config origin index ws dispatcher) events) :
    (inv.runIn config origin index ws).stderr =
      eventLines (Mailbox.due (powerOfTwoAbove (max config.eventCapacity 1)) events) := by
  rw [← hands.receiveAll, runIn, verbose]
  rfl

/-- What reaches the command, once the configuration is loaded and the index opened. -/
theorem Invocation.stderr_run {inv : Invocation} {config : Config} {index : Index} {ws : Workspace}
    {dispatcher : Dispatcher} {events : List Event} (verbose : inv.verbose = true)
    (loaded : ws.loadConfig inv.config = .ok config) (opened : (ws.prepare config).openIndex config = .ok index)
    {origin : Origin}
    (hands : inv.command.step.Hands (inv.desk config origin index (ws.prepare config) dispatcher) events) :
    (inv.run origin ws).stderr =
      eventLines (Mailbox.due (powerOfTwoAbove (max config.eventCapacity 1)) events) := by
  cases named : inv.command with
  | init dataDir force =>
    -- Nothing is handed over, and no repository is opened.
    rw [named] at hands
    have nothing : events = [] := hands.unique fun _ => rfl
    rw [run, named, nothing]
    simp only [writeDefaults]
    split
    · rfl
    · split
      · rfl
      · split <;> rfl
  | _ =>
    rw [run, named]
    simp only [loaded, opened]
    exact stderr_runIn verbose hands

/-- **All that was reported is printed, or nothing is.** A command line asks to be told of changes, and its configuration
can be loaded and its index be opened. Then there is just one list of reports that the command hands to each dispatcher.
If there are no more of them than the capacity in the configuration, rounded up to a power of two, they are printed in
their order; if there are more, not even those are printed that are still in the mailbox. -/
theorem Invocation.verbose_exact {inv : Invocation} {ws : Workspace} {config : Config} {index : Index}
    (verbose : inv.verbose = true) (loaded : ws.loadConfig inv.config = .ok config)
    (opened : (ws.prepare config).openIndex config = .ok index) (origin : Origin) :
    let desk := inv.desk config origin index (ws.prepare config) (.ofCapacity config.eventCapacity)
    let room := powerOfTwoAbove config.eventCapacity
    (∃ exponent, room = 2 ^ exponent) ∧ config.eventCapacity ≤ room ∧ room < 2 * config.eventCapacity ∧
    ∃ events, inv.command.step.Hands desk events ∧ (∀ others, inv.command.step.Hands desk others → others = events) ∧
      (events.length ≤ room → (inv.run origin ws).stderr = events.map eventLine) ∧
      (room < events.length → (inv.run origin ws).stderr = []) := by
  intro desk room
  have positive := one_le_eventCapacity (validate_of_loadConfig loaded)
  obtain ⟨power, least, below⟩ := powerOfTwoAbove_bounds positive
  obtain ⟨events, hands⟩ := inv.command.oblivious_step desk
  have printed := stderr_run verbose loaded opened hands
  rw [Nat.max_eq_left positive, eventLines_due] at printed
  refine ⟨power, least, below, events, hands, fun others alike => alike.unique hands, fun fits => ?_, fun late => ?_⟩
  · rw [printed, if_pos fits]
  · rw [printed, if_neg (Nat.not_le_of_lt late)]

/-- A configuration that keeps everything in memory, with this much room for reports. -/
def fleetingConfig (capacity : Nat) : Config :=
  { Config.inMemory with eventCapacity := capacity }

/-- Its file. -/
def fleetingFiles (capacity : String) : Workspace :=
  Workspace.write {} "ldp.toml" (Text.Utf8.encode
    ("event_channel_capacity = " ++ capacity ++ "\n[store]\nbackend = \"memory\"\n[index]\nbackend = \"memory\"\n"))

/-- A container is created and given a title: two changes. -/
def titledCreation : Invocation :=
  { command := .create (some "a") "" .basic (some "t"), verbose := true }

/-- There is room for both. -/
theorem titledCreation_printed :
    (titledCreation.run default (fleetingFiles "2")).stderr = ["event container_created a", "event container_updated a"] ∧
      ∃ events, titledCreation.command.step.Hands (titledCreation.desk (fleetingConfig 2) default .empty
          ((fleetingFiles "2").prepare (fleetingConfig 2)) (.ofCapacity 2)) events ∧
        (titledCreation.run default (fleetingFiles "2")).stderr = events.map eventLine := by
  have loaded : (fleetingFiles "2").loadConfig titledCreation.config = .ok (fleetingConfig 2) := by decide +kernel
  have shown : (titledCreation.run default (fleetingFiles "2")).stderr =
      ["event container_created a", "event container_updated a"] := by decide +kernel
  obtain ⟨_, _, _, events, hands, _, all, nothing⟩ := Invocation.verbose_exact rfl loaded rfl default
  refine ⟨shown, events, hands, all (Nat.le_of_not_lt fun late => ?_)⟩
  rw [nothing late] at shown
  cases shown

/-- There is room for the second only, and it is not printed either. -/
theorem Invocation.not_verbose_buffered :
    ¬ ∀ {inv : Invocation} {ws : Workspace} {config : Config} {index : Index} {origin : Origin} {events : List Event},
      inv.verbose = true → ws.loadConfig inv.config = .ok config → (ws.prepare config).openIndex config = .ok index →
      inv.command.step.Hands (inv.desk config origin index (ws.prepare config) (.ofCapacity config.eventCapacity))
        events →
      ∃ lost, events.map eventLine = lost ++ (inv.run origin ws).stderr ∧
        (lost ≠ [] → powerOfTwoAbove config.eventCapacity ≤ (inv.run origin ws).stderr.length) := by
  intro printed
  let start := titledCreation.desk (fleetingConfig 1) default .empty ((fleetingFiles "1").prepare (fleetingConfig 1))
    (.ofCapacity 1)
  have loaded : (fleetingFiles "1").loadConfig titledCreation.config = .ok (fleetingConfig 1) := by decide +kernel
  have silent : (titledCreation.run default (fleetingFiles "1")).stderr = [] := by decide +kernel
  have told : ((titledCreation.command.step.run
      (start.reportingTo ((Dispatcher.ofCapacity 1).subscribe {}).2)).2.world.dispatcher.receiveAll 0).1.length = 2 := by
    decide +kernel
  obtain ⟨events, hands⟩ := titledCreation.command.oblivious_step start
  obtain ⟨lost, split, buffered⟩ := printed rfl loaded rfl hands
  rw [silent, List.append_nil] at split
  rw [silent] at buffered
  have none : lost = [] := by
    by_contra some
    exact absurd (buffered some) (by decide)
  rw [none] at split
  rw [hands.receiveAll, List.map_eq_nil_iff.1 split] at told
  cases told

end Containment.Cli
