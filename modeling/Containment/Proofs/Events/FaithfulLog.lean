/-
Module: Containment.Proofs.Events.FaithfulLog
Purpose: The reports that a repository hands on are a faithful log. Whoever reads all of them in their order knows the
  stored containers with their kinds, parents and membership lists; a call that ends with an error is not heard of,
  and no container changes without a report that names it.
Main exports: Errand, Errand.IsLogged, Call.Effects.told, Holdings.Follows, Holdings.Follows.faithful_log
-/
import Containment.Proofs.Events.Replay
import Containment.Proofs.Repository.Calls

namespace Containment

open Containment.Action Repository
open Function (update update_of_ne)
open Time

variable {S S' : MemoryStore} {id target source : String} {time : Instant} {events : List Event}

/-! ### What the effects of calls report -/

/-- Whoever knows the containers before and hears the reports knows the containers afterwards. -/
def MemoryStore.Told (S : MemoryStore) (events : List Event) (S' : MemoryStore) : Prop :=
  S'.outlines = S.outlines.replay events

theorem Attached.told (sane : S.contents.Sane) (attached : Attached S id target time events S') :
    (∀ event ∈ events, event.containerId = target) ∧ S.Told events S' := by
  cases attached with
  | root top => exact ⟨fun _ impossible => absurd impossible List.not_mem_nil, rfl⟩
  | below proper found hydrated added =>
    obtain ⟨sound, -, idle⟩ := Record.sound_of_hydrate hydrated
    exact Record.replay_next sane found hydrated (Container.reports_of_addMember sound idle added)

theorem Detached.told (sane : S.contents.Sane) (detached : Detached S id source time events S') :
    (∀ event ∈ events, event.containerId = source) ∧ S.Told events S' := by
  cases detached with
  | unlisted => exact ⟨fun _ impossible => absurd impossible List.not_mem_nil, rfl⟩
  | listed proper found hydrated removed =>
    obtain ⟨sound, -, idle⟩ := Record.sound_of_hydrate hydrated
    exact Record.replay_next sane found hydrated (Container.reports_of_removeMember sound idle removed)

theorem Created.told {c : Container} (sane : S.contents.Sane) (unstored : c.Unstored)
    (created : Created S c events S') : S.Told events S' := by
  obtain ⟨time, parentEvents, attached, rfl⟩ := created.attached
  have sane₁ : (S.put (.first c)).contents.Sane := by
    rw [MemoryStore.contents_put]
    exact sane.put created.valid
  have later : S'.outlines = (S.put (.first c)).outlines.replay parentEvents := (attached.told sane₁).2
  have first : (S.put (.first c)).outlines = S.outlines.replay c.pending := by
    rw [unstored.replay_pending, MemoryStore.outlines_put]
    rfl
  rw [MemoryStore.Told, later, first, Outlines.replay_append]

/-- The report of the deletion comes before that of the parent. They name different containers, so the order makes no
difference to a listener. -/
theorem Deleted.told (sane : S.contents.Sane) (deleted : Deleted S id events S') : S.Told events S' := by
  obtain ⟨r, c, time, parentEvents, S₁, found, hydrated, -, detached, rfl, rfl⟩ := deleted
  obtain ⟨-, same, idle⟩ := Record.sound_of_hydrate hydrated
  obtain ⟨key, valid⟩ := sane.record found
  obtain ⟨about, told⟩ := detached.told sane
  have own : c.id = id := by
    rw [same]
    exact key
  have unnamed : ∀ event ∈ parentEvents, event.containerId ≠ id := by
    intro event mem named
    rw [about event mem] at named
    exact valid.parent_ne (named.trans key.symm)
  have gone : S.outlines.replay (c.markDeleted time).pending = update S.outlines id none := by
    rw [← own]
    simp [Container.markDeleted, Container.queue, idle, Outlines.hear, Event.tell, Event.withProperty]
  have later : S₁.outlines = S.outlines.replay parentEvents := told
  rw [MemoryStore.Told, Outlines.replay_append, gone, Outlines.replay_update unnamed, MemoryStore.outlines_retiring,
    later]

theorem Amended.told {changes : MetadataUpdate} {answer : Container} (sane : S.contents.Sane)
    (amended : Amended S id changes answer events S') : S.Told events S' := by
  obtain ⟨r, c, time, found, hydrated, rfl, -, rfl⟩ := amended
  obtain ⟨-, same, idle⟩ := Record.sound_of_hydrate hydrated
  have retouched : c.Retouched (applyUpdate c changes time) := by
    have filled := Container.retouched_foldl (fun d (pair : String × String) =>
      Container.retouched_setProperty d pair.1 pair.2 time) changes.set.toList c
    exact filled.trans (Container.retouched_foldl (fun d key => Container.retouched_removeProperty d key time) _ _)
  have quiet : S.outlines.replay (applyUpdate c changes time).pending = S.outlines := by
    obtain ⟨quiet, pending, silent⟩ := retouched.pending
    rw [pending, idle, List.nil_append]
    exact Outlines.replay_quiet silent
  rw [MemoryStore.Told, quiet]
  split
  · rfl
  · have own : (r.next (applyUpdate c changes time)).id = id := by
      change (applyUpdate c changes time).id = id
      rw [retouched.shape.id, same]
      exact (sane.record found).1
    have before : S.outlines id = some c.toSnapshot.outline := by
      rw [MemoryStore.outlines, MemoryStore.contents_eq_some found, same, Option.map_some]
    rw [MemoryStore.outlines_put, own]
    change update S.outlines id (some (applyUpdate c changes time).toSnapshot.outline) = S.outlines
    rw [retouched.outline, ← before]
    exact Function.update_eq_self id S.outlines

theorem Grown.told {classifier : Classifier} {container member : String} {added : Member} (sane : S.contents.Sane)
    (grown : Grown classifier S container member added events S') : S.Told events S' := by
  obtain ⟨r, c, c', found, hydrated, -, -, done, rfl, rfl⟩ := grown
  obtain ⟨sound, -, idle⟩ := Record.sound_of_hydrate hydrated
  exact (Record.replay_next sane found hydrated (Container.reports_of_addMember sound idle done)).2

theorem Shrunk.told {container member : String} {removed : Member} (sane : S.contents.Sane)
    (shrunk : Shrunk S container member removed events S') : S.Told events S' := by
  obtain ⟨r, c, time, c', found, hydrated, -, done, rfl, rfl⟩ := shrunk
  obtain ⟨sound, -, idle⟩ := Record.sound_of_hydrate hydrated
  exact (Record.replay_next sane found hydrated (Container.reports_of_removeMember sound idle done)).2

theorem Moved.told {answer : Container} (sane : S.contents.Sane) (moved : Moved S id target answer events S') :
    S.Told events S' := by
  cases moved with
  | stay => rfl
  | @go r c moved time events₁ events₂ S₁ S₂ found hydrated elsewhere apart done attached detached =>
    obtain ⟨sound, -, idle⟩ := Record.sound_of_hydrate hydrated
    obtain ⟨key, valid⟩ := sane.record found
    have sane₁ := attached.sane sane
    have sane₂ := detached.sane sane₁
    have fromSource : id ≠ r.parentId := by
      intro same
      exact valid.parent_ne (same.symm.trans key.symm)
    -- Both parents are other containers, so the record that the move started from is still there.
    have found₂ : S₂.records[id]? = some r := by
      rw [(detached.edits sane₁).others id fromSource, (attached.edits sane).others id apart.symm]
      exact found
    have last : (S₂.put (r.next moved)).outlines = S₂.outlines.replay moved.pending :=
      (Record.replay_next sane₂ found₂ hydrated (Container.reports_of_reparent sound idle done)).2
    have second : S₂.outlines = S₁.outlines.replay events₂ := (detached.told sane₁).2
    have first : S₁.outlines = S.outlines.replay events₁ := (attached.told sane).2
    rw [MemoryStore.Told, last, second, first, Outlines.replay_append, Outlines.replay_append]

/-! ### What callers do -/

/-- What a caller asks for: to store a container that was made before, or any other call. -/
inductive Errand where
  | store (container : Container)
  | ask (call : Call)

/-- What an errand does. -/
def Errand.action (settings : Settings) : Errand → Action Reply
  | .store container => .container <$> Repository.create settings.limits container
  | .ask call => call.action settings

/-- The errands that are reported in full. Containers that are stored have to be new ones; one with a past could bring
members along of which no report tells. Several members are added by several errands. -/
def Errand.IsLogged : Errand → Prop
  | .store container => container.Unstored
  | .ask (.create (.restored _)) => False
  | .ask (.addMembers _ _) => False
  | .ask _ => True

/-- A drawn container that does not come from elsewhere is a new one. -/
theorem Draft.Describes.unstored {draft : Draft} {c : Container} (describes : draft.Describes c)
    (logged : (Errand.ask (.create draft)).IsLogged) : c.Unstored := by
  cases draft with
  | new id parentId type title =>
    obtain ⟨drawn, time, made, -, created, rfl⟩ := describes
    cases title with
    | none => exact .made created
    | some text => exact .set "title" text made.createdAt (.made created)
  | named id parentId typeName =>
    obtain ⟨time, made⟩ := describes
    unfold Container.createNamed at made
    cases parsed : Container.parseType typeName with
    | error e =>
      rw [parsed] at made
      cases made
    | ok type =>
      rw [parsed] at made
      exact .made made
  | restored s => exact logged.elim

theorem Errand.IsLogged.ordinary {call : Call} (logged : (Errand.ask call).IsLogged) : call.IsOrdinary := by
  cases call with
  | create draft =>
    cases draft with
    | new | named => exact trivial
    | restored s => exact logged.elim
  | addMembers container members => exact logged
  | get | contains | delete | updateMetadata | addMember | removeMember | listMembers | countMembers | drain
  | nextBatch | children | parent | path | find | move | rebuild | rebuildAll | verify => exact trivial

/-- The reports of a call that succeeds tell its whole effect. -/
theorem Call.Effects.told {settings : Settings} {call : Call} {reply : Reply} (sane : S.contents.Sane)
    (logged : (Errand.ask call).IsLogged) (effects : call.Effects settings S reply events S') : S.Told events S' := by
  cases call with
  | create draft =>
    obtain ⟨c, describes, -, created⟩ := effects
    exact created.told sane (describes.unstored logged)
  | delete id => exact effects.2.told sane
  | updateMetadata id changes =>
    obtain ⟨c, -, amended⟩ := effects
    exact amended.told sane
  | addMember container member =>
    obtain ⟨m, -, grown⟩ := effects
    exact grown.told sane
  | removeMember container member =>
    obtain ⟨m, -, shrunk⟩ := effects
    exact shrunk.told sane
  | move id target =>
    obtain ⟨c, -, moved⟩ := effects
    exact moved.told sane
  | addMembers container members => exact effects.elim
  | get | contains | listMembers | countMembers | drain | nextBatch | children | parent | path | find | rebuild
  | rebuildAll | verify =>
    obtain ⟨rfl, rfl⟩ := effects
    rfl

/-- How an errand ends: with an effect that its reports tell in full, or with an error that leaves nothing to tell. -/
theorem Errand.ensures {settings : Settings} {h : Holdings} {errand : Errand} (sane : h.store.contents.Sane)
    (logged : errand.IsLogged) :
    (errand.action settings).Ensures h (Verdict h fun _ events S' =>
      S'.contents.Sane ∧ h.store.Told events S') := by
  cases errand with
  | store c =>
    change (Reply.container <$> create settings.limits c).Ensures h _
    apply ensures_verdict_reply (ensures_create sane logged.members)
    intro answer events S' given
    rcases given with ⟨-, created, -⟩
    exact ⟨created.sane sane, created.told sane logged⟩
  | ask call =>
    change (call.action settings).Ensures h _
    apply ensures_verdict_mono (Call.ensures logged.ordinary sane)
    intro reply events S' given
    rcases given with ⟨effects, -⟩
    exact ⟨effects.sane sane, effects.told sane logged⟩

/-! ### Whole runs -/

/-- Errands one after the other lead here from an empty repository, each in whatever context. No request to the store
fails on the way. -/
inductive Holdings.Follows (settings : Settings) : Holdings → Prop
  | start (index : Index) : Follows settings { index }
  | errand {h h' : Holdings} {errand : Errand} {fails : List FaultPoint} {outcome : Outcome} :
      Follows settings h → errand.IsLogged → (∀ point ∈ fails, point.isIndex) →
        (errand.action settings).Runs h fails outcome h' → Follows settings h'

variable {settings : Settings} {h h' : Holdings} {errand : Errand} {fails : List FaultPoint} {outcome : Outcome}

/-- One more errand is told by the reports that it adds to the log, and an error adds none. -/
theorem Errand.told (sane : h.store.contents.Sane) (logged : errand.IsLogged) (index : ∀ point ∈ fails, point.isIndex)
    (run : (errand.action settings).Runs h fails outcome h') :
    h'.store.contents.Sane ∧ ∃ events, h'.published = h.published ++ events ∧ h.store.Told events h'.store ∧
      ∀ e, outcome = .error e → events = [] := by
  have verdict := Errand.ensures sane logged fails outcome h' run
  cases outcome with
  | ok reply =>
    obtain ⟨events, ⟨sane', told⟩, published, -⟩ := verdict
    exact ⟨sane', events, published, told, fun _ impossible => by cases impossible⟩
  | error e =>
    have same : h'.store.outlines = h.store.outlines := MemoryStore.outlines_congr (verdict.contents index).contents
    exact ⟨verdict.sane, [], by rw [verdict.published, List.append_nil], same, fun _ _ => rfl⟩

/-- Whatever was done, the log tells the stored containers. -/
theorem Holdings.Follows.told (follows : h.Follows settings) :
    h.store.contents.Sane ∧ h.store.outlines = Outlines.replay (fun _ => none) h.published := by
  induction follows with
  | start index =>
    constructor
    · exact MemoryStore.sane_empty
    · funext id
      simp [MemoryStore.outlines, MemoryStore.contents_empty]
  | errand _ logged index run ih =>
    obtain ⟨sane, known⟩ := ih
    obtain ⟨sane', events, published, told, -⟩ := Errand.told sane logged index run
    constructor
    · exact sane'
    · rw [MemoryStore.Told] at told
      rw [told, known, published, Outlines.replay_append]

/-- The world after some errands one after the other, each in a context of its own. -/
def World.afterErrands (settings : Settings) (w : World) (errands : List (Option Cancellation × Errand)) : World :=
  errands.foldl (fun w (status, errand) => ((errand.action settings).run.run status w).2) w

/-- A world without planted faults goes through such states only. -/
theorem World.Holds.follows_after {w : World} (errands : List (Option Cancellation × Errand))
    (logged : ∀ entry ∈ errands, entry.2.IsLogged) (holds : w.Holds h) (clean : w.faults = [])
    (follows : h.Follows settings) : ∃ h', (w.afterErrands settings errands).Holds h' ∧ h'.Follows settings := by
  induction errands generalizing w h with
  | nil => exact ⟨h, holds, follows⟩
  | cons entry rest ih =>
    obtain ⟨h₁, run, holds₁, clean₁⟩ := Program.run_undisturbed entry.1 (entry.2.action settings).run holds clean
    have next : h₁.Follows settings :=
      .errand follows (logged entry List.mem_cons_self) (fun _ mem => absurd mem List.not_mem_nil) run
    exact ih (fun other mem => logged other (List.mem_cons_of_mem entry mem)) holds₁ clean₁ next

/-- The reports handed on since the repository was empty are a faithful log: replayed in their order they give just
the stored containers, with their kinds, parents and membership lists. One more errand adds its reports at the end, an
error adds none and changes none of this, and each container of which the log would tell something else is named in
them. -/
theorem Holdings.Follows.faithful_log (follows : h.Follows settings) :
    Outlines.replay (fun _ => none) h.published = h.store.outlines ∧
      ∀ (errand : Errand) (fails : List FaultPoint) (outcome : Outcome) (h' : Holdings), errand.IsLogged →
        (∀ point ∈ fails, point.isIndex) → (errand.action settings).Runs h fails outcome h' →
          ∃ events, h'.published = h.published ++ events ∧
            (∀ e, outcome = .error e → events = [] ∧ h'.store.outlines = h.store.outlines) ∧
            ∀ id, h'.store.outlines id ≠ h.store.outlines id → ∃ event ∈ events, event.containerId = id := by
  obtain ⟨sane, known⟩ := follows.told
  constructor
  · exact known.symm
  intro errand fails outcome h' logged index run
  obtain ⟨-, events, published, told, silent⟩ := Errand.told sane logged index run
  exists events
  refine ⟨published, ?_, ?_⟩
  · intro e failed
    have none := silent e failed
    subst none
    exact ⟨rfl, told⟩
  · intro id changed
    by_contra unnamed
    push Not at unnamed
    apply changed
    rw [told]
    exact Outlines.replay_of_unnamed unnamed

/-- A container that was given a creator before it is stored, a child that gets a member and becomes a root, and a
deletion that comes too late. -/
def sampleErrands (first : Container) : List (Option Cancellation × Errand) :=
  [(none, .store (first.setProperty "creator" "anonymous" first.createdAt)),
    (none, .ask (.create (.new "b" "a" .basic none))), (none, .ask (.addMember "b" "d.txt")),
    (none, .ask (.move "b" "")), (some .cancelled, .ask (.delete "a"))]

theorem sampleErrands_told :
    ∃ first h, Container.create "a" "" .basic .epoch = .ok first ∧
      (World.afterErrands {} default (sampleErrands first)).Holds h ∧ h.Follows {} ∧
      Outlines.replay (fun _ => none) h.published = h.store.outlines := by
  cases made : Container.create "a" "" .basic .epoch with
  | error e =>
    have fine : (Container.create "a" "" .basic .epoch).toOption.isSome := by decide +kernel
    rw [made] at fine
    cases fine
  | ok first =>
    have logged : ∀ entry ∈ sampleErrands first, entry.2.IsLogged := by
      simp [sampleErrands, Errand.IsLogged, Container.Unstored.set, Container.Unstored.made made]
    obtain ⟨h, holds, follows⟩ : ∃ h, (World.afterErrands {} default (sampleErrands first)).Holds h ∧ h.Follows {} :=
      World.Holds.follows_after (sampleErrands first) logged ⟨rfl, rfl⟩ rfl (.start .empty)
    exact ⟨first, h, rfl, holds, follows, follows.faithful_log.1⟩

end Containment
