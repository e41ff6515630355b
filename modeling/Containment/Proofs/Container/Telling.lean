/-
Module: Containment.Proofs.Container.Telling
Purpose: The queue of a container misses nothing and invents nothing. A request that takes effect queues one report, every
  other request leaves the container as it is, and whoever follows the reports knows members and parent.
Main exports: Container.Handled, Container.Change.Idle, Container.Undergoes.tells, Container.queued, Container.told,
  Container.Handled.reports_all
-/
import Containment.Proofs.Container.Persistence
import Containment.Proofs.Events.Replay

namespace Containment

open Time

/-- The report is about the membership list, or tells a new parent. -/
def Event.IsStructural (event : Event) : Prop :=
  event.kind.isMembership = true ∨ event.kind = .containerUpdated ∧ (event.metadata["parent_id"]?).isSome = true

instance (event : Event) : Decidable event.IsStructural :=
  inferInstanceAs (Decidable (_ ∨ _))

/-- What is known of a container after reports about its members and parents, all others being passed over. -/
def Outline.follow (known : Option Outline) (events : List Event) : Option Outline :=
  (events.filter (·.IsStructural)).foldl (fun known event => event.tell known) known

theorem Outline.follow_append (known : Option Outline) (early late : List Event) :
    follow known (early ++ late) = follow (follow known early) late := by
  rw [follow, List.filter_append, List.foldl_append]
  rfl

theorem Outline.follow_singleton {event : Event} (structural : event.IsStructural) (known : Option Outline) :
    follow known [event] = event.tell known := by
  simp [follow, structural]

theorem Outline.follow_unstructural {event : Event} (other : ¬ event.IsStructural) (known : Option Outline) :
    follow known [event] = known := by
  simp [follow, other]

theorem Event.IsQuiet.not_isStructural {event : Event} (quiet : event.IsQuiet) : ¬ event.IsStructural := by
  rintro (membership | ⟨-, parent⟩)
  · rw [quiet.kind] at membership
    cases membership
  · rw [quiet.parent] at parent
    cases parent

namespace Container

/-- A container that was made or read back, whatever has been asked of it since. -/
inductive Handled : Container → Prop
  | made {id parentId : String} {type : ContainerType} {now : Instant} {c : Container} :
      create id parentId type now = .ok c → Handled c
  | restored {s : Snapshot} {c : Container} : restore s = .ok c → Handled c
  | changed {c : Container} (change : Change) : Handled c → Handled (c.perform change).2

/-- There is nothing to change: the property is one that the container itself maintains, or is to be taken away and is
not there. -/
def Change.Idle (c : Container) : Change → Prop
  | .setProperty key _ _ => isReserved key = true
  | .removeProperty key _ => isReserved key = true ∨ c.metadata[key]? = none
  | .addMember .. | .removeMember .. | .setTitle .. | .setDescription .. | .reparent .. | .markDeleted _
  | .takeEvents => False

/-- The reports that an answer hands out. -/
def Change.Answer.reports : Change.Answer → List Event
  | .events reports => reports
  | .done | .refused _ | .removed _ | .taken _ => []

/-- The reports that some requests queue, one after the other. -/
def queued (c : Container) (changes : List Change) : List Event :=
  (c.reactions changes).flatMap Reaction.queued

/-- The reports that are handed out on the way, and then those that wait at the end. -/
def told : Container → List Change → List Event
  | c, [] => c.pending
  | c, change :: rest => (c.perform change).1.reports ++ (c.perform change).2.told rest

variable {c c' : Container} {change : Change} {answer : Change.Answer}

theorem Handled.sound (handled : c.Handled) : c.Sound := by
  induction handled with
  | made created => exact Sound.of_create created
  | restored read => exact (Sound.of_restore read).1
  | changed change _ ih => exact (ih.perform_undergoes change).sound ih

/-! ### What one request queues -/

/-- A request that is refused, or finds nothing to change, leaves the container as it is. -/
theorem Undergoes.unmoved (step : c.Undergoes change answer c')
    (vain : (∃ e, answer = .refused e) ∨ change.Idle c) : c' = c := by
  induction step with
  | notAdd | notRemove | notSet | notErase | notReparent => rfl
  | title _ ih | description _ ih => exact ih (.inl (vain.resolve_right id))
  | set plain =>
    obtain ⟨e, impossible⟩ | reserved := vain
    · cases impossible
    · rw [Change.Idle, plain] at reserved
      cases reserved
  | erase plain found =>
    obtain ⟨e, impossible⟩ | reserved | missing := vain
    · cases impossible
    · rw [plain] at reserved
      cases reserved
    · rw [found] at missing
      cases missing
  | add | remove | reparent | markDeleted | takeEvents =>
    obtain ⟨e, impossible⟩ | idle := vain
    · cases impossible
    · cases idle

/-- A report that fits a change: it names the container, and members and parent are known from it if they were known
before. -/
structure Tells (c c' : Container) (event : Event) : Prop where
  named : event.containerId = c.id
  outline : Outline.follow (some c.toSnapshot.outline) [event] = some c'.toSnapshot.outline

theorem tells_of_quiet {event : Event} (named : event.containerId = c.id) (quiet : event.IsQuiet)
    (same : c'.toSnapshot.outline = c.toSnapshot.outline) : c.Tells c' event :=
  ⟨named, by rw [Outline.follow_unstructural quiet.not_isStructural, same]⟩

/-- Every other request queues one report, which fits what has changed. -/
theorem Undergoes.tells (step : c.Undergoes change answer c') (other : change ≠ .takeEvents)
    (effective : ¬ ((∃ e, answer = .refused e) ∨ change.Idle c)) :
    ∃ event, c'.pending = c.pending ++ [event] ∧ c.Tells c' event := by
  induction step with
  | add | remove =>
    refine ⟨_, rfl, rfl, ?_⟩
    rw [Outline.follow_singleton (.inl rfl)]
    rfl
  | @reparent parentId now ne =>
    have parent : (((∅ : Metadata).insert "previous_parent_id" c.parentId).insert "parent_id" parentId)["parent_id"]? =
        some parentId := Std.ExtTreeMap.getElem?_insert_self
    refine ⟨_, rfl, rfl, ?_⟩
    rw [Outline.follow_singleton (.inr ⟨rfl, Option.isSome_iff_exists.2 ⟨parentId, parent⟩⟩)]
    simp only [Event.tell, Event.withProperty, updated, parent, Option.map_some]
    rfl
  | set | erase => exact ⟨_, rfl, tells_of_quiet rfl (quiet_withProperty (by decide) _) rfl⟩
  | markDeleted =>
    refine ⟨_, rfl, rfl, Outline.follow_unstructural ?_ _⟩
    rintro (membership | ⟨updated, -⟩)
    · cases membership
    · cases updated
  | title _ ih | description _ ih =>
    refine ih (by intro same; cases same) ?_
    rintro (refused | reserved)
    · exact effective (.inl refused)
    · exact absurd reserved (show ¬ isReserved _ = true by decide)
  | notAdd | notRemove | notReparent => exact absurd (.inl ⟨_, rfl⟩) effective
  | notSet reserved => exact absurd (.inr reserved) effective
  | notErase idle => exact absurd (.inr idle) effective
  | takeEvents => exact absurd rfl other

/-! ### What many requests queue -/

/-- What a request queues comes behind what was queued before, unless the queue is emptied. -/
theorem Undergoes.pending (step : c.Undergoes change answer c') (other : change ≠ .takeEvents) :
    c'.pending = c.pending ++ c'.pending.drop c.pending.length := by
  by_cases vain : (∃ e, answer = .refused e) ∨ change.Idle c
  · rw [step.unmoved vain, List.drop_length, List.append_nil]
  · obtain ⟨event, queued, -⟩ := step.tells other vain
    rw [queued, List.drop_left]

theorem queued_cons (c : Container) (change : Change) (rest : List Change) :
    c.queued (change :: rest) = (c.reaction change).queued ++ (c.perform change).2.queued rest :=
  List.flatMap_cons

/-- Nothing gets lost in the queue, and nothing is handed out twice. -/
theorem Sound.told_eq (sound : c.Sound) (changes : List Change) : c.told changes = c.pending ++ c.queued changes := by
  induction changes generalizing c with
  | nil => exact (List.append_nil _).symm
  | cons change rest ih =>
    have step := sound.perform_undergoes change
    rw [told, ih (step.sound sound), queued_cons]
    by_cases other : change = .takeEvents
    · subst other
      rw [reaction_takeEvents]
      rfl
    · have silent : (c.perform change).1.reports = [] := by
        cases answered : (c.perform change).1 with
        | events reports => exact absurd answered (step.silent other reports)
        | done | refused | removed | taken => rfl
      rw [silent, List.nil_append, step.pending other, List.append_assoc]
      rfl

theorem Undergoes.follow_queued (step : c.Undergoes change answer c') (other : change ≠ .takeEvents) :
    (∀ event ∈ c'.pending.drop c.pending.length, event.containerId = c.id) ∧
      Outline.follow (some c.toSnapshot.outline) (c'.pending.drop c.pending.length) = some c'.toSnapshot.outline := by
  by_cases vain : (∃ e, answer = .refused e) ∨ change.Idle c
  · rw [step.unmoved vain, List.drop_length]
    exact ⟨fun event impossible => absurd impossible List.not_mem_nil, rfl⟩
  · obtain ⟨event, queued, tells⟩ := step.tells other vain
    rw [queued, List.drop_left]
    exact ⟨fun one mem => List.mem_singleton.1 mem ▸ tells.named, tells.outline⟩

/-- Whoever knows members and parent before some requests, and follows the reports that they queue, knows them
afterwards. -/
theorem Sound.follow_queued (sound : c.Sound) (changes : List Change) :
    (∀ event ∈ c.queued changes, event.containerId = c.id) ∧
      Outline.follow (some c.toSnapshot.outline) (c.queued changes) = some (c.after changes).toSnapshot.outline := by
  induction changes generalizing c with
  | nil => exact ⟨fun event impossible => absurd impossible List.not_mem_nil, rfl⟩
  | cons change rest ih =>
    have step := sound.perform_undergoes change
    obtain ⟨namedRest, followRest⟩ := ih (step.sound sound)
    rw [step.identity.1] at namedRest
    have first : (∀ event ∈ (c.reaction change).queued, event.containerId = c.id) ∧
        Outline.follow (some c.toSnapshot.outline) (c.reaction change).queued =
          some (c.perform change).2.toSnapshot.outline := by
      by_cases other : change = .takeEvents
      · subst other
        rw [reaction_takeEvents]
        exact ⟨fun event impossible => absurd impossible List.not_mem_nil, rfl⟩
      · exact step.follow_queued other
    rw [queued_cons]
    constructor
    · intro event mem
      exact (List.mem_append.1 mem).elim (first.1 event) (namedRest event)
    · rw [Outline.follow_append, first.2, followRest]
      rfl

/-- **The queue of a container is complete, and failures are silent.** A container that was made or read back finds in
its membership list whatever it finds in its look-up set. Whatever it refuses, and whatever finds no property to change,
leaves it as it is, queue included; every other request queues one report. The reports of any number of requests are all
handed out or still queued, in their order and none of them twice; they name the container, and whoever follows those
about members and parents comes from the outline of the container before to the outline after. -/
theorem Handled.reports_all (handled : c.Handled) :
    (∀ id ∈ c.memberIds, ∃ m, c.members.find? (·.id == id) = some m) ∧
      (∀ change, change ≠ .takeEvents →
        ((∃ e, (c.perform change).1 = .refused e) ∨ change.Idle c → (c.perform change).2 = c) ∧
          (¬ ((∃ e, (c.perform change).1 = .refused e) ∨ change.Idle c) →
            ∃ event, (c.perform change).2.pending = c.pending ++ [event])) ∧
      ∀ changes, c.told changes = c.pending ++ c.queued changes ∧
        (∀ event ∈ c.queued changes, event.containerId = c.id) ∧
        Outline.follow (some c.toSnapshot.outline) (c.queued changes) =
          some (c.after changes).toSnapshot.outline := by
  have sound := handled.sound
  refine ⟨?_, ?_, fun changes => ⟨sound.told_eq changes, sound.follow_queued changes⟩⟩
  · intro id known
    obtain ⟨m, found, -⟩ := sound.exists_find? known
    exact ⟨m, found⟩
  · intro change other
    have step := sound.perform_undergoes change
    refine ⟨step.unmoved, fun effective => ?_⟩
    obtain ⟨event, queued, -⟩ := step.tells other effective
    exact ⟨event, queued⟩

theorem Handled.reports_all_basket :
    let c := fresh "basket" "" .basic .epoch
    let changes : List Change := [.addMember "pear" .resource .epoch, .addMember "pear" .resource .epoch,
      .removeProperty "title" .epoch, .addMember "fig" .resource .epoch, .takeEvents, .reparent "shelf" .epoch,
      .removeMember "pear" .epoch, .setTitle "Fruit" .epoch]
    c.Handled ∧ c.told changes = c.pending ++ c.queued changes ∧ (c.queued changes).length = 5 ∧
      Outline.follow (some { type := .basic, parentId := "", members := [] }) (c.queued changes) =
        some { type := .basic, parentId := "shelf", members := [{ id := "fig", type := .resource, addedAt := .epoch }] } := by
  intro c changes
  have handled : c.Handled := .made (create_eq_ok_iff.2 ⟨by decide, by decide, rfl⟩)
  obtain ⟨-, -, run⟩ := handled.reports_all
  obtain ⟨told, -, follow⟩ := run changes
  exact ⟨handled, told, by decide +kernel, follow.trans (by decide +kernel)⟩

end Container

end Containment
