/-
Module: Containment.Proofs.Container.Persistence
Purpose: What a container keeps under all changes, and that it can be put away at any time: a container that is restored
  from its lasting state reacts to everything as the one that was put away would have.
Main exports: Container.Orderly, Container.Change.enroll, Container.Undergoes.enroll, Container.Orderly.after,
  Container.behind, Container.reactions, Container.Sound.restore_toSnapshot, Container.persists
-/
import Containment.Proofs.Container.Changes
import Containment.Proofs.Maps

namespace Containment

open Time

namespace Container

/-- A container that keeps the rules, lists under proper names only, and repeats its two times in its properties. -/
structure Orderly (c : Container) : Prop extends c.Sound where
  named : ∀ m ∈ c.members, IsMemberName m.id
  created : c.metadata[createdKey]? = some c.createdAt.toOffsetText
  modified : c.metadata[modifiedKey]? = some c.updatedAt.toOffsetText

/-- What a request makes of a list of members that is kept in order and without repetitions, `own` being the name that
cannot be listed. -/
def Change.enroll (own : String) (roll : List Member) : Change → List Member
  | .addMember id type now =>
    if IsMemberName id ∧ id ≠ own ∧ ∀ m ∈ roll, m.id ≠ id then roll ++ [{ id, type, addedAt := now }] else roll
  | .removeMember id _ => roll.filter (·.id ≠ id)
  | .setProperty .. | .removeProperty .. | .setTitle .. | .setDescription .. | .reparent .. | .markDeleted _
  | .takeEvents => roll

variable {c c' : Container} {change : Change} {answer : Change.Answer}

/-! ### What is kept -/

/-- Who the container is does not change. -/
theorem Undergoes.identity (step : c.Undergoes change answer c') :
    c'.id = c.id ∧ c'.type = c.type ∧ c'.createdAt = c.createdAt := by
  induction step with
  | title _ ih | description _ ih => exact ih
  | _ => exact ⟨rfl, rfl, rfl⟩

/-- The membership list is what a list that is kept in order and without repetitions would be. -/
theorem Undergoes.enroll (step : c.Undergoes change answer c') : c'.members = change.enroll c.id c.members := by
  induction step with
  | add admits => exact (if_pos admits).symm
  | notAdd unfit => exact (if_neg unfit).symm
  | notRemove absent =>
    refine (List.filter_eq_self.2 ?_).symm
    exact fun m mem => decide_eq_true (absent m mem)
  | title _ ih | description _ ih => exact ih
  | remove | set | notSet | erase | notErase | reparent | notReparent | markDeleted | takeEvents => rfl

/-- Noting a change leaves the property alone that repeats the time of the creation, and renews the other one. -/
theorem dates_noted {event : Event} (created : c.metadata[createdKey]? = some c.createdAt.toOffsetText) :
    (c.noted event).metadata[createdKey]? = some (c.noted event).createdAt.toOffsetText ∧
      (c.noted event).metadata[modifiedKey]? = some (c.noted event).updatedAt.toOffsetText := by
  constructor
  · exact (getElem?_insert_of_ne (by decide)).trans created
  · exact Std.ExtTreeMap.getElem?_insert_self

theorem Undergoes.dates (step : c.Undergoes change answer c') (orderly : c.Orderly) :
    c'.metadata[createdKey]? = some c'.createdAt.toOffsetText ∧
      c'.metadata[modifiedKey]? = some c'.updatedAt.toOffsetText := by
  induction step with
  | add | remove | reparent => exact dates_noted orderly.created
  | @set key value now plain =>
    apply dates_noted
    exact (getElem?_insert_of_ne (isReserved_eq_false_iff.1 plain).1).trans orderly.created
  | @erase key value now plain =>
    apply dates_noted
    exact (getElem?_erase_of_ne (isReserved_eq_false_iff.1 plain).1).trans orderly.created
  | title _ ih | description _ ih => exact ih
  | notAdd | notRemove | notSet | notErase | notReparent | markDeleted | takeEvents =>
    exact ⟨orderly.created, orderly.modified⟩

/-- Only proper names come in. -/
theorem Undergoes.named (step : c.Undergoes change answer c') (named : ∀ m ∈ c.members, IsMemberName m.id) :
    ∀ m ∈ c'.members, IsMemberName m.id := by
  induction step with
  | @add id type now admits =>
    intro m mem
    rcases List.mem_append.1 mem with old | new
    · exact named m old
    · rw [List.mem_singleton.1 new]
      exact admits.1
  | remove => exact fun m mem => named m (List.mem_of_mem_filter mem)
  | title _ ih | description _ ih => exact ih
  | notAdd | notRemove | set | notSet | erase | notErase | reparent | notReparent | markDeleted | takeEvents =>
    exact named

theorem Undergoes.orderly (step : c.Undergoes change answer c') (orderly : c.Orderly) : c'.Orderly where
  toSound := step.sound orderly.toSound
  named := step.named orderly.named
  created := (step.dates orderly).1
  modified := (step.dates orderly).2

theorem Orderly.after (orderly : c.Orderly) (changes : List Change) : (c.after changes).Orderly := by
  induction changes generalizing c with
  | nil => exact orderly
  | cons change rest ih => exact ih ((orderly.toSound.perform_undergoes change).orderly orderly)

theorem Sound.after_identity (sound : c.Sound) (changes : List Change) :
    (c.after changes).id = c.id ∧ (c.after changes).type = c.type ∧ (c.after changes).createdAt = c.createdAt := by
  induction changes generalizing c with
  | nil => exact ⟨rfl, rfl, rfl⟩
  | cons change rest ih =>
    have step := sound.perform_undergoes change
    obtain ⟨id, type, createdAt⟩ := step.identity
    obtain ⟨id', type', createdAt'⟩ := ih (step.sound sound)
    exact ⟨id'.trans id, type'.trans type, createdAt'.trans createdAt⟩

theorem Sound.after_members (sound : c.Sound) (changes : List Change) :
    (c.after changes).members = changes.foldl (Change.enroll c.id) c.members := by
  induction changes generalizing c with
  | nil => rfl
  | cons change rest ih =>
    have step := sound.perform_undergoes change
    rw [List.foldl_cons, ← step.enroll, ← step.identity.1]
    exact ih (step.sound sound)

/-- What a new container is like. -/
theorem of_create {id parentId : String} {type : ContainerType} {now : Instant}
    (made : create id parentId type now = .ok c) :
    c.Orderly ∧ c.id = id ∧ c.type = type ∧ c.createdAt = now ∧ c.members = [] := by
  have sound := Sound.of_create made
  obtain ⟨-, -, rfl⟩ := create_eq_ok_iff.1 made
  refine ⟨⟨sound, fun m impossible => absurd impossible List.not_mem_nil, ?_, ?_⟩, rfl, rfl, rfl, rfl⟩
  · exact (getElem?_insert_of_ne (by decide)).trans Std.ExtTreeMap.getElem?_insert_self
  · exact Std.ExtTreeMap.getElem?_insert_self

/-! ### Putting a container away

What waits in the queue is the only thing that is lost. It does not matter for anything that happens later, but for the
next time that the queue is emptied. -/

/-- The container with older reports in front of those that are queued. -/
def behind (earlier : List Event) (c : Container) : Container :=
  { c with pending := earlier ++ c.pending }

/-- What can be seen of the reaction to a request: the answer, the lasting state that is left, and the reports that the
request has queued. -/
structure Reaction where
  answer : Change.Answer
  left : Snapshot
  queued : List Event

/-- The reaction to one request. -/
def reaction (c : Container) (change : Change) : Reaction :=
  { answer := (c.perform change).1
    left := (c.perform change).2.toSnapshot
    queued := (c.perform change).2.pending.drop c.pending.length }

/-- The reactions to requests, one after the other. -/
def reactions : Container → List Change → List Reaction
  | _, [] => []
  | c, change :: rest => c.reaction change :: (c.perform change).2.reactions rest

/-- The same reactions, but the reports that are handed out first have older ones in front of them. -/
def putBefore (earlier : List Event) : List Reaction → List Reaction
  | [] => []
  | seen :: rest =>
    match seen.answer with
    | .events reports => { seen with answer := .events (earlier ++ reports) } :: rest
    | .done | .refused _ | .removed _ | .taken _ => seen :: putBefore earlier rest

variable {earlier : List Event}

theorem addMember_behind (id : String) (type : MemberType) (now : Instant) :
    (c.behind earlier).addMember id type now = (c.addMember id type now).map (behind earlier) := by
  unfold addMember
  by_cases bad : (id.isEmpty || id.toList.any Text.isControl) = true
  · rw [if_pos bad, if_pos bad]
    rfl
  rw [if_neg bad, if_neg bad]
  by_cases own : id = c.id
  · rw [if_pos own, if_pos (show id = (c.behind earlier).id from own)]
    rfl
  rw [if_neg own, if_neg (show id ≠ (c.behind earlier).id from own)]
  by_cases known : c.memberIds.contains id = true
  · rw [if_pos known, if_pos (show (c.behind earlier).memberIds.contains id = true from known)]
    rfl
  · rw [if_neg known, if_neg (show ¬ (c.behind earlier).memberIds.contains id = true from known)]
    simp only [behind, touch, queue, Except.map, pure, Except.pure, List.append_assoc]

theorem strike_behind (id : String) (now : Instant) :
    (c.behind earlier).strike id now = ((c.strike id now).1, (c.strike id now).2.behind earlier) := by
  unfold strike
  by_cases unknown : (!c.memberIds.contains id) = true
  · rw [if_pos unknown, if_pos (show (!(c.behind earlier).memberIds.contains id) = true from unknown)]
    rfl
  · rw [if_neg unknown, if_neg (show ¬ (!(c.behind earlier).memberIds.contains id) = true from unknown)]
    cases found : c.members.find? (·.id == id) with
    | none => simp only [behind, found]
    | some removed => simp only [behind, touch, queue, found, List.append_assoc]

theorem setProperty_behind (key value : String) (now : Instant) :
    (c.behind earlier).setProperty key value now = (c.setProperty key value now).behind earlier := by
  unfold setProperty
  split
  · rfl
  · simp only [behind, touch, queue, updated, List.append_assoc]

theorem removeProperty_behind (key : String) (now : Instant) :
    (c.behind earlier).removeProperty key now =
      ((c.removeProperty key now).1, (c.removeProperty key now).2.behind earlier) := by
  unfold removeProperty
  split
  · rfl
  · cases found : c.metadata[key]? with
    | none => simp only [behind, found]
    | some value => simp only [behind, touch, queue, updated, found, List.append_assoc]

theorem reparent_behind (parentId : String) (now : Instant) :
    (c.behind earlier).reparent parentId now = (c.reparent parentId now).map (behind earlier) := by
  unfold reparent
  by_cases own : parentId = c.id
  · rw [if_pos own, if_pos (show parentId = (c.behind earlier).id from own)]
    rfl
  · rw [if_neg own, if_neg (show parentId ≠ (c.behind earlier).id from own)]
    simp only [behind, touch, queue, updated, Except.map, pure, Except.pure, List.append_assoc]

theorem attempt_behind (result : Except ContainerError Container) :
    (c.behind earlier).attempt (result.map (behind earlier)) =
      ((c.attempt result).1, (c.attempt result).2.behind earlier) := by
  cases result with
  | ok _ | error _ => rfl

/-- Older reports do not matter for requests other than that the queue is emptied. -/
theorem perform_behind (other : change ≠ .takeEvents) :
    (c.behind earlier).perform change = ((c.perform change).1, (c.perform change).2.behind earlier) := by
  cases change with
  | addMember id type now =>
    change (c.behind earlier).attempt ((c.behind earlier).addMember id type now) = _
    rw [addMember_behind, attempt_behind]
    rfl
  | removeMember id now =>
    simp only [perform, strike_behind]
    rcases c.strike id now with ⟨removed | fault, left⟩
    · rfl
    · rfl
  | setProperty key value now | setTitle value now | setDescription value now =>
    exact congrArg (Prod.mk _) (setProperty_behind _ value now)
  | removeProperty key now =>
    simp only [perform, removeProperty_behind]
  | reparent parentId now =>
    change (c.behind earlier).attempt ((c.behind earlier).reparent parentId now) = _
    rw [reparent_behind, attempt_behind]
    rfl
  | markDeleted now => simp only [perform, markDeleted, behind, queue, List.append_assoc]
  | takeEvents => exact absurd rfl other

/-- Reports are handed out just when the queue is emptied. -/
theorem Undergoes.silent (step : c.Undergoes change answer c') (other : change ≠ .takeEvents) (reports : List Event) :
    answer ≠ .events reports := by
  induction step with
  | takeEvents => exact absurd rfl other
  | title _ ih | description _ ih => exact ih (by intro same; cases same)
  | _ => intro same; cases same

theorem putBefore_cons {seen : Reaction} {rest : List Reaction} (silent : ∀ reports, seen.answer ≠ .events reports) :
    putBefore earlier (seen :: rest) = seen :: putBefore earlier rest := by
  rw [putBefore]
  split
  · rename_i reports handed
    exact absurd handed (silent reports)
  · rfl
  · rfl
  · rfl
  · rfl

theorem reaction_behind (other : change ≠ .takeEvents) : (c.behind earlier).reaction change = c.reaction change := by
  have queued : (earlier ++ (c.perform change).2.pending).drop (earlier ++ c.pending).length =
      (c.perform change).2.pending.drop c.pending.length := by
    rw [List.length_append, List.drop_length_add_append]
  rw [reaction, reaction, perform_behind other]
  exact congrArg _ queued

theorem reaction_takeEvents (c : Container) :
    c.reaction .takeEvents = { answer := .events c.pending, left := c.toSnapshot, queued := [] } :=
  congrArg _ List.drop_nil

/-- Older reports in the queue show only when the queue is emptied for the first time. -/
theorem Sound.reactions_behind (sound : c.Sound) (later : List Change) :
    (c.behind earlier).reactions later = putBefore earlier (c.reactions later) := by
  induction later generalizing c with
  | nil => rfl
  | cons change rest ih =>
    have step := sound.perform_undergoes change
    by_cases other : change = .takeEvents
    · subst other
      rw [reactions, reactions, reaction_takeEvents, reaction_takeEvents]
      rfl
    · rw [reactions, reactions, putBefore_cons (step.silent other), reaction_behind other, perform_behind other,
        ih (step.sound sound)]

/-- The lasting state of a container that keeps the rules can be read back. All that is missing then is what was
queued. -/
theorem Sound.restore_toSnapshot (sound : c.Sound) : restore c.toSnapshot = .ok { c with pending := [] } := by
  have lookup : c.memberIds = idsOf c.members := by
    apply Std.ExtTreeSet.ext_mem
    intro id
    rw [sound.mem_memberIds, mem_idsOf]
  refine restore_eq_ok_iff.2 ⟨sound.valid, ?_⟩
  rw [← lookup]

/-- Through all changes a new container keeps the rules and its identity, its look-up set fits the membership list,
that list is what one kept in order and without repetitions would be, and its times stand in its properties. At any time
its lasting state can be read back; the container that comes of it has nothing queued, and reacts to whatever is asked
of it later as the container itself would, which hands out in addition, and once, the reports that were queued when
the two parted. -/
theorem persists {id parentId : String} {type : ContainerType} {now : Instant}
    (made : create id parentId type now = .ok c) (changes : List Change) :
    validate (c.after changes).toSnapshot = .ok () ∧ (c.after changes).Orderly ∧
      (c.after changes).id = id ∧ (c.after changes).type = type ∧ (c.after changes).createdAt = now ∧
      (c.after changes).members = changes.foldl (Change.enroll id) [] ∧
      ∃ restored, restore (c.after changes).toSnapshot = .ok restored ∧
        restored.toSnapshot = (c.after changes).toSnapshot ∧ restored.pending = [] ∧
        ∀ later, (c.after changes).reactions later = putBefore (c.after changes).pending (restored.reactions later) := by
  obtain ⟨orderly, rfl, rfl, rfl, empty⟩ := of_create made
  obtain ⟨sameId, sameType, sameTime⟩ := orderly.toSound.after_identity changes
  have roll := orderly.toSound.after_members changes
  rw [empty] at roll
  have kept := orderly.after changes
  refine ⟨validate_eq_ok_iff.2 kept.valid, kept, sameId, sameType, sameTime, roll, _, kept.toSound.restore_toSnapshot,
    rfl, rfl, ?_⟩
  intro later
  have emptied : Sound { c.after changes with pending := [] } := kept.toSound.congr ⟨rfl, rfl, rfl, rfl⟩ rfl
  rw [← emptied.reactions_behind later, behind, List.append_nil]

theorem persists_basket :
    let changes : List Change := [.addMember "pear" .resource .epoch, .addMember "fig" .resource .epoch,
      .addMember "fig" .resource .epoch, .removeMember "pear" .epoch, .setTitle "Fruit" .epoch]
    ∃ c, create "basket" "" .basic .epoch = .ok c ∧
      (c.after changes).members = [{ id := "fig", type := .resource, addedAt := .epoch }] ∧
      ∃ restored, restore (c.after changes).toSnapshot = .ok restored ∧
        ∀ later, (c.after changes).reactions later =
          putBefore (c.after changes).pending (restored.reactions later) := by
  intro changes
  obtain ⟨c, made⟩ : ∃ c, create "basket" "" .basic .epoch = .ok c := ⟨_, rfl⟩
  obtain ⟨-, -, -, -, -, roll, restored, read, -, -, alike⟩ := persists made changes
  exact ⟨c, made, roll.trans (by decide), restored, read, alike⟩

end Container

end Containment
