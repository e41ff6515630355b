/-
Module: Containment.Proofs.Events.Replay
Purpose: What reports tell of the containers when they are read in their order: which containers there are, of
  which kinds, under which parents and with which members. Each change of a container reports just what a listener
  needs to follow it.
Main exports: Outline, Event.tell, Outlines.replay, MemoryStore.outlines, Container.Retouched,
  Container.Unstored, Container.Unstored.replay_pending, Container.Reports, Record.replay_next
-/
import Containment.Proofs.Store.Contents

namespace Containment

open Function (update update_self update_of_ne update_comm update_eq_self)
open Time

/-- What reports tell of a container. -/
structure Outline where
  type : ContainerType
  parentId : String
  members : List Member
deriving DecidableEq

/-- What a report makes of the outline of the container that it names. A new container has no members yet; a member
that is added comes last, at the time of the report; a member that is removed leaves the others in their order. Other
changes are told only if they give the container a parent. -/
def Event.tell (event : Event) (known : Option Outline) : Option Outline :=
  match event.kind with
  | .containerCreated =>
    match (event.metadata["container_type"]?).bind ContainerType.ofName?, event.metadata["parent_id"]? with
    | some type, some parentId => some { type, parentId, members := [] }
    | _, _ => known
  | .containerUpdated =>
    match event.metadata["parent_id"]? with
    | some parentId => known.map fun outline => { outline with parentId }
    | none => known
  | .containerDeleted => none
  | .memberAdded =>
    match event.memberId, event.memberType with
    | some id, some type => known.map fun outline =>
        { outline with members := outline.members ++ [{ id, type, addedAt := event.timestamp }] }
    | _, _ => known
  | .memberRemoved =>
    match event.memberId with
    | some id => known.map fun outline => { outline with members := outline.members.filter (·.id ≠ id) }
    | none => known

/-- The outlines of the containers there are. -/
abbrev Outlines := String → Option Outline

namespace Outlines

/-- What a report adds to the outlines known so far. -/
def hear (known : Outlines) (event : Event) : Outlines :=
  update known event.containerId (event.tell (known event.containerId))

/-- What reports add to the outlines known so far, the first one first. -/
def replay (known : Outlines) (events : List Event) : Outlines :=
  events.foldl hear known

variable {known : Outlines} {id : String} {event : Event} {events : List Event}

@[simp]
theorem replay_nil : known.replay [] = known :=
  rfl

@[simp]
theorem replay_cons : known.replay (event :: events) = (known.hear event).replay events :=
  rfl

@[simp]
theorem replay_append (early late : List Event) : known.replay (early ++ late) = (known.replay early).replay late :=
  List.foldl_append

/-- What happens to one container may be heard before or after a report about another one. -/
theorem hear_update (ne : event.containerId ≠ id) (outline : Option Outline) :
    hear (update known id outline) event = update (known.hear event) id outline := by
  rw [hear, update_of_ne ne, hear]
  exact update_comm ne.symm ..

theorem replay_update (unnamed : ∀ event ∈ events, event.containerId ≠ id) (outline : Option Outline) :
    replay (update known id outline) events = update (known.replay events) id outline := by
  induction events generalizing known with
  | nil => rfl
  | cons event rest ih =>
    rw [replay_cons, hear_update (unnamed event List.mem_cons_self)]
    exact ih fun later mem => unnamed later (List.mem_cons_of_mem event mem)

/-- Reports that leave a container out tell nothing of it. -/
theorem replay_of_unnamed (unnamed : ∀ event ∈ events, event.containerId ≠ id) :
    known.replay events id = known id := by
  have apart : replay (update known id (known id)) events = _ := replay_update unnamed (known id)
  rw [update_eq_self] at apart
  rw [apart, update_self]

end Outlines

/-- A report of a change that keeps kind, parent and members. -/
structure Event.IsQuiet (event : Event) : Prop where
  kind : event.kind = .containerUpdated
  parent : event.metadata["parent_id"]? = none

theorem Outlines.hear_quiet {known : Outlines} {event : Event} (quiet : event.IsQuiet) :
    known.hear event = known := by
  rw [hear, Event.tell, quiet.kind, quiet.parent]
  exact update_eq_self _ known

theorem Outlines.replay_quiet {known : Outlines} {events : List Event} (quiet : ∀ event ∈ events, event.IsQuiet) :
    known.replay events = known := by
  induction events with
  | nil => rfl
  | cons event rest ih =>
    rw [replay_cons, hear_quiet (quiet event List.mem_cons_self)]
    exact ih fun later mem => quiet later (List.mem_cons_of_mem event mem)

/-- The part of a container's lasting state that reports tell of. -/
def Snapshot.outline (s : Snapshot) : Outline :=
  { type := s.type, parentId := s.parentId, members := s.members }

/-! ### The reports of a container -/

namespace Container

variable {c d e : Container} {id parentId : String} {type : ContainerType} {time : Instant}

/-- One container comes of another by changes of properties: the shape is the same, and what was reported since
is quiet. -/
structure Retouched (c d : Container) : Prop where
  shape : c.SameShape d
  pending : ∃ quiet, d.pending = c.pending ++ quiet ∧ ∀ event ∈ quiet, event.IsQuiet

theorem Retouched.refl (c : Container) : c.Retouched c := by
  constructor
  · exact ⟨rfl, rfl, rfl, rfl⟩
  · exact ⟨[], (List.append_nil _).symm, fun _ impossible => absurd impossible List.not_mem_nil⟩

theorem Retouched.trans (one : c.Retouched d) (two : d.Retouched e) : c.Retouched e := by
  obtain ⟨first, reported, quiet⟩ := one.pending
  obtain ⟨second, reported', quiet'⟩ := two.pending
  constructor
  · exact one.shape.trans two.shape
  · exists first ++ second
    constructor
    · rw [reported', reported, List.append_assoc]
    · intro event mem
      rcases List.mem_append.1 mem with early | late
      · exact quiet event early
      · exact quiet' event late

theorem Retouched.outline (retouched : c.Retouched d) : d.toSnapshot.outline = c.toSnapshot.outline := by
  obtain ⟨-, parentId, type, members⟩ := retouched.shape
  rw [Snapshot.outline, type, parentId, members, Snapshot.outline]

/-- One step after another, each of which changes properties at most. -/
theorem retouched_foldl {α : Type} {step : Container → α → Container}
    (retouches : ∀ (c : Container) (a : α), c.Retouched (step c a)) (items : List α) (c : Container) :
    c.Retouched (items.foldl step c) := by
  induction items generalizing c with
  | nil => exact .refl c
  | cons a rest ih => exact (retouches c a).trans (ih (step c a))

/-- The report of a changed property names the property, but no parent. -/
theorem quiet_withProperty {key : String} (other : key ≠ "parent_id") (value : String) :
    ((c.updated time).withProperty key value).IsQuiet := by
  constructor
  · rfl
  · change ((∅ : Metadata).insert key value)["parent_id"]? = none
    simp [other]

theorem retouched_setProperty (c : Container) (key value : String) (now : Instant) :
    c.Retouched (c.setProperty key value now) := by
  constructor
  · exact sameShape_setProperty c key value now
  · simp only [setProperty]
    split
    · exact (Retouched.refl c).pending
    · exists [(c.updated now).withProperty "set" key]
      simp [touch, queue, quiet_withProperty]

theorem retouched_removeProperty (c : Container) (key : String) (now : Instant) :
    c.Retouched (c.removeProperty key now).2 := by
  constructor
  · exact sameShape_removeProperty c key now
  · simp only [removeProperty]
    split
    · exact (Retouched.refl c).pending
    · split
      · exact (Retouched.refl c).pending
      · exists [(c.updated now).withProperty "removed" key]
        simp [touch, queue, quiet_withProperty]

/-- A container that has been made and never stored. Its properties may have been changed since. -/
inductive Unstored : Container → Prop
  | made {id parentId : String} {type : ContainerType} {now : Instant} {c : Container} :
      create id parentId type now = .ok c → Unstored c
  | set {c : Container} (key value : String) (now : Instant) :
      Unstored c → Unstored (c.setProperty key value now)
  | removed {c : Container} (key : String) (now : Instant) :
      Unstored c → Unstored (c.removeProperty key now).2

/-- A container never stored is one just made, with changed properties. -/
theorem Unstored.exists_create (unstored : c.Unstored) :
    ∃ id parentId type now made, create id parentId type now = .ok made ∧ made.Retouched c := by
  induction unstored with
  | @made id parentId type now c created => exact ⟨id, parentId, type, now, c, created, .refl c⟩
  | set key value now _ ih =>
    obtain ⟨id, parentId, type, first, made, created, retouched⟩ := ih
    exact ⟨id, parentId, type, first, made, created, retouched.trans (retouched_setProperty _ key value now)⟩
  | removed key now _ ih =>
    obtain ⟨id, parentId, type, first, made, created, retouched⟩ := ih
    exact ⟨id, parentId, type, first, made, created, retouched.trans (retouched_removeProperty _ key now)⟩

/-- A new container is empty, and one report about it is queued, which tells its kind and its parent. -/
theorem told_by_create (created : create id parentId type time = .ok c) :
    c.members = [] ∧ ∃ event, c.pending = [event] ∧ event.containerId = c.id ∧
      ∀ known, event.tell known = some c.toSnapshot.outline := by
  obtain ⟨-, -, rfl⟩ := create_eq_ok_iff.1 created
  refine ⟨rfl, _, rfl, rfl, ?_⟩
  intro known
  have kind : (((∅ : Metadata).insert "container_type" type.name).insert "parent_id" parentId)["container_type"]? =
      some type.name := by
    rw [Std.ExtTreeMap.getElem?_insert, if_neg (by decide), Std.ExtTreeMap.getElem?_insert_self]
  have parent : (((∅ : Metadata).insert "container_type" type.name).insert "parent_id" parentId)["parent_id"]? =
      some parentId := Std.ExtTreeMap.getElem?_insert_self
  simp only [Event.tell, Event.withProperty, fresh, kind, parent, Option.bind_some, ContainerType.ofName?_name,
    Snapshot.outline]

theorem Unstored.members (unstored : c.Unstored) : c.members = [] := by
  obtain ⟨_, _, _, _, made, created, retouched⟩ := unstored.exists_create
  rw [retouched.shape.members]
  exact (told_by_create created).1

/-- The reports queued in a container that was never stored tell of it as it is. -/
theorem Unstored.replay_pending (unstored : c.Unstored) (known : Outlines) :
    known.replay c.pending = update known c.id (some c.toSnapshot.outline) := by
  obtain ⟨_, _, _, _, made, created, retouched⟩ := unstored.exists_create
  obtain ⟨-, event, queued, named, told⟩ := told_by_create created
  obtain ⟨quiet, pending, silent⟩ := retouched.pending
  rw [pending, queued, Outlines.replay_append, Outlines.replay_quiet silent, retouched.shape.id, retouched.outline]
  rw [Outlines.replay_cons, Outlines.replay_nil, Outlines.hear, told, named]

/-- A container has changed, and the one report that it has queued tells a listener how. -/
structure Reports (c changed : Container) : Prop where
  own : changed.id = c.id
  told : ∃ event, changed.pending = [event] ∧ event.containerId = c.id ∧
    event.tell (some c.toSnapshot.outline) = some changed.toSnapshot.outline

theorem reports_of_reparent {moved : Container} (sound : c.Sound) (idle : c.pending = [])
    (done : c.reparent parentId time = .ok moved) : c.Reports moved := by
  obtain ⟨apart, own, -⟩ := sound.reparent done
  constructor
  · exact own
  · unfold reparent at done
    rw [if_neg apart] at done
    cases done
    exists ((c.updated time).withProperty "previous_parent_id" c.parentId).withProperty "parent_id" parentId
    simp [Event.tell, Event.withProperty, updated, touch, queue, Snapshot.outline, idle]

theorem reports_of_addMember {grown : Container} {member : String} {type : MemberType} (sound : c.Sound)
    (idle : c.pending = []) (added : c.addMember member type time = .ok grown) : c.Reports grown := by
  obtain ⟨-, -, own, parentId, kind, members, pending, -⟩ := sound.addMember added
  constructor
  · exact own
  · rw [idle] at pending
    refine ⟨_, pending, rfl, ?_⟩
    rw [Snapshot.outline, Snapshot.outline, parentId, kind, members]
    rfl

theorem reports_of_removeMember {shrunk : Container} {member : String} {removed : Member} (sound : c.Sound)
    (idle : c.pending = []) (done : c.removeMember member time = .ok (removed, shrunk)) : c.Reports shrunk := by
  obtain ⟨-, -, own, parentId, kind, members, pending, -⟩ := sound.removeMember done
  constructor
  · exact own
  · rw [idle] at pending
    refine ⟨_, pending, rfl, ?_⟩
    rw [Snapshot.outline, Snapshot.outline, parentId, kind, members]
    rfl

end Container

/-! ### The outlines of stored containers -/

namespace MemoryStore

variable {S : MemoryStore}

/-- The outlines of the stored containers. -/
def outlines (S : MemoryStore) : Outlines :=
  fun id => (S.contents id).map Snapshot.outline

theorem outlines_congr {S' : MemoryStore} (same : S'.contents = S.contents) : S'.outlines = S.outlines := by
  funext id
  exact congrArg (fun C : Contents => (C id).map Snapshot.outline) same

theorem outlines_put (r : Record) : (S.put r).outlines = Function.update S.outlines r.id (some r.container.outline) := by
  funext id
  rw [outlines, contents_put]
  by_cases same : id = r.id
  · rw [same, update_self, update_self, Option.map_some]
  · rw [update_of_ne same, update_of_ne same]
    rfl

theorem outlines_retiring (id : String) : (S.retiring id).outlines = Function.update S.outlines id none := by
  funext other
  rw [outlines, contents_retiring]
  by_cases same : other = id
  · rw [same, update_self, update_self, Option.map_none]
  · rw [update_of_ne same, update_of_ne same]
    rfl

end MemoryStore

/-- Whoever hears the one report of a changed container knows what has been stored for it. -/
theorem Record.replay_next {S : MemoryStore} {r : Record} {c changed : Container} (sane : S.contents.Sane)
    {id : String} (found : S.records[id]? = some r) (hydrated : r.hydrate = .ok c) (reports : c.Reports changed) :
    (∀ event ∈ changed.pending, event.containerId = id) ∧
      (S.put (r.next changed)).outlines = S.outlines.replay changed.pending := by
  obtain ⟨own, event, pending, named, tells⟩ := reports
  obtain ⟨-, same, -⟩ := Record.sound_of_hydrate hydrated
  have key : c.id = id := by
    rw [same]
    exact (sane.record found).1
  have before : S.outlines id = some c.toSnapshot.outline := by
    rw [MemoryStore.outlines, MemoryStore.contents_eq_some found, same, Option.map_some]
  rw [pending]
  constructor
  · intro other mem
    rw [List.mem_singleton.1 mem, named, key]
  · rw [MemoryStore.outlines_put, Outlines.replay_cons, Outlines.replay_nil, Outlines.hear, named, key, before, tells]
    rw [← key, ← own]
    rfl

end Containment
