/-
Module: Containment.Proofs.Container.Timeless
Purpose: Containers without the times of their changes. What a change makes of a container, whether it is refused,
  and what it reports does not depend on the times at which this change and earlier ones were made.
Main exports: Snapshot.timeless, Container.timeless, Record.timeless, Container.addMember_alike,
  Container.removeMember_alike, Repository.applyUpdate_alike, Record.hydrate_alike
-/
import Containment.Proofs.Container.Rules
import Containment.Repository.Lifecycle

namespace Containment

open Time

/-- The entry without its time. -/
def Member.timeless (m : Member) : Member :=
  { m with addedAt := .epoch }

/-- The properties without the value of the one that repeats the time of the last change. -/
def Metadata.timeless (metadata : Metadata) : Metadata :=
  metadata.map fun key value => if key = Container.modifiedKey then "" else value

/-- The lasting state without the times of changes. The time of the creation stays. -/
def Snapshot.timeless (s : Snapshot) : Snapshot :=
  { s with members := s.members.map Member.timeless, metadata := s.metadata.timeless, updatedAt := .epoch }

/-- The report without its time. -/
def Event.timeless (event : Event) : Event :=
  { event with timestamp := .epoch }

/-- The container without the times of changes. -/
def Container.timeless (c : Container) : Container :=
  { c with toSnapshot := c.toSnapshot.timeless, pending := c.pending.map Event.timeless }

/-- The record without the times of changes. -/
def Record.timeless (r : Record) : Record :=
  { r with container := r.container.timeless }

@[simp] theorem Member.timeless_timeless (m : Member) : m.timeless.timeless = m.timeless := rfl

@[simp] theorem Member.timeless_id (m : Member) : m.timeless.id = m.id := rfl

@[simp] theorem Event.timeless_timeless (event : Event) : event.timeless.timeless = event.timeless := rfl

namespace Metadata

variable {metadata : Metadata} {key value : String}

theorem getElem?_timeless : metadata.timeless[key]? =
    metadata[key]?.map fun value => if key = Container.modifiedKey then "" else value := by
  simp [timeless]

theorem timeless_insert : Metadata.timeless (metadata.insert key value) =
    metadata.timeless.insert key (if key = Container.modifiedKey then "" else value) := by
  apply Std.ExtTreeMap.ext_getElem?
  intro other
  simp only [getElem?_timeless, Std.ExtTreeMap.getElem?_insert, Std.LawfulEqCmp.compare_eq_iff_eq]
  by_cases same : key = other
  · simp [same]
  · simp [same]

theorem timeless_erase : Metadata.timeless (metadata.erase key) = metadata.timeless.erase key := by
  apply Std.ExtTreeMap.ext_getElem?
  intro other
  simp only [getElem?_timeless, Std.ExtTreeMap.getElem?_erase, Std.LawfulEqCmp.compare_eq_iff_eq]
  by_cases same : key = other
  · simp [same]
  · simp [same]

@[simp] theorem timeless_timeless (metadata : Metadata) : metadata.timeless.timeless = metadata.timeless := by
  apply Std.ExtTreeMap.ext_getElem?
  intro key
  simp only [getElem?_timeless, Option.map_map]
  congr 1
  funext value
  by_cases same : key = Container.modifiedKey
  · simp [same]
  · simp [same]

end Metadata

@[simp] theorem Snapshot.timeless_timeless (s : Snapshot) : s.timeless.timeless = s.timeless := by
  simp [timeless]

namespace Container

variable {c d : Container} {id key value : String} {type : MemberType} {now now' : Instant}

@[simp] theorem timeless_timeless (c : Container) : c.timeless.timeless = c.timeless := by
  simp [timeless]

/-! ### Each change in its turn

A change of a container is compared with the same change of the timeless container, made at no time. Two containers
that differ in times only are then compared with each other. -/

theorem timeless_addMember (c : Container) (now : Instant) :
    (c.addMember id type now).map timeless = (c.timeless.addMember id type .epoch).map timeless := by
  unfold addMember
  by_cases bad : (id.isEmpty || id.toList.any Text.isControl) = true
  · rw [if_pos bad, if_pos bad]
    rfl
  rw [if_neg bad, if_neg bad]
  by_cases own : id = c.id
  · simp only [if_pos own, if_pos (show id = c.timeless.id from own)]
    rfl
  simp only [if_neg own, if_neg (show ¬ id = c.timeless.id from own)]
  by_cases known : c.memberIds.contains id = true
  · simp only [if_pos known, if_pos (show c.timeless.memberIds.contains id = true from known)]
    rfl
  simp only [if_neg known, if_neg (show ¬ c.timeless.memberIds.contains id = true from known)]
  change Except.ok _ = Except.ok _
  simp [touch, queue, timeless, Snapshot.timeless, Metadata.timeless_insert, Event.ofMember, Event.timeless,
    Member.timeless]

theorem timeless_removeMember (c : Container) (now : Instant) :
    (c.removeMember id now).map (fun done => (done.1.timeless, done.2.timeless)) =
      (c.timeless.removeMember id .epoch).map fun done => (done.1.timeless, done.2.timeless) := by
  have found : c.timeless.members.find? (·.id == id) = (c.members.find? (·.id == id)).map Member.timeless :=
    List.find?_map
  have others : c.timeless.members.eraseP (·.id == id) = (c.members.eraseP (·.id == id)).map Member.timeless :=
    List.eraseP_map ..
  unfold removeMember
  by_cases unknown : (!c.memberIds.contains id) = true
  · rw [if_pos unknown, if_pos (show (!c.timeless.memberIds.contains id) = true from unknown)]
    rfl
  rw [if_neg unknown, if_neg (show ¬ (!c.timeless.memberIds.contains id) = true from unknown)]
  simp only [found, others]
  cases c.members.find? (·.id == id) with
  | none => rfl
  | some removed =>
    change Except.ok _ = Except.ok _
    simp [touch, queue, timeless, Snapshot.timeless, Metadata.timeless_insert, Event.ofMember, Event.timeless,
      Member.timeless]

theorem modifiedKey_of_not_reserved (plain : ¬ isReserved key = true) : key ≠ modifiedKey := by
  rintro rfl
  exact plain (by decide)

theorem timeless_setProperty (c : Container) (now : Instant) :
    (c.setProperty key value now).timeless = (c.timeless.setProperty key value .epoch).timeless := by
  unfold setProperty
  by_cases reserved : isReserved key = true
  · rw [if_pos reserved, if_pos reserved, timeless_timeless]
  rw [if_neg reserved, if_neg reserved]
  have plain := modifiedKey_of_not_reserved reserved
  simp [touch, queue, timeless, Snapshot.timeless, Metadata.timeless_insert, Event.timeless, Event.withProperty,
    updated, plain]

theorem timeless_removeProperty (c : Container) (now : Instant) :
    (c.removeProperty key now).2.timeless = (c.timeless.removeProperty key .epoch).2.timeless := by
  unfold removeProperty
  by_cases reserved : isReserved key = true
  · rw [if_pos reserved, if_pos reserved, timeless_timeless]
  rw [if_neg reserved, if_neg reserved]
  have plain := modifiedKey_of_not_reserved reserved
  have same : c.timeless.metadata[key]? = c.metadata[key]? := by
    change (Metadata.timeless c.metadata)[key]? = _
    rw [Metadata.getElem?_timeless]
    simp [plain]
  rw [same]
  cases c.metadata[key]? with
  | none => simp
  | some value =>
    simp [touch, queue, timeless, Snapshot.timeless, Metadata.timeless_insert, Metadata.timeless_erase,
      Event.timeless, Event.withProperty, updated]

/-! ### Containers that differ in times -/

/-- Times do not decide what becomes of an added member. -/
theorem addMember_alike (alike : c.timeless = d.timeless) :
    (c.addMember id type now).map timeless = (d.addMember id type now').map timeless := by
  rw [timeless_addMember c now, timeless_addMember d now', alike]

/-- Times do not decide what becomes of a removed member. -/
theorem removeMember_alike (alike : c.timeless = d.timeless) :
    (c.removeMember id now).map (fun done => (done.1.timeless, done.2.timeless)) =
      (d.removeMember id now').map fun done => (done.1.timeless, done.2.timeless) := by
  rw [timeless_removeMember c now, timeless_removeMember d now', alike]

/-- One change after another, none of which times decide. -/
theorem foldl_alike {α : Type} {step step' : Container → α → Container}
    (keeps : ∀ c d a, c.timeless = d.timeless → (step c a).timeless = (step' d a).timeless) (items : List α)
    (alike : c.timeless = d.timeless) : (items.foldl step c).timeless = (items.foldl step' d).timeless := by
  induction items generalizing c d with
  | nil => exact alike
  | cons a rest ih => exact ih (keeps c d a alike)

end Container

/-- Times do not decide what becomes of changed properties. -/
theorem Repository.applyUpdate_alike {c d : Container} (alike : c.timeless = d.timeless) (update : MetadataUpdate)
    (now now' : Instant) : (applyUpdate c update now).timeless = (applyUpdate d update now').timeless := by
  apply Container.foldl_alike
  · intro c d key alike
    rw [Container.timeless_removeProperty, Container.timeless_removeProperty d, alike]
  apply Container.foldl_alike
  · intro c d pair alike
    rw [Container.timeless_setProperty, Container.timeless_setProperty d, alike]
  exact alike

/-! ### Records -/

namespace Container

theorem checkMembers_timeless (id : String) (members : List Member) (seen : Std.ExtTreeSet String) :
    checkMembers id (members.map Member.timeless) seen = checkMembers id members seen := by
  induction members generalizing seen with
  | nil => rfl
  | cons m rest ih =>
    simp only [List.map_cons, checkMembers, Member.timeless_id, ih]

theorem idsOf_timeless (members : List Member) : idsOf (members.map Member.timeless) = idsOf members := by
  simp only [idsOf, List.foldl_map, Member.timeless_id]

theorem restore_timeless (s : Snapshot) : restore s.timeless = (restore s).map timeless := by
  have same : validate s.timeless = validate s := by
    simp only [validate, Snapshot.timeless, checkMembers_timeless]
  unfold restore
  rw [same]
  cases validate s with
  | error fault => rfl
  | ok u =>
    change Except.ok _ = Except.ok _
    simp [timeless, Snapshot.timeless, idsOf_timeless]

end Container

theorem Record.hydrate_timeless (r : Record) : r.timeless.hydrate = r.hydrate.map Container.timeless := by
  simp only [hydrate, toContainer, Record.timeless, Container.restore_timeless]
  cases Container.restore r.container with
  | error fault => rfl
  | ok c => rfl

/-- Whether a record can be read as a container, and as which one, is told without times. -/
theorem Record.hydrate_alike {r r' : Record} (alike : r.timeless = r'.timeless) :
    r.hydrate.map Container.timeless = r'.hydrate.map Container.timeless := by
  rw [← hydrate_timeless, ← hydrate_timeless, alike]

theorem Record.next_alike {r r' : Record} {c d : Container} (alike : r.timeless = r'.timeless)
    (alike' : c.timeless = d.timeless) : (r.next c).timeless = (r'.next d).timeless := by
  have revision : r.revision = r'.revision := show r.timeless.revision = r'.timeless.revision by rw [alike]
  have container : c.toSnapshot.timeless = d.toSnapshot.timeless := congrArg Container.toSnapshot alike'
  simp only [Record.timeless, next, revision, container]

end Containment
