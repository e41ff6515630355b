/-
Module: Containment.Proofs.Repository.Effects
Purpose: What each call makes of the store when it succeeds, and what it reports, said by the steps of the
  containers that take part. Calls that only read and calls that write the index anew change nothing.
Main exports: Attached, Detached, Draft.Describes, Created, Deleted, Amended, Grown, Shrunk, Moved,
  Call.Effects, Call.IsOrdinary
-/
import Containment.Proofs.Repository.Commit
import Containment.Repository.Call

namespace Containment

open Time

/-- A container is listed in its new parent, if it has one. -/
inductive Attached (S : MemoryStore) (id target : String) (time : Instant) : List Event → MemoryStore → Prop
  | root : target = "" → Attached S id target time [] S
  | below {r : Record} {p p' : Container} : target ≠ "" → S.records[target]? = some r → r.hydrate = .ok p →
      p.addMember id .container time = .ok p' → Attached S id target time p'.pending (S.put (r.next p'))

/-- A container is struck off its parent, if it is listed there. -/
inductive Detached (S : MemoryStore) (id source : String) (time : Instant) : List Event → MemoryStore → Prop
  | unlisted : (source = "" ∨ ∀ r p, S.records[source]? = some r → r.hydrate = .ok p →
      p.containsMember id = false) → Detached S id source time [] S
  | listed {r : Record} {p p' : Container} {m : Member} : source ≠ "" → S.records[source]? = some r →
      r.hydrate = .ok p → p.removeMember id time = .ok (m, p') →
      Detached S id source time p'.pending (S.put (r.next p'))

/-- The container that a draft stands for, whatever the clock says and which identifier is drawn. -/
def Draft.Describes : Draft → Container → Prop
  | .new id parentId type title, c => ∃ drawn time made, (id ≠ "" → drawn = id) ∧
      Container.create drawn parentId type time = .ok made ∧
      c = title.elim made fun text => made.setTitle text made.createdAt
  | .named id parentId typeName, c => ∃ time, Container.createNamed id parentId typeName time = .ok c
  | .restored s, c => Container.restore s = .ok c

/-- A container whose identifier was never used is stored and listed in its parent. -/
structure Created (S : MemoryStore) (c : Container) (events : List Event) (S' : MemoryStore) : Prop where
  valid : c.toSnapshot.Valid
  absent : S.records[c.id]? = none
  unused : S.retired.contains c.id = false
  attached : ∃ time parentEvents, Attached (S.put (.first c)) c.id c.parentId time parentEvents S' ∧
    events = c.pending ++ parentEvents

/-- A container without members is struck off its parent and removed; its identifier is reserved. -/
def Deleted (S : MemoryStore) (id : String) (events : List Event) (S' : MemoryStore) : Prop :=
  ∃ r c time parentEvents S₁, S.records[id]? = some r ∧ r.hydrate = .ok c ∧ c.members = [] ∧
    Detached S id r.parentId time parentEvents S₁ ∧ S' = S₁.retiring id ∧
    events = (c.markDeleted time).pending ++ parentEvents

/-- The properties of a container are changed; nothing is written if none of them changes. -/
def Amended (S : MemoryStore) (id : String) (update : MetadataUpdate) (answer : Container)
    (events : List Event) (S' : MemoryStore) : Prop :=
  ∃ r c time, S.records[id]? = some r ∧ r.hydrate = .ok c ∧
    events = (Repository.applyUpdate c update time).pending ∧
    answer = (Repository.applyUpdate c update time).takeEvents.2 ∧
    S' = if events = [] then S else S.put (r.next (Repository.applyUpdate c update time))

/-- A member is listed at the end. Its kind is that of a container or what the classifier says. -/
def Grown (classifier : Classifier) (S : MemoryStore) (container member : String) (added : Member)
    (events : List Event) (S' : MemoryStore) : Prop :=
  ∃ r c grown, S.records[container]? = some r ∧ r.hydrate = .ok c ∧
    (added.type = .container ∨ added.type = classifier container member) ∧ added.id = member ∧
    c.addMember member added.type added.addedAt = .ok grown ∧
    events = grown.pending ∧ S' = S.put (r.next grown)

/-- A member that is no child of the container is struck off. -/
def Shrunk (S : MemoryStore) (container member : String) (removed : Member) (events : List Event)
    (S' : MemoryStore) : Prop :=
  ∃ r c time shrunk, S.records[container]? = some r ∧ r.hydrate = .ok c ∧
    (∀ child, S.records[member]? = some child → child.parentId ≠ container) ∧
    c.removeMember member time = .ok (removed, shrunk) ∧
    events = shrunk.pending ∧ S' = S.put (r.next shrunk)

/-- A container is listed in its new parent, struck off the old one, and names the new one. Where it is already,
nothing happens. -/
inductive Moved (S : MemoryStore) (id target : String) : Container → List Event → MemoryStore → Prop
  | stay {r : Record} {c : Container} : S.records[id]? = some r → r.hydrate = .ok c → r.parentId = target →
      Moved S id target c [] S
  | go {r : Record} {c moved : Container} {time : Instant} {events₁ events₂ : List Event} {S₁ S₂ : MemoryStore} :
      S.records[id]? = some r → r.hydrate = .ok c → r.parentId ≠ target → target ≠ id →
      c.reparent target time = .ok moved → Attached S id target time events₁ S₁ →
      Detached S₁ id r.parentId time events₂ S₂ →
      Moved S id target moved.takeEvents.2 (events₁ ++ events₂ ++ moved.pending) (S₂.put (r.next moved))

/-- The calls that change at most one thing, and creations of containers without members. -/
def Call.IsOrdinary : Call → Prop
  | .create (.restored s) => s.members = []
  | .addMembers _ _ => False
  | _ => True

/-- What a call that succeeds makes of the store, what it answers and what it reports. A call that adds several
members one by one is no single change and has no place here. -/
def Call.Effects (settings : Settings) :
    Call → MemoryStore → Reply → List Event → MemoryStore → Prop
  | .create draft, S, reply, events, S' =>
      ∃ c, draft.Describes c ∧ reply = .container c.takeEvents.2 ∧ Created S c events S'
  | .delete id, S, reply, events, S' => reply = .done ∧ Deleted S id events S'
  | .updateMetadata id update, S, reply, events, S' =>
      ∃ c, reply = .container c ∧ Amended S id update c events S'
  | .addMember container member, S, reply, events, S' =>
      ∃ m, reply = .member m ∧ Grown settings.classifier S container member m events S'
  | .removeMember container member, S, reply, events, S' =>
      ∃ m, reply = .member m ∧ Shrunk S container member m events S'
  | .move id target, S, reply, events, S' => ∃ c, reply = .container c ∧ Moved S id target c events S'
  | .addMembers _ _, _, _, _, _ => False
  | _, S, _, events, S' => events = [] ∧ S' = S

/-! ### The writes behind the effects -/

namespace Prepared

variable {S : MemoryStore} {id : String} {r : Record} {c : Container}

/-- Listing a member is ready to be written. -/
theorem of_add (sane : S.contents.Sane) (found : S.records[id]? = some r) (hydrated : r.hydrate = .ok c)
    {member : String} {type : MemberType} {time : Instant} {grown : Container}
    (added : c.addMember member type time = .ok grown) :
    Prepared S r grown (some (.insert { id := member, type, addedAt := time })) := by
  obtain ⟨sound, same, -⟩ := Record.sound_of_hydrate hydrated
  obtain ⟨absent, -, ownId, -, -, members, -, valid⟩ := sound.addMember added
  have key := sane.record found
  refine ⟨key.1 ▸ found, key.2, ?_, valid, ?_, ?_⟩
  · rw [ownId, same]
    rfl
  · rw [members, same]
    rfl
  · rintro change ⟨⟩ n mem
    rw [← same] at mem
    exact absent n mem

/-- Striking a member off is ready to be written. -/
theorem of_remove (sane : S.contents.Sane) (found : S.records[id]? = some r) (hydrated : r.hydrate = .ok c)
    {member : String} {time : Instant} {removed : Member} {shrunk : Container}
    (done : c.removeMember member time = .ok (removed, shrunk)) :
    Prepared S r shrunk (some (.remove member)) := by
  obtain ⟨sound, same, -⟩ := Record.sound_of_hydrate hydrated
  obtain ⟨-, -, ownId, -, -, members, -, valid⟩ := sound.removeMember done
  have key := sane.record found
  refine ⟨key.1 ▸ found, key.2, ?_, valid, ?_, ?_⟩
  · rw [ownId, same]
    rfl
  · rw [members, same]
    rfl
  · intro change impossible
    cases impossible
    exact trivial

/-- A container that kept its members is ready to be written. -/
theorem of_sameShape (sane : S.contents.Sane) (found : S.records[id]? = some r) (hydrated : r.hydrate = .ok c)
    {changed : Container} (shape : c.SameShape changed) : Prepared S r changed none := by
  obtain ⟨sound, same, -⟩ := Record.sound_of_hydrate hydrated
  have key := sane.record found
  refine ⟨key.1 ▸ found, key.2, ?_, shape.valid sound.valid, ?_, ?_⟩
  · rw [shape.id, same]
    rfl
  · rw [shape.members, same]
    rfl
  · intro change impossible
    cases impossible

end Prepared

/-- An update keeps everything but properties, times and the queue. -/
theorem Repository.sameShape_applyUpdate (c : Container) (update : MetadataUpdate) (time : Instant) :
    c.SameShape (applyUpdate c update time) := by
  have filled := Container.sameShape_foldl (fun d (pair : String × String) =>
    Container.sameShape_setProperty d pair.1 pair.2 time) update.set.toList c
  exact filled.trans (Container.sameShape_foldl (fun d key => Container.sameShape_removeProperty d key time) _ _)

end Containment
