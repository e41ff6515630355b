/-
Module: Containment.Proofs.Repository.Moves
Purpose: Moving a container. Up to three containers are written, one after the other; a write that fails takes
  those before it back.
Main exports: reads_attached, reads_detached, ensures_commitParents, ensures_moveHeld
-/
import Containment.Proofs.Repository.Effects
import Containment.Proofs.Repository.Verdict
import Containment.Proofs.Repository.Walks

namespace Containment.Repository

open Containment.Action
open Function (update)
open Time

variable {h h₀ : Holdings} {limits : Limits} {id source target : String} {time : Instant}
  {writes : List (Record × Record)}

/-! ### Preparing both parents -/

/-- A parent that is ready to list the container. -/
def AttachReady (S : MemoryStore) (id target : String) (time : Instant) : Option (Record × Container) → Prop
  | none => target = ""
  | some (r, p') => target ≠ "" ∧ S.records[target]? = some r ∧
      ∃ p, r.hydrate = .ok p ∧ p.addMember id .container time = .ok p'

/-- A parent that is ready to strike the container off; none, if the container is not listed. -/
def DetachReady (S : MemoryStore) (id source : String) (time : Instant) : Option (Record × Container) → Prop
  | none => source = "" ∨ ∀ r p, S.records[source]? = some r → r.hydrate = .ok p → p.containsMember id = false
  | some (r, p') => source ≠ "" ∧ S.records[source]? = some r ∧
      ∃ p m, r.hydrate = .ok p ∧ p.removeMember id time = .ok (m, p')

theorem reads_attached : (attached id target time).Reads h (AttachReady h.store id target time) := by
  simp only [attached]
  by_cases top : target.isEmpty
  · rw [if_pos top]
    exact reads_pure (String.isEmpty_iff.1 top)
  rw [if_neg top]
  have proper : target ≠ "" := fun none => top (String.isEmpty_iff.2 none)
  refine (reads_load.mapError ?_).bind ?_
  · intro e harmless
    cases e <;> exact harmless
  intro answer given
  rcases answer with ⟨record, parent⟩
  rcases given with ⟨found, hydrated⟩
  apply reads_ofContainer.bind
  intro grown added
  exact reads_pure ⟨proper, found, parent, hydrated, added⟩

theorem reads_detached : (detached id source time).Reads h (DetachReady h.store id source time) := by
  simp only [detached]
  by_cases top : source.isEmpty
  · rw [if_pos top]
    exact reads_pure (.inl (String.isEmpty_iff.1 top))
  rw [if_neg top]
  have proper : source ≠ "" := fun none => top (String.isEmpty_iff.2 none)
  apply reads_read?.bind
  intro stored same
  subst same
  cases found : h.store.records[source]? with
  | none =>
    apply reads_pure
    refine .inr fun r p present _ => ?_
    rw [found] at present
    cases present
  | some record =>
    apply reads_hydrate.bind
    intro parent hydrated
    by_cases listed : parent.containsMember id = true
    · simp only [if_pos listed]
      apply reads_ofContainer.bind
      intro given done
      rcases given with ⟨m, shrunk⟩
      exact reads_pure ⟨proper, found, parent, m, hydrated, done⟩
    · simp only [if_neg listed]
      apply reads_pure
      refine .inr fun r p present hydrated' => ?_
      rw [found] at present
      cases present
      rw [hydrated] at hydrated'
      cases hydrated'
      exact Bool.eq_false_of_not_eq_true listed

theorem AttachReady.prepared {S : MemoryStore} {r : Record} {p : Container} (sane : S.contents.Sane)
    (ready : AttachReady S id target time (some (r, p))) :
    Prepared S r p (some (.insert { id, type := .container, addedAt := time })) ∧ p.id = target := by
  obtain ⟨-, stored, q, hydrated, added⟩ := ready
  have prepared := Prepared.of_add sane stored hydrated added
  exact ⟨prepared, prepared.own.trans (sane.record stored).1⟩

theorem DetachReady.prepared {S : MemoryStore} {r : Record} {p : Container} (sane : S.contents.Sane)
    (ready : DetachReady S id source time (some (r, p))) :
    Prepared S r p (some (.remove id)) ∧ p.id = source := by
  obtain ⟨-, stored, q, m, hydrated, removed⟩ := ready
  have prepared := Prepared.of_remove sane stored hydrated removed
  exact ⟨prepared, prepared.own.trans (sane.record stored).1⟩

/-! ### Writing them -/

/-- What writing a parent makes of the store and of the reports. -/
def ParentWritten (S : MemoryStore) (events : List Event) (events' : List Event) (S' : MemoryStore) :
    Option (Record × Container) → Prop
  | none => events' = events ∧ S' = S
  | some (r, p) => events' = events ++ p.pending ∧ S' = S.put (r.next p)

/-- A write that takes all earlier ones back if it fails. -/
theorem Midway.ensures_guarded {record : Record} {container : Container} {change : IndexChange}
    (midway : Midway h₀ writes h) (ready : Prepared h.store record container (some change))
    (fresh : ∀ write ∈ writes, write.2.id ≠ record.id) :
    (onError (commit record container [change]) fun _ => unwind writes).Ensures h fun fails out h' =>
      match out with
      | .ok next => next = record.next container ∧ fails = [] ∧ h'.store = h.store.put next ∧
          Midway h₀ (writes ++ [(record, next)]) h'
      | .error e => Kept h₀ fails e h' := by
  refine Ensures.onError ((midway.ensures_commit ready fresh).mono fun fails out h₁ ended => ?_)
  cases out with
  | ok next => exact ended
  | error e =>
    obtain ⟨published, store, failed⟩ := ended
    refine ensures_abandon fails e published ?_ ?_ failed
    · rw [store]
      exact midway.sane
    · rw [store]
      exact midway.written

/-- Writing a parent is the next step of a call on its way, or the end of it. -/
theorem ensures_commitParent {change : IndexChange} {events : List Event} {parent : Option (Record × Container)}
    (midway : Midway h₀ writes h)
    (ready : ∀ r p, parent = some (r, p) → Prepared h.store r p (some change) ∧
      ∀ write ∈ writes, write.2.id ≠ r.id) :
    (commitParent change writes events parent).Ensures h fun fails out h' =>
      match out with
      | .ok (writes', events') => fails = [] ∧ Midway h₀ writes' h' ∧
          ParentWritten h.store events events' h'.store parent ∧
          ∀ write ∈ writes', write ∈ writes ∨ ∃ r p, parent = some (r, p) ∧ write.2.id = p.id
      | .error e => Kept h₀ fails e h' := by
  cases parent with
  | none => exact ensures_pure ⟨rfl, midway, ⟨rfl, rfl⟩, fun write mem => .inl mem⟩
  | some parent =>
    obtain ⟨record, container⟩ := parent
    obtain ⟨prepared, fresh⟩ := ready record container rfl
    refine (midway.ensures_guarded prepared fresh).bind ?_ fun _ _ _ kept => kept
    intro _ next h₁ given
    rcases given with ⟨rfl, rfl, store, midway₁⟩
    refine ensures_pure ⟨rfl, midway₁, ⟨rfl, store⟩, fun write mem => ?_⟩
    rcases List.mem_append.1 mem with old | new
    · exact .inl old
    · rw [List.mem_singleton.1 new]
      exact .inr ⟨record, container, rfl, rfl⟩

theorem AttachReady.attached {S S' : MemoryStore} {events : List Event} {parent : Option (Record × Container)}
    (ready : AttachReady S id target time parent) (written : ParentWritten S [] events S' parent) :
    Attached S id target time events S' := by
  cases parent with
  | none =>
    obtain ⟨rfl, rfl⟩ := written
    exact .root ready
  | some parent =>
    obtain ⟨proper, found, p, hydrated, added⟩ := ready
    obtain ⟨rfl, rfl⟩ := written
    exact .below proper found hydrated added

theorem DetachReady.detached {S S' : MemoryStore} {events₁ events : List Event}
    {parent : Option (Record × Container)} (ready : DetachReady S id source time parent)
    (written : ParentWritten S events₁ events S' parent) :
    ∃ events₂, Detached S id source time events₂ S' ∧ events = events₁ ++ events₂ := by
  cases parent with
  | none =>
    obtain ⟨rfl, rfl⟩ := written
    exact ⟨[], .unlisted ready, (List.append_nil _).symm⟩
  | some parent =>
    obtain ⟨proper, found, p, m, hydrated, done⟩ := ready
    obtain ⟨rfl, rfl⟩ := written
    exact ⟨_, .listed proper found hydrated done, rfl⟩

/-- Writing a parent leaves the records of all others alone. -/
theorem ParentWritten.records {S S' : MemoryStore} {events events' : List Event}
    {parent : Option (Record × Container)} (written : ParentWritten S events events' S' parent) {x : String}
    (apart : ∀ r p, parent = some (r, p) → p.id ≠ x) : S'.records[x]? = S.records[x]? := by
  cases parent with
  | none => rw [written.2]
  | some parent =>
    rw [written.2]
    exact MemoryStore.records_put_of_ne (apart parent.1 parent.2 rfl)

/-- A parent that is ready in one store is ready in another one that has the same record of it. -/
theorem DetachReady.congr {S S' : MemoryStore} {parent : Option (Record × Container)}
    (ready : DetachReady S id source time parent) (same : source ≠ "" → S'.records[source]? = S.records[source]?) :
    DetachReady S' id source time parent := by
  cases parent with
  | none =>
    rcases ready with top | unlisted
    · exact .inl top
    · by_cases top : source = ""
      · exact .inl top
      · refine .inr fun r p found => unlisted r p ?_
        rw [← same top]
        exact found
  | some parent =>
    obtain ⟨proper, found, rest⟩ := ready
    exact ⟨proper, (same proper).trans found, rest⟩

/-- Both parents are written, the new one first; what follows finds all other records as they were. -/
theorem ensures_commitParents {α : Type} {effect : α → List Event → MemoryStore → Prop}
    {newParent oldParent : Option (Record × Container)} {f : List (Record × Record) → List Event → Action α}
    (sane : h.store.contents.Sane) (distinct : source ≠ target)
    (attach : AttachReady h.store id target time newParent) (detach : DetachReady h.store id source time oldParent)
    (next : ∀ writes events₁ events₂ S₁ h₂, Midway h writes h₂ → Attached h.store id target time events₁ S₁ →
      Detached S₁ id source time events₂ h₂.store →
      (∀ x, x ≠ target → x ≠ source → h₂.store.records[x]? = h.store.records[x]?) →
      (f writes (events₁ ++ events₂)).Ensures h₂ (Verdict h effect)) :
    (commitParent (.insert { id, type := .container, addedAt := time }) [] [] newParent >>= fun given =>
      commitParent (.remove id) given.1 given.2 oldParent >>= fun given => f given.1 given.2).Ensures h
        (Verdict h effect) := by
  have newKey : ∀ r p, newParent = some (r, p) → p.id = target := by
    intro r p is
    subst is
    exact (attach.prepared sane).2
  have oldKey : ∀ r p, oldParent = some (r, p) → p.id = source := by
    intro r p is
    subst is
    exact (detach.prepared sane).2
  refine (ensures_commitParent (Midway.start sane) ?_).bind ?_ fun _ _ _ kept => kept
  · intro r p is
    subst is
    exact ⟨(attach.prepared sane).1, fun _ mem => absurd mem List.not_mem_nil⟩
  intro _ given h₁ also
  rcases given with ⟨writes₁, events₁⟩
  rcases also with ⟨rfl, midway₁, written₁, places₁⟩
  have source₁ : h₁.store.records[source]? = h.store.records[source]? :=
    written₁.records fun r p is => newKey r p is ▸ Ne.symm distinct
  have detach₁ : DetachReady h₁.store id source time oldParent := detach.congr fun _ => source₁
  refine (ensures_commitParent midway₁ ?_).bind ?_ fun _ _ _ kept => kept
  · intro r p is
    subst is
    have ready := (detach₁.prepared midway₁.sane).1
    refine ⟨ready, fun write mem => ?_⟩
    rcases places₁ write mem with none | ⟨r', p', is, named⟩
    · exact absurd none List.not_mem_nil
    · rw [named, newKey r' p' is, ← ready.own, oldKey r p rfl]
      exact Ne.symm distinct
  intro _ given h₂ also
  rcases given with ⟨writes₂, events₂⟩
  rcases also with ⟨rfl, midway₂, written₂, -⟩
  obtain ⟨more, detached₂, rfl⟩ := detach₁.detached written₂
  apply next writes₂ events₁ more h₁.store h₂ midway₂ (attach.attached written₁) detached₂
  intro x offTarget offSource
  rw [written₂.records fun r p is => oldKey r p is ▸ Ne.symm offSource]
  exact written₁.records fun r p is => newKey r p is ▸ Ne.symm offTarget

/-- Writing the container itself is the last step of a move. -/
theorem ensures_commitMoved {record : Record} {moved : Container} {events : List Event}
    (midway : Midway h₀ writes h) (current : h.store.records[moved.id]? = some record)
    (members : moved.members = record.container.members) :
    (commitMoved record moved writes events).Ensures h (Verdict h₀ fun answer reported S' =>
      answer = moved.takeEvents.2 ∧ reported = events ++ moved.pending ∧
        S' = h.store.put (record.next moved)) := by
  simp only [commitMoved]
  refine ensures_tryStore ?_ fun e => ?_
  · have replaced : h.store.records[(record.next moved).id]? = some record := current
    rw [MemoryStore.perform_update replaced rfl]
    refine ensures_publish (ensures_pure ⟨events ++ moved.pending, ⟨rfl, rfl, rfl⟩, ?_, ?_⟩)
    · change h.published ++ _ = _
      rw [midway.published]
      rfl
    · intro _ mirrored
      apply Holdings.Lists.congr (midway.mirrored mirrored)
      change _ = (h.store.put (record.next moved)).contents.listing
      have listed : h.store.contents.listing moved.id = some moved.members := by
        rw [members, Contents.listing, MemoryStore.contents_eq_some current]
        rfl
      rw [MemoryStore.contents_put, Contents.listing_update]
      change _ = update h.store.contents.listing moved.id (some moved.members)
      rw [← listed, Function.update_eq_self]
  · exact ensures_abandon_throw [.store .update] (.store e) midway.published midway.sane midway.written
      fun mirrored => ⟨List.cons_ne_nil _ _, fun _ => midway.mirrored mirrored⟩

/-- Moving a container whose old parent is known and that does not move below itself. -/
theorem ensures_moveHeld (sane : h.store.contents.Sane) (apart : target ≠ id)
    (known : ∀ r, h.store.records[id]? = some r → r.parentId = source) :
    (moveHeld id source target).Ensures h (Verdict h fun answer => Moved h.store id target answer) := by
  simp only [moveHeld]
  apply reads_load.verdict_bind sane
  intro given also
  rcases given with ⟨record, c⟩
  rcases also with ⟨found, hydrated⟩
  have here : record.parentId = source := known record found
  by_cases stays : source = target
  · simp only [if_pos stays]
    apply (reads_pure (P := (· = c)) rfl).verdict sane
    intro answer equal
    subst equal
    exact .stay found hydrated (here.trans stays)
  simp only [if_neg stays]
  apply reads_now.verdict_bind sane
  intro time _
  apply reads_ofContainer.verdict_bind sane
  intro moved done
  apply reads_attached.verdict_bind sane
  intro newParent attach
  apply reads_detached.verdict_bind sane
  intro oldParent detach
  apply reads_checkContext.verdict_bind sane
  intro _ _
  obtain ⟨sound, same, -⟩ := Record.sound_of_hydrate hydrated
  obtain ⟨key, kept⟩ := sane.record found
  obtain ⟨-, movedId, -, -, movedMembers, -⟩ := sound.reparent done
  have ownId : moved.id = id := by
    rw [movedId, same]
    exact key
  have sourceApart : source ≠ id := by
    rw [← here, ← key]
    exact kept.parent_ne
  refine ensures_commitParents sane stays attach detach ?_
  intro writes events₁ events₂ S₁ h₂ midway attached detached others
  have current : h₂.store.records[moved.id]? = some record := by
    rw [ownId, others id (Ne.symm apart) (Ne.symm sourceApart)]
    exact found
  have ownMembers : moved.members = record.container.members := by
    rw [movedMembers, same]
  refine ensures_verdict_mono (ensures_commitMoved midway current ownMembers) ?_
  rintro answer reported S' ⟨rfl, rfl, rfl⟩
  exact .go found hydrated (fun there => stays (here.symm.trans there)) apart done attached (here ▸ detached)

end Containment.Repository
