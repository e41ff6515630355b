/-
Module: Containment.Proofs.Repository.Timekeeping
Purpose: The steps that calls share keep the order of times. What is loaded is in order; a member that is listed under the
  latest reading is not older than those before it; and what is taken back was in order before.
Main exports: Record.Dated, IndexChange.IsTimely, Repository.Loaded, Repository.steady_commit, Repository.steady_unwind
-/
import Containment.Proofs.Orderly
import Containment.Proofs.Repository.Effects

namespace Containment

open Time

/-- The members of the record are in the order of their times, and none of them is after `b`. -/
abbrev Record.Dated (b : Instant) (r : Record) : Prop :=
  Member.DatedBy b r.container.members

/-- The change lists a member under the time `b`, if it lists one. -/
def IndexChange.IsTimely (b : Instant) : IndexChange → Prop
  | .insert member => member.addedAt = b
  | .remove _ => True

namespace Repository

open Containment.Action Member

variable {b : Instant} {limits : Limits} {id : String}

/-! ### Reading -/

theorem steady_read? (id : String) : (read? id).Steady b fun found => ∀ r, found = some r → r.Dated b := by
  have asked : (store (.read id)).Steady b _ := steady_store trivial
  apply asked.mono
  rintro b' found - ⟨rfl, promised⟩
  exact ⟨rfl, fun r same => promised r (congrArg Except.ok same)⟩

theorem steady_isStored (id : String) : (isStored id).Steady b fun _ => True := by
  have asked : (store (.exists id)).Steady b _ := steady_store trivial
  exact asked.mono fun _ _ _ answer => ⟨answer.1, trivial⟩

theorem steady_hydrate (record : Record) : (hydrate record).Steady b fun c => c.toSnapshot = record.container := by
  rw [hydrate]
  cases hydrated : record.hydrate with
  | error e => exact orderly_throw _
  | ok c => exact steady_pure (Record.sound_of_hydrate hydrated).2.1

/-- A record in order with the container that it holds. -/
def Loaded (b : Instant) (loaded : Record × Container) : Prop :=
  loaded.1.Dated b ∧ loaded.2.toSnapshot = loaded.1.container

theorem Loaded.members {record : Record} {c : Container} (loaded : Loaded b (record, c)) : DatedBy b c.members := by
  have same : c.members = record.container.members := congrArg Snapshot.members loaded.2
  rw [same]
  exact loaded.1

theorem steady_load (id : String) : (load id).Steady b (Loaded b) := by
  rw [load]
  apply (steady_read? id).bind
  intro found dated
  cases found with
  | none => exact orderly_throw _
  | some record =>
    apply (steady_hydrate record).bind
    intro c same
    exact steady_pure ⟨dated record rfl, same⟩

theorem steady_climb (limits : Limits) (start : String) (remaining : Nat) (chain : List String) (current : String) :
    (climb limits start remaining chain current).Steady b fun _ => True := by
  induction remaining generalizing chain current with
  | zero =>
    rw [climb]
    apply (steady_load current).bind
    rintro ⟨record, c⟩ -
    dsimp only
    split
    · exact steady_pure trivial
    · split <;> exact orderly_throw _
  | succ remaining ih =>
    rw [climb]
    apply (steady_load current).bind
    rintro ⟨record, c⟩ -
    dsimp only
    split
    · exact steady_pure trivial
    · split
      · exact orderly_throw _
      · exact ih _ _

theorem steady_ancestors (limits : Limits) (start : String) : (ancestors limits start).Steady b fun _ => True :=
  steady_climb limits start _ _ _

theorem steady_readAll (ids : List String) : (readAll ids).Steady b fun _ => True := by
  induction ids with
  | nil => exact steady_pure trivial
  | cons id rest ih =>
    rw [readAll]
    apply (steady_read? id).bind
    intro record _
    apply Steady.bind ih
    intro records _
    exact steady_pure trivial

theorem steady_childRecords (id : String) : (childRecords id).Steady b fun _ => True := by
  rw [childRecords]
  apply (steady_load id).bind
  rintro ⟨record, c⟩ -
  apply (steady_readAll _).bind
  intro records _
  exact steady_pure trivial

theorem steady_nextLevel (ids : List String) (seen : Std.ExtTreeSet String) :
    (nextLevel ids seen).Steady b fun _ => True := by
  induction ids generalizing seen with
  | nil => exact steady_pure trivial
  | cons id rest ih =>
    rw [nextLevel]
    apply (steady_childRecords id).bind
    intro records _
    apply Steady.bind (ih _)
    intro others _
    exact steady_pure trivial

theorem steady_levelsBelow (limits : Limits) (top : String) (remaining : Nat) (level : List String)
    (seen : Std.ExtTreeSet String) : (levelsBelow limits top remaining level seen).Steady b fun _ => True := by
  induction remaining generalizing level seen with
  | zero =>
    cases level with
    | nil => exact steady_pure trivial
    | cons id rest => exact orderly_throw _
  | succ remaining ih =>
    cases level with
    | nil => exact steady_pure trivial
    | cons id rest =>
      rw [levelsBelow]
      apply (steady_nextLevel _ seen).bind
      rintro ⟨next, seen⟩ -
      apply Steady.bind (ih _ _)
      intro levels _
      exact steady_pure trivial

theorem steady_classify (classifier : Classifier) (container member : String) :
    (classify classifier container member).Steady b fun _ => True := by
  rw [classify]
  apply (steady_isStored member).bind
  intro stored _
  split <;> exact steady_pure trivial

theorem steady_refuseChild (container member : String) : (refuseChild container member).Steady b fun _ => True := by
  rw [refuseChild]
  apply (steady_read? member).bind
  intro found _
  split
  · split
    · exact orderly_throw _
    · exact steady_pure trivial
  · exact steady_pure trivial

theorem steady_checkMove (limits : Limits) (id target : String) :
    (checkMove limits id target).Steady b fun _ => True := by
  rw [checkMove]
  split
  · exact orderly_throw _
  split
  · apply (steady_isStored target).bind
    intro stored _
    split
    · exact orderly_throw _
    apply (steady_ancestors limits target).bind
    intro chain _
    dsimp only
    split
    · exact orderly_throw _
    apply (steady_levelsBelow limits id _ _ _).bind
    intro height _
    split
    · exact orderly_throw _
    · exact steady_pure trivial
  · exact steady_pure trivial

/-! ### Writing -/

theorem steady_seedPartition (id : String) : (seedPartition id).Steady b fun _ => True := by
  have created : (tryIndex (.createPartition id)).Steady b _ := steady_tryIndex trivial fun _ _ same => same
  have emptied : (tryIndex (.replacePartition id [])).Steady b _ := steady_tryIndex (datedBy_nil b) fun _ _ same => same
  rw [seedPartition]
  apply created.bind
  intro outcome _
  split
  · exact steady_pure trivial
  · apply emptied.bind
    intro outcome _
    split
    · exact steady_pure trivial
    · exact orderly_throw _
  · exact orderly_throw _

/-- Whether an insertion succeeds is all that is looked at. -/
theorem steady_attempt (id : String) {change : IndexChange} (timely : change.IsTimely b) :
    (attempt id change).Steady b fun _ => True := by
  cases change with
  | insert member =>
    refine ⟨timely, fun answer answer' same => ?_, fun answer _ => steady_pure trivial⟩
    exact congrArg (fun outcome => (pure outcome : Action _)) same
  | remove memberId =>
    refine ⟨trivial, fun answer answer' same => ?_, fun answer _ => steady_pure trivial⟩
    exact congrArg (fun answer => (pure (answer.map fun _ => ()) : Action _)) same

theorem steady_removeInserted (id : String) (changes : List IndexChange) :
    (removeInserted id changes).Steady b fun _ => True := by
  induction changes with
  | nil => exact steady_pure trivial
  | cons change rest ih =>
    cases change with
    | remove memberId => exact ih
    | insert member =>
      have removed : (tryIndex (.remove id member.id)).Steady b _ := steady_tryIndex trivial fun _ _ same => same
      rw [removeInserted]
      apply removed.bind
      intro outcome _
      split
      · exact ih
      · exact steady_pure trivial

theorem steady_undoIndex (id : String) (applied : List IndexChange) {previous : List Member}
    (dated : DatedBy b previous) : (undoIndex id applied previous).Steady b fun _ => True := by
  have replaced : (tryIndex (.replacePartition id previous)).Steady b _ := steady_tryIndex dated fun _ _ same => same
  rw [undoIndex]
  split
  · exact steady_pure trivial
  split
  · exact steady_removeInserted id applied
  · exact replaced.bind fun _ _ => steady_pure trivial

theorem steady_applyFrom (id : String) (applied : List IndexChange) {changes : List IndexChange}
    {previous : List Member} (dated : DatedBy b previous) (timely : ∀ change ∈ changes, change.IsTimely b) :
    (applyFrom id previous applied changes).Steady b fun _ => True := by
  induction changes generalizing applied with
  | nil => exact steady_pure trivial
  | cons change rest ih =>
    rw [applyFrom]
    apply (steady_attempt id (timely change List.mem_cons_self)).bind
    intro outcome _
    split
    · exact ih _ fun later mem => timely later (List.mem_cons_of_mem change mem)
    · exact (steady_undoIndex id applied dated).bind fun _ _ => orderly_throw _

/-- Another container is written under the reading `b`: its members are in order, as those before were, and a member
that is listed anew has that time. -/
theorem steady_commit {record : Record} {container : Container} {changes : List IndexChange} (dated : record.Dated b)
    (next : DatedBy b container.members) (timely : ∀ change ∈ changes, change.IsTimely b) :
    (commit record container changes).Steady b fun _ => True := by
  have written : (tryStore (.update (record.next container) record.revision)).Steady b _ := steady_tryStore next
  rw [commit]
  apply (steady_applyFrom container.id [] dated timely).bind
  intro _ _
  apply written.bind
  intro outcome _
  split
  · exact steady_pure trivial
  · exact (steady_undoIndex container.id changes dated).bind fun _ _ => orderly_throw _

theorem steady_rollBack {previous : Record} (committed : Record) (dated : previous.Dated b) :
    (rollBack previous committed).Steady b fun _ => True := by
  have restored : (tryStore (.update { revision := committed.revision + 1, container := previous.container }
    committed.revision)).Steady b _ := steady_tryStore dated
  have replaced : (tryIndex (.replacePartition previous.id previous.container.members)).Steady b _ :=
    steady_tryIndex dated fun _ _ same => same
  rw [rollBack]
  apply restored.bind
  intro _ _
  exact replaced.bind fun _ _ => steady_pure trivial

theorem steady_unwind {writes : List (Record × Record)} (dated : ∀ write ∈ writes, write.1.Dated b) :
    (unwind writes).Steady b fun _ => True := by
  have each : ∀ writes : List (Record × Record), (∀ write ∈ writes, write.1.Dated b) →
      (writes.forM fun write => rollBack write.1 write.2).Steady b fun _ => True := by
    intro writes dated
    induction writes with
    | nil => exact steady_pure trivial
    | cons write rest ih =>
      change (rollBack write.1 write.2 >>= fun _ => rest.forM _).Steady b _
      apply (steady_rollBack write.2 (dated write List.mem_cons_self)).bind
      intro _ _
      exact ih fun later mem => dated later (List.mem_cons_of_mem write mem)
  exact each _ fun write mem => dated write (List.mem_reverse.1 mem)

theorem steady_unwindCreate (id : String) : (unwindCreate id).Steady b fun _ => True := by
  have deleted : (tryStore (.delete id)).Steady b _ := steady_tryStore trivial
  have dropped : (tryIndex (.dropPartition id)).Steady b _ := steady_tryIndex trivial fun _ _ same => same
  rw [unwindCreate]
  apply deleted.bind
  intro _ _
  exact dropped.bind fun _ _ => steady_pure trivial

/-! ### Containers at work -/

/-- Listing a member under the latest reading keeps the members in order. -/
theorem Loaded.addMember {record : Record} {c grown : Container} (loaded : Loaded b (record, c)) {member : String}
    {type : MemberType} (held : (Instant.ofMillis? b.toMillis).isSome) (added : c.addMember member type b = .ok grown) :
    DatedBy b grown.members := by
  obtain ⟨-, -, rfl⟩ := Container.of_addMember added
  exact loaded.members.append rfl held

theorem Loaded.removeMember {record : Record} {c shrunk : Container} (loaded : Loaded b (record, c)) {member : String}
    {time : Instant} {removed : Member} (done : c.removeMember member time = .ok (removed, shrunk)) :
    DatedBy b shrunk.members := by
  obtain ⟨-, rfl⟩ := Container.of_removeMember done
  exact loaded.members.sublist List.eraseP_sublist

theorem Loaded.mono {later : Instant} {p : Record × Container} (loaded : Loaded b p) (notAfter : b.NotAfter later) :
    Loaded later p :=
  ⟨loaded.1.mono notAfter, loaded.2⟩

end Repository

end Containment
