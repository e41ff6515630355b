/-
Module: Containment.Proofs.Repository.Amending
Purpose: An update of properties is made as a whole or not at all. What it makes of the properties, and what is reported,
  can be told from the update and the record before; nothing but this record is written, and not even that if there is
  nothing to report.
Main exports: MetadataUpdate.Settles, ensures_updateMetadata, succeeds_updateMetadata, Holdings.Arises.amend_exact
-/
import Containment.Proofs.Container.Properties
import Containment.Proofs.Repository.Arising
import Containment.Proofs.Repository.Making
import Containment.Proofs.Repository.Reading

namespace Containment

open Containment.Action Time

/-- What an update that succeeds has made of a record, which was `r`, and of everything else. `s` is the lasting state
of the container afterwards. -/
structure MetadataUpdate.Settles (update : MetadataUpdate) (h : Holdings) (r : Record) (time : Instant) (s : Snapshot)
    (h' : Holdings) : Prop where
  plain : ∀ key, Container.isReserved key = false → s.metadata[key]? =
    if key ∈ update.remove then none else (update.set[key]?).or r.container.metadata[key]?
  created : s.createdAt = r.container.createdAt ∧
    s.metadata[Container.createdKey]? = r.container.metadata[Container.createdKey]?
  kept : s.id = r.container.id ∧ s.parentId = r.container.parentId ∧ s.type = r.container.type ∧
    s.members = r.container.members
  idle : update.reports r.container time = [] → s = r.container ∧ h' = h
  noted : update.reports r.container time ≠ [] →
    s.updatedAt = time ∧ s.metadata[Container.modifiedKey]? = some time.toOffsetText ∧
      h' = { store := h.store.put { revision := r.revision + 1, container := s }, index := h.index
             published := h.published ++ update.reports r.container time }

namespace Repository

variable {h : Holdings} {w : World} {id : String} {r : Record} {c : Container} {update : MetadataUpdate}

/-- A write that leaves the rows alone reaches the store or leaves everything as it is. -/
theorem ensures_commit_nil (ready : Prepared h.store r c none) :
    (commit r c []).Ensures h fun fails out h' =>
      match out with
      | .ok _ => h' = { h with store := h.store.put (r.next c) }
      | .error _ => fails ≠ [] ∧ h' = h := by
  have current : h.store.records[(r.next c).id]? = some r := by
    change h.store.records[c.id]? = some r
    rw [ready.own, ready.found]
  have idle : (applyIndex c.id [] r.container.members).Ensures h fun fails out h' =>
      out = .ok () ∧ fails = [] ∧ h' = h := ensures_pure ⟨rfl, rfl, rfl⟩
  simp only [commit]
  refine idle.bind ?_ fun fails e h' impossible => by cases impossible.1
  rintro _ _ h₁ ⟨-, rfl, rfl⟩
  apply ensures_tryStore
  · rw [MemoryStore.perform_update current rfl]
    exact ensures_pure rfl
  · intro e
    -- there are no changes of rows to be taken back
    exact ensures_throw ⟨List.cons_ne_nil _ _, rfl⟩

/-- What is written and reported is what an update makes of the container of a record. -/
theorem settles_applyUpdate {time : Instant} {h' : Holdings} (hydrated : r.hydrate = .ok c)
    (idle : (applyUpdate c update time).pending = [] → h' = h)
    (noted : (applyUpdate c update time).pending ≠ [] →
      h' = { store := h.store.put (r.next (applyUpdate c update time)), index := h.index
             published := h.published ++ (applyUpdate c update time).pending }) :
    update.Settles h r time (applyUpdate c update time).toSnapshot h' := by
  obtain ⟨-, same, empty⟩ := Record.sound_of_hydrate hydrated
  obtain ⟨shape, createdAt, created, pending, unchanged, dated⟩ := amends_applyUpdate c update time
  obtain ⟨revision, s⟩ := r
  obtain rfl : c.toSnapshot = s := same
  rw [empty, List.nil_append] at pending
  rw [pending] at idle noted
  constructor
  · exact fun key plain => getElem?_applyUpdate plain c update time
  · exact ⟨createdAt, created⟩
  · exact ⟨shape.id, shape.parentId, shape.type, shape.members⟩
  · exact fun none => ⟨congrArg Container.toSnapshot (unchanged none), idle none⟩
  · exact fun some => ⟨(dated some).1, (dated some).2, noted some⟩

theorem ensures_updateMetadata (sane : h.store.contents.Sane) :
    (updateMetadata id update).Ensures h fun _ out h' =>
      match out with
      | .error _ => h' = h
      | .ok answer => answer.pending = [] ∧ ∃ r time, h.store.records[id]? = some r ∧
          update.Settles h r time answer.toSnapshot h' := by
  refine ensures_withLock (fun _ => rfl) ?_
  refine reads_load.ensures_bind (fun _ _ _ => rfl) ?_
  rintro ⟨r, c⟩ ⟨found, hydrated⟩
  refine reads_now.ensures_bind (fun _ _ _ => rfl) fun time _ => ?_
  by_cases unchanged : (applyUpdate c update time).pending.isEmpty
  · simp only [if_pos unchanged]
    have noEvents := List.isEmpty_iff.1 unchanged
    refine ensures_pure ⟨noEvents, r, time, found, ?_⟩
    exact settles_applyUpdate hydrated (fun _ => rfl) fun some => absurd noEvents some
  · simp only [if_neg unchanged]
    have someEvents : (applyUpdate c update time).pending ≠ [] := fun none => unchanged (List.isEmpty_iff.2 none)
    refine reads_checkContext.ensures_bind (fun _ _ _ => rfl) fun _ _ => ?_
    have ready := Prepared.of_sameShape sane found hydrated (sameShape_applyUpdate c update time)
    refine (ensures_commit_nil ready).bind ?_ fun _ _ _ failed => failed.2
    rintro _ _ h₁ rfl
    refine ensures_publish (ensures_pure ⟨rfl, r, time, found, ?_⟩)
    exact settles_applyUpdate hydrated (fun none => absurd none someEvents) fun _ => rfl

/-- Undisturbed, an update of a stored container succeeds. -/
theorem succeeds_updateMetadata (serves : w.Serves h) (sane : h.store.contents.Sane)
    (found : h.store.records[id]? = some r) (update : MetadataUpdate) :
    (updateMetadata id update).Succeeds w fun _ _ => True := by
  refine Succeeds.withLock ((succeeds_load serves sane found).bind ?_)
  rintro ⟨record, c⟩ _ ⟨⟨same, hydrated⟩, rfl⟩
  obtain rfl : record = r := same
  refine succeeds_now_bind fun time clock => ?_
  by_cases unchanged : (applyUpdate c update time).pending.isEmpty
  · simp only [if_pos unchanged]
    exact succeeds_pure trivial
  · simp only [if_neg unchanged]
    apply succeeds_checkContext_bind
    have ready := Prepared.of_sameShape sane found hydrated (sameShape_applyUpdate c update time)
    have writes : (commit record (applyUpdate c update time) []).Manages h fun _ _ => True := by
      refine (ensures_commit_nil ready).mono fun fails out h' ended none => ?_
      cases out with
      | ok next => exact ⟨next, rfl, trivial⟩
      | error e => exact absurd none ended.1
    refine (writes.succeeds (serves.setClock clock)).bind fun _ _ _ => ?_
    exact Succeeds.bind (P := fun _ _ => True) (succeeds_publish fun _ => trivial) fun _ _ _ => succeeds_pure trivial

end Repository

/-- **An update of properties is made as a whole.** Take any state that calls of any kind lead to, whatever failed on the
way, and an update of a container in it. If it fails, in whatever way, everything is as before. If it succeeds, every
property but the two that the container maintains is missing if it was to be removed, and otherwise has the value that
was to be set, or that it had. All that can be told of the container, its other records and the index apart from that is
as before. There is one report of each property that was set, and of each one removed that was there or had just been
set. Without any report nothing is written; otherwise the next revision of this one record is, with the time of the
update, and the reports are handed on. Undisturbed, an update of a stored container does succeed. -/
theorem Holdings.Arises.amend_exact {settings : Settings} {h : Holdings} (arises : h.Arises settings) (id : String)
    (update : MetadataUpdate) :
    (∀ fails outcome h', ((Call.updateMetadata id update).program settings).Runs h fails outcome h' →
      (∀ e, outcome = .error e → h' = h) ∧
        ∀ reply, outcome = .ok reply → ∃ c r time, reply = .container c ∧ c.pending = [] ∧ c.id = id ∧
          h.store.records[id]? = some r ∧ update.Settles h r time c.toSnapshot h') ∧
      ∀ w : World, w.Serves h → (h.store.records[id]?).isSome = true →
        ∃ c w', ((Call.updateMetadata id update).program settings).run none w = (.ok (.container c), w') := by
  constructor
  · intro fails outcome h' run
    have updates : ((Call.updateMetadata id update).action settings).Ensures h fun _ out h' =>
        match out with
        | .ok reply => ∃ c r time, reply = .container c ∧ c.pending = [] ∧ c.id = id ∧
            h.store.records[id]? = some r ∧ update.Settles h r time c.toSnapshot h'
        | .error _ => h' = h := by
      refine Ensures.map ((Repository.ensures_updateMetadata arises.sane).mono fun fails out h' ended => ?_)
      cases out with
      | error e => exact ended
      | ok c =>
        obtain ⟨empty, r, time, found, settles⟩ := ended
        exact ⟨c, r, time, rfl, empty, settles.kept.1.trans (arises.sane.record found).1, found, settles⟩
    have ended := updates fails outcome h' run
    constructor
    · rintro e rfl
      exact ended
    · rintro reply rfl
      exact ended
  · intro w serves stored
    obtain ⟨r, found⟩ := Option.isSome_iff_exists.1 stored
    obtain ⟨c, w', ended, -⟩ :=
      (Repository.succeeds_updateMetadata serves arises.sane found update).answers Reply.container
    exact ⟨c, w', ended⟩

/-- A root with a title. -/
def titledCalls : List (Option Cancellation × Call) :=
  [(none, .create (.new "a" "" .basic (some "Old")))]

/-- Values for the title, for another property, and for one that the container maintains; the title is to go at once, and
is named twice, between which there is a property that is not there. -/
def sampleUpdate : MetadataUpdate :=
  { set := ((∅ : Metadata).insert "title" "New").insert "note" "fragile" |>.insert Container.createdKey "never"
    remove := ["title", "size", "title"] }

theorem titledCalls_amend :
    ∃ (h : Holdings) (r : Record) (time : Instant) (c : Container) (h' : Holdings),
      (World.after {} default titledCalls).Serves h ∧ h.store.records["a"]? = some r ∧
      sampleUpdate.Settles h r time c.toSnapshot h' ∧ c.metadata["title"]? = none ∧
      c.metadata["note"]? = some "fragile" ∧ (sampleUpdate.reports r.container time).length = 3 := by
  obtain ⟨h, holds, clean, arises⟩ := World.Holds.arises_after titledCalls (w := default) ⟨rfl, rfl⟩ rfl
    (Holdings.Arises.empty : Holdings.Arises {} {})
  have serves : (World.after {} default titledCalls).Serves h := ⟨holds, clean⟩
  have read : ((World.after {} default titledCalls).store.perform (.read "a")).1.map
      (fun r => r.map fun r => sampleUpdate.struck r.container.metadata) = .ok (some ["title"]) := by decide +kernel
  rw [serves.holds.store] at read
  obtain ⟨r, found, struck⟩ := Option.map_eq_some_iff.1 (Except.ok.inj read)
  obtain ⟨made, succeeds⟩ := arises.amend_exact "a" sampleUpdate
  obtain ⟨c, w', ended⟩ := succeeds _ serves (Option.isSome_iff_exists.2 ⟨r, found⟩)
  obtain ⟨h', run, -⟩ := Program.run_undisturbed none ((Call.updateMetadata "a" sampleUpdate).program {}) holds clean
  rw [ended] at run
  obtain ⟨_, r', time, ⟨⟩, -, -, found', settles⟩ := (made _ _ _ run).2 _ rfl
  obtain rfl : r = r' := Option.some.inj (found.symm.trans found')
  refine ⟨h, r, time, c, h', serves, found, settles, ?_, ?_, ?_⟩
  · rw [settles.plain "title" (by decide), if_pos (by decide)]
  · have set : sampleUpdate.set["note"]? = some "fragile" := by decide
    rw [settles.plain "note" (by decide), if_neg (by decide), set]
    rfl
  · rw [MetadataUpdate.reports, struck, List.length_append, List.length_map, List.length_map]
    decide

end Containment
