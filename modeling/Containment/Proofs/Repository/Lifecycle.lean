/-
Module: Containment.Proofs.Repository.Lifecycle
Purpose: Making and deleting containers. Both write the container and its parent; whichever fails second takes
  the first one back.
Main exports: reads_draw, ParentReady, ensures_createHeld_of, CreateVerdict, ensures_createHeld_any, ensures_createHeld,
  ensures_deleteHeld
-/
import Containment.Proofs.Repository.Effects
import Containment.Proofs.Repository.Verdict
import Containment.Proofs.Repository.Walks

namespace Containment.Repository

open Containment.Action
open Function (update)
open Time

variable {h : Holdings} {limits : Limits} {id parentId : String}

/-! ### Making a container -/

theorem reads_newContainer {type : ContainerType} :
    (newContainer id parentId type).Reads h fun made => ∃ drawn time,
      (id ≠ "" → drawn = id) ∧ Container.create drawn parentId type time = .ok made := by
  simp only [newContainer]
  by_cases unnamed : id.isEmpty
  · simp only [if_pos unnamed]
    refine reads_freshId.bind fun drawn _ => reads_now.bind fun time _ => ?_
    refine reads_ofContainer.mono fun made created => ⟨drawn, time, fun ne => ?_, created⟩
    exact absurd (String.isEmpty_iff.1 unnamed) ne
  · simp only [if_neg unnamed]
    apply (reads_pure (P := (· = id)) rfl).bind
    intro drawn same
    subst same
    apply reads_now.bind
    intro time _
    exact reads_ofContainer.mono fun made created => ⟨drawn, time, fun _ => rfl, created⟩

/-- A draft is drawn as it describes. -/
theorem reads_draw (draft : Draft) : (draw draft).Reads h draft.Describes := by
  cases draft with
  | new id parentId type title =>
    apply reads_newContainer.bind
    intro made given
    rcases given with ⟨drawn, time, named, created⟩
    cases title with
    | none => exact reads_pure ⟨drawn, time, made, named, created, rfl⟩
    | some text => exact reads_pure ⟨drawn, time, made, named, created, rfl⟩
  | named id parentId typeName =>
    apply reads_now.bind
    intro time _
    exact reads_ofContainer.mono fun made created => ⟨time, created⟩
  | restored s => exact reads_ofContainer

/-- The parent of a new container is ready to be written, and its chain of parents has room. -/
theorem reads_preparedParent {time : Instant} :
    (preparedParent limits id parentId time).Reads h fun prepared =>
      h.store.records[parentId]? = some prepared.1 ∧
        (∃ p, prepared.1.hydrate = .ok p ∧ p.addMember id .container time = .ok prepared.2) ∧
        ∃ chain, h.store.contents.shape.Chain parentId chain ∧ chain.length < limits.maxDepth := by
  simp only [preparedParent]
  refine (reads_load.mapError ?_).bind ?_
  · intro e harmless
    cases e <;> exact harmless
  intro answer given
  rcases answer with ⟨record, parent⟩
  rcases given with ⟨found, hydrated⟩
  apply reads_ancestors.bind
  intro chain above
  by_cases cyclic : chain.contains id = true
  · simp only [if_pos cyclic]
    exact reads_throw not_false
  simp only [if_neg cyclic]
  by_cases deep : limits.maxDepth ≤ chain.length
  · simp only [if_pos deep]
    exact reads_throw not_false
  simp only [if_neg deep]
  apply reads_ofContainer.bind
  intro grown added
  exact reads_pure ⟨found, ⟨parent, hydrated, added⟩, chain, above, Nat.lt_of_not_le deep⟩

/-- The parent of a new container is ready to be written, and its chain has room for another level; a root has none. -/
def ParentReady (S : MemoryStore) (maxDepth : Nat) (c : Container) (time : Instant) :
    Option (Record × Container) → Prop
  | none => c.parentId = ""
  | some (record, parent) => c.parentId ≠ "" ∧ S.records[c.parentId]? = some record ∧
      (∃ p, record.hydrate = .ok p ∧ p.addMember c.id .container time = .ok parent) ∧
        ∃ chain, S.contents.shape.Chain c.parentId chain ∧ chain.length < maxDepth

namespace ParentReady

variable {S : MemoryStore} {maxDepth : Nat} {c : Container} {time : Instant} {parent : Option (Record × Container)}

theorem prepared (ready : ParentReady S maxDepth c time parent) (sane : S.contents.Sane) (valid : c.toSnapshot.Valid) :
    ∀ p ∈ parent, p.1.id ≠ c.id ∧
      Prepared S p.1 p.2 (some (.insert { id := c.id, type := .container, addedAt := time })) := by
  rintro ⟨record, parent⟩ ⟨⟩
  obtain ⟨-, found, ⟨p, hydrated, added⟩, -⟩ := ready
  refine ⟨fun same => ?_, Prepared.of_add sane found hydrated added⟩
  exact valid.parent_ne ((sane.record found).1.symm.trans same)

theorem hasRoom (ready : ParentReady S maxDepth c time parent) : S.contents.shape.HasRoom maxDepth c.parentId := by
  intro proper
  cases parent with
  | none => exact absurd ready proper
  | some parent => exact ready.2.2.2

end ParentReady

/-- What is left to tell of the held part of a creation is how it stores a container whose identifier was never used,
with the parent ready to be written, if there is one. Before that it only looks. -/
theorem ensures_createHeld_of {c : Container} {post : Post Container}
    (refused : ∀ fails e, (fails = [] → ¬ e.IsWriteFault) → post fails (.error e) h)
    (stored : ∀ time parent, h.store.contents c.id = none → h.store.retired.contains c.id = false →
      ParentReady h.store limits.maxDepth c time parent → (storePrepared c time parent).Ensures h post) :
    (createHeld limits c).Ensures h post := by
  simp only [createHeld]
  apply reads_isStored.ensures_bind refused
  intro known same
  subst same
  by_cases known : (h.store.contents c.id).isSome = true
  · simp only [if_pos known]
    exact ensures_throw (refused [] _ fun _ => not_false)
  simp only [if_neg known]
  have absent : h.store.contents c.id = none := by simpa using known
  apply reads_isRetired.ensures_bind refused
  intro gone same
  subst same
  by_cases used : h.store.retired.contains c.id = true
  · simp only [if_pos used]
    exact ensures_throw (refused [] _ fun _ => not_false)
  simp only [if_neg used]
  have unused : h.store.retired.contains c.id = false := Bool.eq_false_of_not_eq_true used
  apply reads_now.ensures_bind refused
  intro time _
  by_cases top : c.parentId.isEmpty = true
  · simp only [if_pos top]
    apply (reads_pure (P := (· = none)) rfl).ensures_bind refused
    intro parent none
    subst none
    exact stored time none absent unused (String.isEmpty_iff.1 top)
  · have proper : c.parentId ≠ "" := fun none => top (String.isEmpty_iff.2 none)
    simp only [if_neg top]
    have prepared : (some <$> preparedParent limits c.id c.parentId time).Reads h
        (ParentReady h.store limits.maxDepth c time) :=
      Reads.map (reads_preparedParent.mono fun _ ready => ⟨proper, ready⟩)
    apply prepared.ensures_bind refused
    exact fun parent ready => stored time parent absent unused ready

/-- How the held part of a creation may end: it settles, and with an index that repeats the members of new
containers it has a verdict. That is so for containers that have none; the rows of others are not written. -/
def CreateVerdict (h : Holdings) (c : Container) (effect : Container → List Event → MemoryStore → Prop) :
    Post Container := fun fails out h' =>
  Settled h effect fails out h' ∧ (c.members = [] → Verdict h effect fails out h')

theorem CreateVerdict.kept {c : Container} {effect : Container → List Event → MemoryStore → Prop}
    {fails : List FaultPoint} {e : RepositoryError} {h' : Holdings} (kept : Kept h fails e h') :
    CreateVerdict h c effect fails (.error e) h' :=
  ⟨kept, fun _ => kept⟩

theorem CreateVerdict.mono {c : Container} {effect weaker : Container → List Event → MemoryStore → Prop}
    {fails : List FaultPoint} {out : Except RepositoryError Container} {h' : Holdings}
    (verdict : CreateVerdict h c effect fails out h')
    (imp : ∀ a events S', effect a events S' → weaker a events S') : CreateVerdict h c weaker fails out h' := by
  obtain ⟨settled, whole⟩ := verdict
  cases out with
  | ok a =>
    constructor
    · obtain ⟨events, done, published⟩ := settled
      exact ⟨events, imp a events h'.store done, published⟩
    · intro empty
      obtain ⟨events, done, rest⟩ := whole empty
      exact ⟨events, imp a events h'.store done, rest⟩
  | error e => exact ⟨settled, whole⟩

theorem CreateVerdict.refused {c : Container} {effect : Container → List Event → MemoryStore → Prop}
    (sane : h.store.contents.Sane) (fails : List FaultPoint) (e : RepositoryError)
    (harmless : fails = [] → ¬ e.IsWriteFault) : CreateVerdict h c effect fails (.error e) h :=
  .kept (Kept.refl sane harmless)

/-- Listing a new container in its parent, or taking the new container back. `early` names the requests that
failed before. -/
theorem ensures_enrol {h₀ : Holdings} {c p : Container} {record : Record} {entry : Member}
    (early : List FaultPoint) (sane : h₀.store.contents.Sane) (valid : c.toSnapshot.Valid)
    (absent : h₀.store.contents c.id = none) (published : h.published = h₀.published)
    (store : h.store = h₀.store.put (.first c)) (apart : c.id ≠ record.id)
    (listed : h₀.Mirrored → h.Lists (update h₀.store.contents.listing c.id (some [])))
    (ready : Prepared h.store record p (some (.insert entry))) :
    (onError (commit record p [.insert entry]) fun _ => unwindCreate c.id).Ensures h fun fails out h' =>
      match out with
      | .ok _ => fails = [] ∧ h'.published = h₀.published ∧ h'.store = h.store.put (record.next p) ∧
          (h₀.Mirrored →
            h'.Lists (update (update h₀.store.contents.listing c.id (some [])) record.id (some p.members)))
      | .error e => Kept h₀ (early ++ fails) e h' := by
  have sane₁ : h.store.contents.Sane := by
    rw [store, MemoryStore.contents_put]
    exact sane.put valid
  have deleted : h₀.store.SameContents (h.store.perform (.delete c.id)).2 := by
    rw [store]
    exact MemoryStore.sameContents_delete_put (r := .first c) absent
  have own : update h₀.store.contents.listing c.id (some []) record.id = some record.container.members := by
    have found : h₀.store.records[record.id]? = some record := by
      rw [← MemoryStore.records_put_of_ne (S := h₀.store) (r := .first c) apart, ← store]
      exact ready.found
    rw [Function.update_of_ne (Ne.symm apart), Contents.listing, MemoryStore.contents_eq_some found]
    rfl
  apply Ensures.onError
  refine (ensures_commit ready).mono ?_
  intro fails out h₁ ended
  obtain ⟨published₁, ended⟩ := ended
  cases out with
  | ok next =>
    obtain ⟨rfl, rfl, store₁, lists⟩ := ended
    exact ⟨rfl, published₁.trans published, store₁, fun known => lists _ (listed known) own⟩
  | error e =>
    obtain ⟨store₁, failed⟩ := ended
    refine ensures_unwindCreate.mono fun late out h' ended => ?_
    obtain ⟨done, published', stored, gone, relisted⟩ := ended
    rw [store₁] at stored gone
    refine ⟨done, published'.trans (published₁.trans published), ?_, ?_, ?_, ?_⟩
    · rcases stored with same | same
      · rw [same]
        exact sane₁
      · rw [same, deleted.contents]
        exact sane
    · intro all
      rw [gone fun point mem => all point (List.mem_append_right _ (List.mem_append_right _ mem))]
      exact deleted
    · intro none known
      have nonempty := (failed _ (listed known) own).1
      simp only [List.append_eq_nil_iff] at none
      exact absurd none.2.1 nonempty
    · intro one known
      obtain ⟨nonempty, restored⟩ := failed _ (listed known) own
      have least : fails.length ≠ 0 := fun zero => nonempty (List.length_eq_zero_iff.1 zero)
      simp only [List.length_append] at one
      have noMore : late = [] := List.length_eq_zero_iff.1 (by omega)
      subst noMore
      constructor
      · rw [gone fun point mem => absurd mem List.not_mem_nil]
        exact deleted
      · apply (relisted rfl _ (restored (by omega))).congr
        have free : h₀.store.contents.listing c.id = none := by
          rw [Contents.listing, absent]
          rfl
        rw [Function.update_idem, ← free, Function.update_eq_self]

/-- The partition and the record of a new container. If either fails, neither stays. -/
theorem ensures_storeNew {c : Container} {effect : Container → List Event → MemoryStore → Prop}
    {rest : Action Container} (sane : h.store.contents.Sane) (absent : h.store.contents c.id = none)
    (unused : h.store.retired.contains c.id = false)
    (next : ∀ early h₁, h₁.published = h.published → h₁.store = h.store.put (.first c) →
      (h.Mirrored → h₁.Lists (update h.store.contents.listing c.id (some []))) →
        rest.Ensures h₁ fun late => CreateVerdict h c effect (early ++ late)) :
    (seedPartition c.id >>= fun _ => insertNew c >>= fun _ => rest).Ensures h (CreateVerdict h c effect) := by
  have free : h.store.contents.listing c.id = none := by
    rw [Contents.listing, absent]
    rfl
  refine ensures_seedPartition.bind ?_ ?_
  · intro early _ h₁ given
    rcases given with ⟨only, seeded⟩
    have absent₁ : h₁.store.contents c.id = none := by
      rw [only.store]
      exact absent
    have unused₁ : h₁.store.retired.contains c.id = false := by
      rw [only.store]
      exact unused
    refine (ensures_insertNew absent₁ unused₁).bind ?_ ?_
    · intro _ _ h₂ given
      rcases given with ⟨published, rfl, store, index⟩
      refine (next early h₂ (published.trans only.published) (by rw [store, only.store]) ?_).mono ?_
      · intro mirrored
        have listed : h₁.Lists (update h.store.contents.listing c.id (some [])) := seeded _ mirrored free
        change h₂.index.Lists _
        rw [index]
        exact listed
      · exact fun _ _ _ ended => ended
    · intro fails e h' given
      rcases given with ⟨published, store, failed, dropped⟩
      apply CreateVerdict.kept
      apply Kept.of_store_eq sane (published.trans only.published) (store.trans only.store)
      intro mirrored
      refine ⟨fun none => failed (List.append_eq_nil_iff.1 none).2, fun one => ?_⟩
      have least : fails.length ≠ 0 := fun zero => failed (List.length_eq_zero_iff.1 zero)
      rw [List.length_append] at one
      apply (dropped (by omega) _ (seeded _ mirrored free)).congr
      rw [Function.update_idem, ← free, Function.update_eq_self]
  · intro fails e h' given
    rcases given with ⟨only, failed⟩
    apply CreateVerdict.kept
    apply Kept.of_store_eq sane only.published only.store
    intro mirrored
    obtain ⟨nonempty, listed⟩ := failed _ mirrored free
    exact ⟨nonempty, fun _ => listed⟩

/-- A new root is stored. -/
theorem ensures_storePrepared_root {c : Container} {time : Instant} (sane : h.store.contents.Sane)
    (valid : c.toSnapshot.Valid) (absent : h.store.contents c.id = none)
    (unused : h.store.retired.contains c.id = false) (top : c.parentId = "") :
    (storePrepared c time none).Ensures h (CreateVerdict h c fun answer events S' =>
      answer = c.takeEvents.2 ∧ Created h.store c events S') := by
  simp only [storePrepared]
  apply reads_checkContext.ensures_bind (CreateVerdict.refused sane)
  intro _ _
  apply ensures_storeNew sane absent unused
  intro early h₁ published store listed
  have absentRecord : h.store.records[c.id]? = none := Option.map_eq_none_iff.1 absent
  have created : Created h.store c (c.pending ++ []) h₁.store :=
    ⟨valid, absentRecord, unused, time, [], store ▸ .root top, rfl⟩
  have reported : h₁.published ++ (c.pending ++ []) = h.published ++ (c.pending ++ []) := by
    rw [published]
  refine ensures_publish (ensures_pure ⟨⟨_, ⟨rfl, created⟩, reported⟩, fun empty => ?_⟩)
  refine ⟨_, ⟨rfl, created⟩, reported, fun _ mirrored => ?_⟩
  change h₁.index.Lists h₁.store.contents.listing
  rw [store, MemoryStore.contents_put, Contents.listing_update]
  change h₁.index.Lists (update h.store.contents.listing c.id (some c.members))
  rw [empty]
  exact listed mirrored

/-- A new container is stored and listed in its parent. -/
theorem ensures_storePrepared_below {c p parent : Container} {record : Record} {time : Instant}
    (sane : h.store.contents.Sane) (valid : c.toSnapshot.Valid) (absent : h.store.contents c.id = none)
    (unused : h.store.retired.contains c.id = false) (proper : c.parentId ≠ "")
    (found : h.store.records[c.parentId]? = some record) (hydrated : record.hydrate = .ok p)
    (added : p.addMember c.id .container time = .ok parent) :
    (storePrepared c time (some (record, parent))).Ensures h (CreateVerdict h c fun answer events S' =>
      answer = c.takeEvents.2 ∧ Created h.store c events S') := by
  simp only [storePrepared]
  apply reads_checkContext.ensures_bind (CreateVerdict.refused sane)
  intro _ _
  apply ensures_storeNew sane absent unused
  intro early h₁ published store listed
  have absentRecord : h.store.records[c.id]? = none := Option.map_eq_none_iff.1 absent
  have key : record.id = c.parentId := (sane.record found).1
  have apart : c.id ≠ record.id := by
    intro same
    exact valid.parent_ne (key.symm.trans same.symm)
  have ready : Prepared h₁.store record parent
      (some (.insert { id := c.id, type := .container, addedAt := time })) := by
    rw [store]
    exact (Prepared.of_add sane found hydrated added).put apart
  refine (ensures_enrol early sane valid absent published store apart listed ready).bind ?_ ?_
  · intro _ next h₂ given
    rcases given with ⟨rfl, published₂, store₂, listed₂⟩
    have created : Created h.store c (c.pending ++ parent.pending) h₂.store := by
      refine ⟨valid, absentRecord, unused, time, parent.pending, ?_, rfl⟩
      rw [store₂, store]
      refine .below proper ?_ hydrated added
      rw [MemoryStore.records_put_of_ne (key ▸ apart)]
      exact found
    have reported : h₂.published ++ (c.pending ++ parent.pending) =
        h.published ++ (c.pending ++ parent.pending) := by
      rw [published₂]
    refine ensures_publish (ensures_pure ⟨⟨_, ⟨rfl, created⟩, reported⟩, fun empty => ?_⟩)
    refine ⟨_, ⟨rfl, created⟩, reported, fun _ mirrored => ?_⟩
    change h₂.index.Lists h₂.store.contents.listing
    rw [store₂, store, MemoryStore.contents_put, MemoryStore.contents_put, Contents.listing_update,
      Contents.listing_update]
    change h₂.index.Lists (update (update h.store.contents.listing c.id (some c.members)) parent.id
      (some parent.members))
    rw [empty, ready.own]
    exact listed₂ mirrored
  · exact fun _ _ _ kept => CreateVerdict.kept kept

theorem ensures_createHeld_any {c : Container} (sane : h.store.contents.Sane) (valid : c.toSnapshot.Valid) :
    (createHeld limits c).Ensures h (CreateVerdict h c fun answer events S' =>
      answer = c.takeEvents.2 ∧ Created h.store c events S' ∧
        h.store.contents.shape.HasRoom limits.maxDepth c.parentId) := by
  apply ensures_createHeld_of (CreateVerdict.refused sane)
  intro time parent absent unused ready
  have room := ready.hasRoom
  have held : (storePrepared c time parent).Ensures h (CreateVerdict h c fun answer events S' =>
      answer = c.takeEvents.2 ∧ Created h.store c events S') := by
    cases parent with
    | none => exact ensures_storePrepared_root sane valid absent unused ready
    | some parent =>
      obtain ⟨proper, found, ⟨p, hydrated, added⟩, -⟩ := ready
      exact ensures_storePrepared_below sane valid absent unused proper found hydrated added
  refine held.mono fun _ _ _ verdict => ?_
  exact verdict.mono fun answer events S' created => ⟨created.1, created.2, room⟩

theorem ensures_createHeld {c : Container} (sane : h.store.contents.Sane) (valid : c.toSnapshot.Valid)
    (empty : c.members = []) :
    (createHeld limits c).Ensures h (Verdict h fun answer events S' =>
      answer = c.takeEvents.2 ∧ Created h.store c events S' ∧
        h.store.contents.shape.HasRoom limits.maxDepth c.parentId) :=
  (ensures_createHeld_any sane valid).mono fun _ _ _ verdict => verdict.2 empty

/-! ### Deleting a container -/

theorem ensures_detach {time : Instant} (sane : h.store.contents.Sane) :
    (detach id parentId time).Ensures h fun fails out h' =>
      match out with
      | .ok (write, events) => fails = [] ∧ Detached h.store id parentId time events h'.store ∧
          Midway h write.toList h'
      | .error e => Kept h fails e h' := by
  simp only [detach]
  by_cases top : parentId.isEmpty
  · rw [if_pos top]
    exact ensures_pure ⟨rfl, .unlisted (.inl (String.isEmpty_iff.1 top)), .start sane⟩
  have proper : parentId ≠ "" := fun none => top (String.isEmpty_iff.2 none)
  rw [if_neg top]
  refine reads_read?.ensures_bind (fun _ _ harmless => Kept.refl sane harmless) ?_
  intro stored same
  subst same
  cases found : h.store.records[parentId]? with
  | none =>
    refine ensures_pure ⟨rfl, .unlisted (.inr fun r p present _ => ?_), .start sane⟩
    rw [found] at present
    cases present
  | some record =>
    refine reads_hydrate.ensures_bind (fun _ _ harmless => Kept.refl sane harmless) ?_
    intro parent hydrated
    by_cases listed : parent.containsMember id = true
    · simp only [if_pos listed]
      refine reads_ofContainer.ensures_bind (fun _ _ harmless => Kept.refl sane harmless) ?_
      intro given done
      rcases given with ⟨removed, shrunk⟩
      have ready := Prepared.of_remove sane found hydrated done
      refine ((Midway.start sane).ensures_commit ready fun _ mem => absurd mem List.not_mem_nil).bind ?_ ?_
      · intro _ next h₁ given
        rcases given with ⟨rfl, rfl, store, midway⟩
        refine ensures_pure ⟨rfl, ?_, midway⟩
        rw [store]
        exact .listed proper found hydrated done
      · intro fails e h' given
        rcases given with ⟨published, store, failed⟩
        exact Kept.of_unwritten sane published store failed
    · simp only [if_neg listed]
      refine ensures_pure ⟨rfl, .unlisted (.inr fun r p present hydrated' => ?_), .start sane⟩
      rw [found] at present
      cases present
      rw [hydrated] at hydrated'
      cases hydrated'
      exact Bool.eq_false_of_not_eq_true listed

/-- How the held part of a deletion may end: with `false` and nothing done if the parent is not the expected one
any more, or with a verdict. -/
def DeleteVerdict (h : Holdings) (id parentId : String) : Post Bool := fun fails out h' =>
  (out = .ok false ∧ fails = [] ∧ h' = h ∧ ∃ r, h.store.records[id]? = some r ∧ r.parentId ≠ parentId) ∨
    Verdict h (fun done events S' => done = true ∧ Deleted h.store id events S') fails out h'

theorem DeleteVerdict.refused (sane : h.store.contents.Sane) (fails : List FaultPoint) (e : RepositoryError)
    (harmless : fails = [] → ¬ e.IsWriteFault) : DeleteVerdict h id parentId fails (.error e) h :=
  .inr (Kept.refl sane harmless)

/-- Deleting a container whose parent is known. -/
theorem ensures_deleteHeld (sane : h.store.contents.Sane) :
    (deleteHeld id parentId).Ensures h (DeleteVerdict h id parentId) := by
  simp only [deleteHeld]
  apply reads_load.ensures_bind (DeleteVerdict.refused sane)
  intro answer given
  rcases answer with ⟨record, c⟩
  rcases given with ⟨found, hydrated⟩
  by_cases moved : record.parentId ≠ parentId
  · simp only [if_pos moved]
    exact ensures_pure (.inl ⟨rfl, rfl, rfl, record, found, moved⟩)
  simp only [if_neg moved]
  have here : record.parentId = parentId := not_not.1 moved
  refine Ensures.mono ?_ fun _ _ _ => Or.inr
  by_cases full : (!c.members.isEmpty) = true
  · simp only [if_pos full]
    exact ensures_verdict_throw sane not_false
  simp only [if_neg full]
  have empty : c.members = [] := by simpa using full
  apply reads_checkContext.verdict_bind sane
  intro _ _
  apply reads_now.verdict_bind sane
  intro time _
  refine (ensures_detach sane).bind ?_ fun _ _ _ ended => ended
  intro _ answer h₁ given
  rcases answer with ⟨write, parentEvents⟩
  rcases given with ⟨rfl, detached, midway⟩
  refine ensures_tryStore ?_ fun e => ?_
  · rw [MemoryStore.perform_retire]
    have whole : Deleted h.store id ((c.markDeleted time).pending ++ parentEvents) (h₁.store.retiring id) :=
      ⟨record, c, time, parentEvents, h₁.store, found, hydrated, empty, here ▸ detached, rfl, rfl⟩
    have reported : h₁.published ++ ((c.markDeleted time).pending ++ parentEvents) =
        h.published ++ ((c.markDeleted time).pending ++ parentEvents) := by
      rw [midway.published]
    refine ensures_tryIndex ?_ fun e => ?_
    · refine ensures_publish (ensures_pure ⟨_, ⟨rfl, whole⟩, reported, fun _ mirrored => ?_⟩)
      refine Holdings.Lists.congr (Index.Lists.dropPartition (midway.mirrored mirrored) id).2 ?_
      change _ = (h₁.store.retiring id).contents.listing
      rw [MemoryStore.contents_retiring, Contents.listing_update]
      rfl
    · refine ensures_publish (ensures_pure ⟨_, ⟨rfl, whole⟩, reported, fun none => ?_⟩)
      cases none
  · have abandon : (unwind write.toList >>= fun _ => throw (.store e) : Action Bool).Ensures h₁ fun late =>
        Verdict h (fun done events S' => done = true ∧ Deleted h.store id events S') ([.store .retire] ++ late) :=
      ensures_abandon_throw _ _ midway.published midway.sane midway.written
        fun mirrored => ⟨List.cons_ne_nil _ _, fun _ => midway.mirrored mirrored⟩
    cases write with
    | none => exact abandon
    | some write =>
      obtain ⟨previous, committed⟩ := write
      rw [Option.toList_some, unwind_single] at abandon
      exact abandon

/-- Whoever is alone deletes at the first attempt. -/
theorem ensures_deleteWithin (attempts : Nat) (sane : h.store.contents.Sane) :
    (deleteWithin id attempts).Ensures h (Verdict h fun _ events S' => Deleted h.store id events S') := by
  cases attempts with
  | zero => exact ensures_verdict_throw sane not_false
  | succ attempts =>
    simp only [deleteWithin]
    apply reads_load.verdict_bind sane
    intro answer given
    rcases answer with ⟨record, c⟩
    rcases given with ⟨found, -⟩
    refine (ensures_withContainers (fun _ => DeleteVerdict.refused sane _ _ fun _ => not_false)
      (ensures_deleteHeld sane)).bind ?_ ?_
    · intro early done h₁ given
      rcases given with ⟨-, -, -, r, found', moved⟩ | ended
      · rw [found] at found'
        cases found'
        exact absurd rfl moved
      · obtain ⟨events, ⟨rfl, deleted⟩, published, mirrored⟩ := ended
        exact ensures_pure ⟨events, deleted, published, (List.append_nil early).symm ▸ mirrored⟩
    · intro fails e h' given
      rcases given with ⟨impossible, -⟩ | kept
      · cases impossible
      · exact kept

end Containment.Repository
