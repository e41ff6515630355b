/-
Module: Containment.Proofs.Repository.Commit
Purpose: Writing a container to index and store, and taking such writes back. A commit that fails has not
  reached the store; if just one request failed, it has left no trace in the index either.
Main exports: Prepared, ensures_commit, ensures_rollBack, Written, ensures_unwind, ensures_insertNew,
  ensures_unwindCreate
-/
import Containment.Proofs.Repository.IndexWrites
import Containment.Repository.Lifecycle
import Mathlib.Data.List.Induction

namespace Containment

open Function (update)

/-- The record that brings an earlier container back after a write. -/
def Record.restored (previous committed : Record) : Record :=
  { revision := committed.revision + 1, container := previous.container }

/-- A write that is ready: the record is the stored one, and the changed container fits the change of its
rows. -/
structure Prepared (S : MemoryStore) (record : Record) (container : Container) (change : Option IndexChange) :
    Prop where
  found : S.records[record.id]? = some record
  kept : record.container.Valid
  own : container.id = record.id
  valid : container.toSnapshot.Valid
  members : container.members = change.elim record.container.members (·.apply record.container.members)
  fits : ∀ c ∈ change, c.Fits record.container.members

theorem Prepared.put {S : MemoryStore} {record : Record} {container : Container} {change : Option IndexChange}
    (ready : Prepared S record container change) {other : Record} (ne : other.id ≠ record.id) :
    Prepared (S.put other) record container change :=
  { ready with found := (MemoryStore.records_put_of_ne ne).trans ready.found }

namespace Repository

open Containment.Action

variable {h : Holdings} {record previous committed : Record} {container : Container} {id : String}
  {change : Option IndexChange}

/-- A commit that succeeds has written both, and no request failed. A commit that fails has not written the
store, and with an index that was right before it fails only because a request did. -/
theorem ensures_commit (ready : Prepared h.store record container change) :
    (commit record container change.toList).Ensures h fun fails out h' =>
      h'.published = h.published ∧
        match out with
        | .ok next => next = record.next container ∧ fails = [] ∧ h'.store = h.store.put next ∧
            ∀ lists, h.Lists lists → lists record.id = some record.container.members →
              h'.Lists (update lists record.id (some container.members))
        | .error _ => h'.store = h.store ∧
            ∀ lists, h.Lists lists → lists record.id = some record.container.members →
              fails ≠ [] ∧ (fails.length = 1 → h'.Lists lists) := by
  have ownNext : (record.next container).id = record.id := ready.own
  simp only [commit]
  rw [ready.own]
  refine (ensures_applyIndex change).bind ?_ ?_
  · intro early _ h₁ given
    rcases given with ⟨only, rfl, listed⟩
    have current : h₁.store.records[(record.next container).id]? = some record := by
      rw [only.store, ownNext]
      exact ready.found
    refine ensures_tryStore ?_ fun e => ?_
    · rw [MemoryStore.perform_update current rfl, only.store]
      refine ensures_pure ⟨only.published, rfl, rfl, rfl, fun lists known own => ?_⟩
      rw [ready.members]
      exact listed lists known own ready.fits
    · refine (ensures_undoIndex change ready.kept.nodup ready.fits).bind ?_ ?_
      · intro late _ h₂ given
        rcases given with ⟨-, only', undone⟩
        refine ensures_throw ⟨only'.published.trans only.published, only'.store.trans only.store, ?_⟩
        intro lists known own
        simp only [List.append_nil, List.nil_append]
        refine ⟨List.cons_ne_nil _ _, fun single => ?_⟩
        have noFails : late = [] := by simpa using single
        exact undone noFails lists own (listed lists known own ready.fits)
      · intro fails e h₂ given
        rcases given with ⟨⟨⟩, -⟩
  · intro fails e h₁ given
    rcases given with ⟨only, clean⟩
    exact ⟨only.published, only.store, fun lists known own => clean lists known own ready.fits⟩

/-- Rolling back never fails itself. The store is rolled back unless its request fails, the index if no
request fails. -/
theorem ensures_rollBack (kept : previous.container.Valid) (same : previous.id = committed.id) :
    (rollBack previous committed).Ensures h fun fails out h' =>
      out = .ok () ∧ h'.published = h.published ∧
        (h'.store = h.store ∨ h'.store = h.store.put (previous.restored committed)) ∧
        (h.store.records[committed.id]? = some committed → (∀ point ∈ fails, point.isIndex) →
          h'.store = h.store.put (previous.restored committed)) ∧
        (fails = [] → ∀ lists, h.Lists lists →
          h'.Lists (update lists previous.id (some previous.container.members))) := by
  refine ensures_tryStore ?_ fun e => ?_
  · have outcome : (h.store.perform (.update (previous.restored committed) committed.revision)).2 = h.store ∨
        (h.store.perform (.update (previous.restored committed) committed.revision)).2 =
          h.store.put (previous.restored committed) := by
      rcases h.store.update_cases (previous.restored committed) committed.revision with
        ⟨-, -, -, done⟩ | ⟨-, e, kept⟩
      · exact .inr (by rw [done])
      · exact .inl (by rw [kept])
    have current : h.store.records[committed.id]? = some committed →
        (h.store.perform (.update (previous.restored committed) committed.revision)).2 =
          h.store.put (previous.restored committed) := by
      intro found
      have found : h.store.records[(previous.restored committed).id]? = some committed := by
        rw [← same] at found
        exact found
      rw [MemoryStore.perform_update found rfl]
    refine ensures_tryIndex (ensures_pure ?_) fun e => ensures_pure ?_
    · exact ⟨rfl, rfl, outcome, fun found _ => current found,
        fun _ lists known => (Index.Lists.replacePartition known kept.nodup).2⟩
    · exact ⟨rfl, rfl, outcome, fun found _ => current found, fun impossible => by cases impossible⟩
  · refine ensures_tryIndex (ensures_pure ?_) fun e => ensures_pure ?_
    all_goals
      refine ⟨rfl, rfl, .inl rfl, fun _ onlyIndex => ?_, fun impossible => by cases impossible⟩
      have bad : FaultPoint.isIndex (.store .update) = true := onlyIndex _ List.mem_cons_self
      cases bad

/-! ### Several writes

A move writes up to two parents before its own record. What has been written is taken back in reverse order. -/

/-- The writes, each a record before and after, that lead from one store to another. No container is written
twice. -/
inductive Written (S₀ : MemoryStore) : List (Record × Record) → MemoryStore → Prop
  | nil : Written S₀ [] S₀
  | snoc {writes : List (Record × Record)} {S : MemoryStore} {previous committed : Record} :
      Written S₀ writes S → S.records[previous.id]? = some previous → committed.id = previous.id →
      previous.container.Valid → (∀ write ∈ writes, write.2.id ≠ previous.id) →
      Written S₀ (writes ++ [(previous, committed)]) (S.put committed)

/-- The latest state of everything written is stored. -/
theorem Written.found {S₀ S : MemoryStore} {writes : List (Record × Record)} (written : Written S₀ writes S) :
    ∀ write ∈ writes, S.records[write.2.id]? = some write.2 := by
  induction written with
  | nil => exact fun _ mem => absurd mem List.not_mem_nil
  | @snoc writes S previous committed _ _ same _ fresh ih =>
    intro write mem
    rcases List.mem_append.1 mem with old | new
    · have ne : committed.id ≠ write.2.id := same ▸ (fresh write old).symm
      rw [MemoryStore.records_put_of_ne ne]
      exact ih write old
    · rw [List.mem_singleton.1 new]
      exact MemoryStore.records_put_self committed

theorem unwind_snoc (writes : List (Record × Record)) (previous committed : Record) :
    unwind (writes ++ [(previous, committed)]) =
      rollBack previous committed >>= fun _ => unwind writes := by
  simp only [unwind]
  rw [List.reverse_append]
  rfl

theorem unwind_single (previous committed : Record) :
    unwind [(previous, committed)] = rollBack previous committed :=
  bind_pure (rollBack previous committed)

theorem Written.restores {S₀ S : MemoryStore} {writes : List (Record × Record)} (written : Written S₀ writes S) :
    ∀ write ∈ writes, write.1.container.Valid ∧ write.1.id = write.2.id := by
  induction written with
  | nil => exact fun _ mem => absurd mem List.not_mem_nil
  | snoc _ _ same kept _ ih =>
    intro write mem
    rcases List.mem_append.1 mem with old | new
    · exact ih write old
    · rw [List.mem_singleton.1 new]
      exact ⟨kept, same.symm⟩

/-- Taking writes back never fails itself, and whatever is stored then keeps the rules. -/
theorem ensures_unwind_sane {writes : List (Record × Record)}
    (restores : ∀ write ∈ writes, write.1.container.Valid ∧ write.1.id = write.2.id) :
    (unwind writes).Ensures h fun _ out h' =>
      out = .ok () ∧ h'.published = h.published ∧ (h.store.contents.Sane → h'.store.contents.Sane) := by
  induction writes using List.reverseRecOn generalizing h with
  | nil => exact ensures_pure ⟨rfl, rfl, id⟩
  | append_singleton writes write ih =>
    obtain ⟨previous, committed⟩ := write
    obtain ⟨kept, same⟩ := restores (previous, committed) (List.mem_append_right _ List.mem_cons_self)
    rw [unwind_snoc]
    refine (ensures_rollBack kept same).bind ?_ fun _ _ _ ended => by cases ended.1
    intro _ _ h₁ given
    rcases given with ⟨-, published, stored, -⟩
    have sane₁ : h.store.contents.Sane → h₁.store.contents.Sane := by
      intro sane
      rcases stored with unchanged | restored
      · rw [unchanged]
        exact sane
      · rw [restored, MemoryStore.contents_put]
        exact sane.put kept
    refine (ih fun write mem => restores write (List.mem_append_left _ mem)).mono ?_
    intro _ _ h' given
    rcases given with ⟨done, published', sane'⟩
    exact ⟨done, published'.trans published, fun sane => sane' (sane₁ sane)⟩

/-- Taking all writes back brings the contents of the store back unless a request to the store fails, and the
index if no request fails. -/
theorem ensures_unwind {S₀ S : MemoryStore} {writes : List (Record × Record)} (written : Written S₀ writes S)
    (same : S.SameContents h.store)
    (current : ∀ write ∈ writes, h.store.records[write.2.id]? = some write.2) :
    (unwind writes).Ensures h fun fails _ h' =>
      ((∀ point ∈ fails, point.isIndex) → S₀.SameContents h'.store) ∧
        (fails = [] → h.Lists S.contents.listing → h'.Lists S₀.contents.listing) := by
  induction written generalizing h with
  | nil => exact ensures_pure ⟨fun _ => same, fun _ known => known⟩
  | @snoc writes S previous committed written found own kept fresh ih =>
    have before : S.contents previous.id = some previous.container := MemoryStore.contents_eq_some found
    rw [unwind_snoc]
    refine (ensures_rollBack kept own.symm).bind ?_ fun _ _ _ ended => by cases ended.1
    intro early _ h₁ given
    rcases given with ⟨-, -, -, rolled, listed⟩
    by_cases onlyIndex : ∀ point ∈ early, point.isIndex
    · have mine : h.store.records[committed.id]? = some committed :=
        current (previous, committed) (List.mem_append_right _ List.mem_cons_self)
      have store₁ := rolled mine onlyIndex
      have same₁ : S.SameContents h₁.store := by
        refine ⟨?_, by rw [store₁]; exact same.retired⟩
        rw [store₁, MemoryStore.contents_put, same.contents, MemoryStore.contents_put, own]
        change update (update S.contents previous.id _) previous.id (some previous.container) = _
        rw [Function.update_idem, ← before, Function.update_eq_self]
      have current₁ : ∀ write ∈ writes, h₁.store.records[write.2.id]? = some write.2 := by
        intro write mem
        have ne : (previous.restored committed).id ≠ write.2.id := (fresh write mem).symm
        rw [store₁, MemoryStore.records_put_of_ne ne]
        exact current write (List.mem_append_left _ mem)
      refine (ih same₁ current₁).mono fun late out h' ended => ?_
      constructor
      · intro all
        exact ended.1 fun point mem => all point (List.mem_append_right _ mem)
      · intro none known
        obtain ⟨rfl, rfl⟩ := List.append_eq_nil_iff.1 none
        refine ended.2 rfl ((listed rfl _ known).congr ?_)
        have member : S.contents.listing previous.id = some previous.container.members := by
          change (S.contents previous.id).map Snapshot.members = _
          rw [before]
          rfl
        rw [MemoryStore.contents_put, Contents.listing_update, own, Function.update_idem, ← member,
          Function.update_eq_self]
    · intro late out h' _
      constructor
      · intro all
        exact absurd (fun point mem => all point (List.mem_append_left _ mem)) onlyIndex
      · intro none
        obtain ⟨rfl, rfl⟩ := List.append_eq_nil_iff.1 none
        exact absurd (fun point mem => absurd mem List.not_mem_nil) onlyIndex

/-! ### New containers -/

/-- The first record of a new container. If it cannot be stored, its partition goes again. -/
theorem ensures_insertNew (absent : h.store.contents container.id = none)
    (fresh : h.store.retired.contains container.id = false) :
    (insertNew container).Ensures h fun fails out h' =>
      h'.published = h.published ∧
        match out with
        | .ok _ => fails = [] ∧ h'.store = h.store.put (.first container) ∧ h'.index = h.index
        | .error _ => h'.store = h.store ∧ fails ≠ [] ∧
            (fails.length = 1 → ∀ lists, h.Lists lists → h'.Lists (update lists container.id none)) := by
  refine ensures_tryStore ?_ fun e => ?_
  · have absent : h.store.contents (Record.first container).id = none := absent
    rw [MemoryStore.perform_insert absent fresh]
    exact ensures_pure ⟨rfl, rfl, rfl, rfl⟩
  · refine ensures_tryIndex ?_ fun e' => ?_
    · have dropped : ∀ lists, h.Lists lists →
          (h.index.perform (.dropPartition container.id)).2.Lists (update lists container.id none) :=
        fun lists known => (Index.Lists.dropPartition known container.id).2
      split
      · exact ensures_throw ⟨rfl, rfl, List.cons_ne_nil _ _, fun _ => dropped⟩
      · exact ensures_throw ⟨rfl, rfl, List.cons_ne_nil _ _, fun _ => dropped⟩
    · split
      · exact ensures_throw ⟨rfl, rfl, List.cons_ne_nil _ _, fun two => by cases two⟩
      · exact ensures_throw ⟨rfl, rfl, List.cons_ne_nil _ _, fun two => by cases two⟩

/-- Removing a container that has just been stored never fails itself. -/
theorem ensures_unwindCreate :
    (unwindCreate id).Ensures h fun fails out h' =>
      out = .ok () ∧ h'.published = h.published ∧
        (h'.store = h.store ∨ h'.store = (h.store.perform (.delete id)).2) ∧
        ((∀ point ∈ fails, point.isIndex) → h'.store = (h.store.perform (.delete id)).2) ∧
        (fails = [] → ∀ lists, h.Lists lists → h'.Lists (update lists id none)) := by
  refine ensures_tryStore ?_ fun e => ?_
  · refine ensures_tryIndex (ensures_pure ?_) fun e => ensures_pure ?_
    · exact ⟨rfl, rfl, .inr rfl, fun _ => rfl, fun _ lists known => (Index.Lists.dropPartition known id).2⟩
    · exact ⟨rfl, rfl, .inr rfl, fun _ => rfl, fun impossible => by cases impossible⟩
  · refine ensures_tryIndex (ensures_pure ?_) fun e => ensures_pure ?_
    all_goals
      refine ⟨rfl, rfl, .inl rfl, fun onlyIndex => ?_, fun impossible => by cases impossible⟩
      have bad : FaultPoint.isIndex (.store .delete) = true := onlyIndex _ List.mem_cons_self
      cases bad

end Repository

end Containment
