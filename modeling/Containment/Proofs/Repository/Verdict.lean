/-
Module: Containment.Proofs.Repository.Verdict
Purpose: How a call that writes may end. Either it has its whole effect, or what it leaves behind is bounded by
  which requests failed: none of the contents after one failure, nothing of the store while only the index
  fails. A call on its way is described by the writes it would have to take back.
Main exports: Kept, Verdict, Settled, Midway, ensures_abandon, Midway.ensures_commit
-/
import Containment.Proofs.Repository.Commit

namespace Containment

open Function (update)

namespace Repository

/-- What an error leaves of the state `h`: nothing is reported, and every stored container keeps the rules. The
contents of the store are as before if only requests to the index failed; with an index that was right, store
and index are as before if no request or just one failed. -/
structure Kept (h : Holdings) (fails : List FaultPoint) (e : RepositoryError) (h' : Holdings) : Prop where
  published : h'.published = h.published
  sane : h'.store.contents.Sane
  contents : (∀ point ∈ fails, point.isIndex) → h.store.SameContents h'.store
  clean : fails = [] → h.Mirrored → h'.store = h.store ∧ h'.Mirrored ∧ ¬ e.IsWriteFault
  single : fails.length = 1 → h.Mirrored → h.store.SameContents h'.store ∧ h'.Lists h.store.contents.listing

/-- A call ends with its whole effect and its reports handed on, or with an error that keeps what was there. -/
def Verdict {α : Type} (h : Holdings) (effect : α → List Event → MemoryStore → Prop) : Action.Post α :=
  fun fails out h' =>
    match out with
    | .ok a => ∃ events, effect a events h'.store ∧ h'.published = h.published ++ events ∧
        (fails = [] → h.Mirrored → h'.Mirrored)
    | .error e => Kept h fails e h'

/-- The same without a word on the index of a call that succeeds. -/
def Settled {α : Type} (h : Holdings) (effect : α → List Event → MemoryStore → Prop) : Action.Post α :=
  fun fails out h' =>
    match out with
    | .ok a => ∃ events, effect a events h'.store ∧ h'.published = h.published ++ events
    | .error e => Kept h fails e h'

theorem Verdict.settled {α : Type} {h h' : Holdings} {effect : α → List Event → MemoryStore → Prop}
    {fails : List FaultPoint} {out : Except RepositoryError α} (verdict : Verdict h effect fails out h') :
    Settled h effect fails out h' := by
  cases out with
  | ok a =>
    obtain ⟨events, whole, published, -⟩ := verdict
    exact ⟨events, whole, published⟩
  | error e => exact verdict

section

variable {α : Type} {h h' : Holdings} {effect weaker : α → List Event → MemoryStore → Prop} {fails : List FaultPoint}
  {out : Except RepositoryError α}

/-- The same verdict with less said of the effect. -/
theorem Verdict.mono (verdict : Verdict h effect fails out h')
    (imp : ∀ a events S', effect a events S' → weaker a events S') : Verdict h weaker fails out h' := by
  cases out with
  | ok a =>
    obtain ⟨events, whole, rest⟩ := verdict
    exact ⟨events, imp a events h'.store whole, rest⟩
  | error e => exact verdict

theorem Settled.mono (settled : Settled h effect fails out h')
    (imp : ∀ a events S', effect a events S' → weaker a events S') : Settled h weaker fails out h' := by
  cases out with
  | ok a =>
    obtain ⟨events, whole, published⟩ := settled
    exact ⟨events, imp a events h'.store whole, published⟩
  | error e => exact settled

end

/-- A call that began at `h₀` has come to `h` by these writes, and no request has failed yet. -/
structure Midway (h₀ : Holdings) (writes : List (Record × Record)) (h : Holdings) : Prop where
  published : h.published = h₀.published
  sane : h.store.contents.Sane
  written : Written h₀.store writes h.store
  mirrored : h₀.Mirrored → h.Mirrored

variable {h : Holdings}

theorem Midway.start (sane : h.store.contents.Sane) : Midway h [] h :=
  ⟨rfl, sane, .nil, id⟩

theorem Kept.refl (sane : h.store.contents.Sane) {fails : List FaultPoint} {e : RepositoryError}
    (harmless : fails = [] → ¬ e.IsWriteFault) : Kept h fails e h :=
  { published := rfl
    sane
    contents := fun _ => .refl _
    clean := fun none mirrored => ⟨rfl, mirrored, harmless none⟩
    single := fun _ mirrored => ⟨.refl _, mirrored⟩ }

/-- An error that comes of a failed request before anything has reached the store. -/
theorem Kept.of_store_eq (sane : h.store.contents.Sane) {fails : List FaultPoint} {e : RepositoryError}
    {h' : Holdings} (published : h'.published = h.published) (store : h'.store = h.store)
    (failed : h.Mirrored → fails ≠ [] ∧ (fails.length = 1 → h'.Lists h.store.contents.listing)) :
    Kept h fails e h' :=
  { published
    sane := by rw [store]; exact sane
    contents := fun _ => by rw [store]; exact .refl _
    clean := fun none mirrored => absurd none (failed mirrored).1
    single := fun one mirrored => ⟨by rw [store]; exact .refl _, (failed mirrored).2 one⟩ }

/-- An error of the first write of a call, which has not reached the store. -/
theorem Kept.of_unwritten (sane : h.store.contents.Sane) {fails : List FaultPoint} {e : RepositoryError}
    {h' : Holdings} (published : h'.published = h.published) (store : h'.store = h.store)
    (failed : h.Mirrored → fails ≠ [] ∧ (fails.length = 1 → h'.Mirrored)) : Kept h fails e h' := by
  refine Kept.of_store_eq sane published store fun mirrored => ⟨(failed mirrored).1, fun one => ?_⟩
  have mirrored' := (failed mirrored).2 one
  unfold Holdings.Mirrored at mirrored'
  rw [store] at mirrored'
  exact mirrored'

end Repository

namespace Action

open Repository

variable {α β : Type} {h : Holdings} {effect : α → List Event → MemoryStore → Prop}

/-- Looking around before the first write. -/
theorem Reads.verdict_bind {x : Action β} {f : β → Action α} {P : β → Prop} (reads : x.Reads h P)
    (sane : h.store.contents.Sane) (ok : ∀ b, P b → (f b).Ensures h (Verdict h effect)) :
    (x >>= f).Ensures h (Verdict h effect) :=
  reads.ensures_bind (fun _ _ harmless => Kept.refl sane harmless) ok

theorem ensures_verdict_throw {e : RepositoryError} (sane : h.store.contents.Sane) (harmless : ¬ e.IsWriteFault) :
    (throw e : Action α).Ensures h (Verdict h effect) :=
  ensures_throw (Kept.refl sane fun _ => harmless)

theorem ensures_verdict_mono {h₀ : Holdings} {weaker : α → List Event → MemoryStore → Prop} {x : Action α}
    (ensures : x.Ensures h (Verdict h₀ effect))
    (imp : ∀ a events S', effect a events S' → weaker a events S') : x.Ensures h (Verdict h₀ weaker) :=
  ensures.mono fun _ _ _ verdict => verdict.mono imp

/-- A program that only looks has no effect. -/
theorem Reads.verdict {x : Action α} {P : α → Prop} (reads : x.Reads h P) (sane : h.store.contents.Sane)
    (none : ∀ a, P a → effect a [] h.store) : x.Ensures h (Verdict h effect) := by
  refine Ensures.mono reads fun fails out h' ended => ?_
  obtain ⟨rfl, ended⟩ := ended
  cases out with
  | ok a => exact ⟨[], none a ended.2, (List.append_nil _).symm, fun _ mirrored => mirrored⟩
  | error e => exact Kept.refl sane ended

theorem ensures_verdict_withLock {lock : LockName} {mode : Mode} {body : Action α}
    (sane : h.store.contents.Sane) (held : body.Ensures h (Verdict h effect)) :
    (withLock lock mode body).Ensures h (Verdict h effect) :=
  ensures_withLock (fun _ => Kept.refl sane fun _ => not_false) held

theorem ensures_verdict_withContainers {ids : List String} {body : Action α}
    (sane : h.store.contents.Sane) (held : body.Ensures h (Verdict h effect)) :
    (withContainers ids body).Ensures h (Verdict h effect) :=
  ensures_withContainers (fun _ => Kept.refl sane fun _ => not_false) held

end Action

namespace Repository

open Containment.Action

variable {α : Type} {h₀ h : Holdings} {writes : List (Record × Record)}
  {effect : α → List Event → MemoryStore → Prop} {record : Record} {container : Container}
  {change : Option IndexChange}

/-- Giving up on the way: the writes are taken back, which never fails itself. -/
theorem ensures_abandon (early : List FaultPoint) (e : RepositoryError)
    (published : h.published = h₀.published) (sane : h.store.contents.Sane)
    (written : Written h₀.store writes h.store)
    (failed : h₀.Mirrored → early ≠ [] ∧ (early.length = 1 → h.Mirrored)) :
    (unwind writes).Ensures h fun late out h' => out = .ok () ∧ Kept h₀ (early ++ late) e h' := by
  intro late out h' run
  obtain ⟨done, published', sane'⟩ := ensures_unwind_sane written.restores late out h' run
  obtain ⟨back, relisted⟩ := ensures_unwind written (.refl h.store) written.found late out h' run
  refine ⟨done, published'.trans published, sane' sane, ?_, ?_, ?_⟩
  · intro all
    exact back fun point mem => all point (List.mem_append_right _ mem)
  · intro none mirrored
    exact absurd (List.append_eq_nil_iff.1 none).1 (failed mirrored).1
  · intro one mirrored
    obtain ⟨nonempty, listed⟩ := failed mirrored
    have first : early.length ≠ 0 := fun zero => nonempty (List.length_eq_zero_iff.1 zero)
    rw [List.length_append] at one
    have noMore : late = [] := List.length_eq_zero_iff.1 (by omega)
    subst noMore
    refine ⟨back fun point mem => absurd mem List.not_mem_nil, relisted rfl (listed ?_)⟩
    simpa using one

/-- Giving up on the way with an error. -/
theorem ensures_abandon_throw (early : List FaultPoint) (e : RepositoryError)
    (published : h.published = h₀.published) (sane : h.store.contents.Sane)
    (written : Written h₀.store writes h.store)
    (failed : h₀.Mirrored → early ≠ [] ∧ (early.length = 1 → h.Mirrored)) :
    (unwind writes >>= fun _ => throw e : Action α).Ensures h fun late => Verdict h₀ effect (early ++ late) := by
  refine (ensures_abandon early e published sane written failed).bind ?_ fun _ _ _ ended => by cases ended.1
  intro late _ h' given
  rcases given with ⟨-, kept⟩
  exact ensures_throw ((List.append_nil late).symm ▸ kept)

/-- The next write of a call on its way. -/
theorem Midway.ensures_commit (midway : Midway h₀ writes h) (ready : Prepared h.store record container change)
    (fresh : ∀ write ∈ writes, write.2.id ≠ record.id) :
    (commit record container change.toList).Ensures h fun fails out h' =>
      match out with
      | .ok next => next = record.next container ∧ fails = [] ∧ h'.store = h.store.put next ∧
          Midway h₀ (writes ++ [(record, next)]) h'
      | .error _ => h'.published = h₀.published ∧ h'.store = h.store ∧
          (h₀.Mirrored → fails ≠ [] ∧ (fails.length = 1 → h'.Mirrored)) := by
  have listed : h.store.contents.listing record.id = some record.container.members := by
    change (h.store.contents record.id).map Snapshot.members = _
    rw [MemoryStore.contents_eq_some ready.found]
    rfl
  refine (Repository.ensures_commit ready).mono fun fails out h' ended => ?_
  obtain ⟨published, ended⟩ := ended
  cases out with
  | ok next =>
    obtain ⟨rfl, rfl, store, lists⟩ := ended
    refine ⟨rfl, rfl, store, published.trans midway.published, ?_, ?_, ?_⟩
    · rw [store, MemoryStore.contents_put]
      exact midway.sane.put ready.valid
    · rw [store]
      exact .snoc midway.written ready.found ready.own ready.kept fresh
    · intro mirrored
      apply (lists _ (midway.mirrored mirrored) listed).congr
      rw [store, MemoryStore.contents_put, Contents.listing_update]
      change update _ record.id _ = update _ container.id _
      rw [ready.own]
      rfl
  | error e =>
    obtain ⟨store, lists⟩ := ended
    refine ⟨published.trans midway.published, store, fun mirrored => ?_⟩
    obtain ⟨nonempty, restored⟩ := lists _ (midway.mirrored mirrored) listed
    refine ⟨nonempty, fun one => ?_⟩
    change h'.Lists h'.store.contents.listing
    rw [store]
    exact restored one

/-- The whole write of a call that changes one container. -/
theorem ensures_commit_publish {a : α} (sane : h.store.contents.Sane)
    (ready : Prepared h.store record container change)
    (whole : effect a container.pending (h.store.put (record.next container))) :
    (commit record container change.toList >>= fun _ => publish container.pending >>= fun _ => pure a).Ensures h
      (Verdict h effect) := by
  refine ((Midway.start sane).ensures_commit ready fun _ mem => absurd mem List.not_mem_nil).bind ?_ ?_
  · intro early next h₁ given
    rcases given with ⟨rfl, rfl, store, midway⟩
    refine ensures_publish (ensures_pure ⟨container.pending, ?_, ?_, ?_⟩)
    · change effect a container.pending h₁.store
      rw [store]
      exact whole
    · change h₁.published ++ _ = _
      rw [midway.published]
    · exact fun _ mirrored => midway.mirrored mirrored
  · intro fails e h' given
    rcases given with ⟨published, store, failed⟩
    exact Kept.of_unwritten sane published store failed

end Repository

end Containment
