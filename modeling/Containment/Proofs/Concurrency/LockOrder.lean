/-
Module: Containment.Proofs.Concurrency.LockOrder
Purpose: The order in which locks are taken: the hierarchy before every container, and containers by their
  identifiers. Every call takes a lock only if all that it has by then come before it, and gives back all that it
  takes.
Main exports: LockName.Before, Program.Ascends, Action.Ascends, ascends_withLock, ascends_withContainers,
  Call.ascends
-/
import Containment.Proofs.Concurrency.Bare
import Mathlib.Data.Finset.Basic
import Mathlib.Data.Finset.Dedup
import Mathlib.Data.Finset.Lattice.Lemmas

namespace Containment

/-! ### The order of locks -/

/-- The lock comes before another one. -/
def LockName.Before : LockName → LockName → Prop
  | .hierarchy, .container _ => True
  | .container a, .container b => a < b
  | _, .hierarchy => False

namespace LockName

theorem not_before_self (lock : LockName) : ¬ lock.Before lock := by
  cases lock with
  | hierarchy => exact not_false
  | container id => exact String.lt_irrefl id

theorem Before.ne {a b : LockName} (before : a.Before b) : a ≠ b := by
  rintro rfl
  exact a.not_before_self before

theorem Before.trans {a b c : LockName} (first : a.Before b) (second : b.Before c) : a.Before c := by
  cases c with
  | hierarchy => cases b <;> exact second.elim
  | container z =>
    cases b with
    | hierarchy => cases a <;> exact first.elim
    | container y =>
      cases a with
      | hierarchy => exact trivial
      | container x => exact String.lt_trans first second

end LockName

/-- Several containers are locked in this order. -/
theorem lockOrder_ascends (ids : List String) : ((lockOrder ids).map LockName.container).Pairwise LockName.Before := by
  rw [List.pairwise_map]
  have sorted := Std.ExtTreeSet.ordered_toList (t := Std.ExtTreeSet.ofList (ids.filter (· ≠ "")))
  exact sorted.imp fun {a b} less => compareOfLessAndEq_eq_lt.1 (show compareOfLessAndEq a b = .lt from less)

/-! ### Programs -/

/-- Having these locks, the program takes another one only if all of them come before it, gives back only what it
has, and ends as `ends` says. -/
def Program.Ascends {α : Type} : Program α → Finset LockName → (α → Finset LockName → Prop) → Prop
  | .done a, held, ends => ends a held
  | .effect _ next, held, ends => ∀ answer, (next answer).Ascends held ends
  | .check next, held, ends => ∀ status, (next status).Ascends held ends
  | .acquire lock _ next, held, ends =>
      (∀ l ∈ held, l.Before lock) ∧ (∀ reason, (next (some reason)).Ascends held ends) ∧
        (next none).Ascends (insert lock held) ends
  | .release lock next, held, ends => lock ∈ held ∧ (next ()).Ascends (held.erase lock) ends

namespace Program

variable {α β : Type} {p : Program α} {held : Finset LockName} {ends : α → Finset LockName → Prop}

/-- One program after another: the second begins with the locks that the first leaves. -/
theorem Ascends.andThen {f : α → Program β} {better : α → Finset LockName → Prop} {ends : β → Finset LockName → Prop}
    (first : p.Ascends held better) (second : ∀ a left, better a left → (f a).Ascends left ends) :
    (p.bind f).Ascends held ends := by
  induction p generalizing held with
  | done a => exact second a held first
  | effect request next ih => exact fun answer => ih answer (first answer)
  | check next ih => exact fun status => ih status (first status)
  | acquire lock mode next ih =>
    obtain ⟨above, canceled, entered⟩ := first
    exact ⟨above, fun reason => ih _ (canceled reason), ih _ entered⟩
  | release lock next ih => exact ⟨first.1, ih () first.2⟩

theorem Ascends.bind {f : α → Program β} {ends : β → Finset LockName → Prop}
    (ascends : p.Ascends held fun a left => (f a).Ascends left ends) : (p.bind f).Ascends held ends :=
  ascends.andThen fun _ _ => id

theorem Ascends.mono {better : α → Finset LockName → Prop} (ascends : p.Ascends held better)
    (imp : ∀ a left, better a left → ends a left) : p.Ascends held ends := by
  rw [← bind_done p]
  exact ascends.andThen imp

theorem Bare.ascends (bare : p.Bare) (same : ∀ a, ends a held) : p.Ascends held ends := by
  induction p with
  | done a => exact same a
  | effect request next ih => exact fun answer => ih answer (bare answer)
  | check next ih => exact fun status => ih status (bare status)
  | acquire lock mode next => exact bare.elim
  | release lock next => exact bare.elim

end Program

namespace Action

variable {α β : Type} {x : Action α} {f : α → Action β} {held : Finset LockName}

/-- A program that may fail takes locks in their order. However it ends, it has the locks that it began with. -/
def Ascends (x : Action α) (held : Finset LockName) : Prop :=
  Program.Ascends x.run held fun _ left => left = held

theorem Bare.ascends (bare : x.Bare) : x.Ascends held :=
  Program.Bare.ascends bare fun _ => rfl

theorem Ascends.bind (first : x.Ascends held) (second : ∀ a, (f a).Ascends held) : (x >>= f).Ascends held := by
  apply Program.Ascends.bind
  apply Program.Ascends.mono first
  rintro out left rfl
  cases out with
  | ok a => exact second a
  | error e => exact rfl

theorem Ascends.map (f : α → β) (ascends : x.Ascends held) : (f <$> x).Ascends held := by
  rw [map_eq_pure_bind]
  exact ascends.bind fun a => (bare_pure (f a)).ascends

theorem Ascends.tryCatch {handler : RepositoryError → Action α} (first : x.Ascends held)
    (handled : ∀ e, (handler e).Ascends held) : (tryCatch x handler : Action α).Ascends held := by
  apply Program.Ascends.bind
  apply Program.Ascends.mono first
  rintro out left rfl
  cases out with
  | ok a => exact rfl
  | error e => exact handled e

/-! ### One lock -/

theorem ascends_withLock {lock : LockName} {mode : Mode} (above : ∀ l ∈ held, l.Before lock)
    (body : x.Ascends (insert lock held)) : (withLock lock mode x).Ascends held := by
  have fresh : lock ∉ held := fun mem => lock.not_before_self (above lock mem)
  refine ⟨above, fun reason => rfl, ?_⟩
  apply Program.Ascends.bind
  apply Program.Ascends.mono body
  rintro out left rfl
  exact ⟨Finset.mem_insert_self lock held, Finset.erase_insert fresh⟩

/-- A single lock and nothing else. -/
theorem Bare.ascends_withLock {lock : LockName} {mode : Mode} (bare : x.Bare) : (withLock lock mode x).Ascends ∅ :=
  Action.ascends_withLock (fun l impossible => absurd impossible (Finset.notMem_empty l)) bare.ascends

/-! ### Several containers -/

theorem ascends_releaseAll {locks : List LockName} (distinct : locks.Nodup) (fresh : ∀ l ∈ locks, l ∉ held) :
    (releaseAll locks).Ascends (held ∪ locks.toFinset) fun _ left => left = held := by
  induction locks with
  | nil => simp [releaseAll, Program.Ascends]
  | cons lock rest ih =>
    obtain ⟨alone, distinct⟩ := List.nodup_cons.1 distinct
    have without : (held ∪ (lock :: rest).toFinset).erase lock = held ∪ rest.toFinset := by
      rw [List.toFinset_cons, Finset.union_insert, Finset.erase_insert]
      rw [Finset.mem_union, List.mem_toFinset]
      exact not_or.2 ⟨fresh lock List.mem_cons_self, alone⟩
    refine ⟨?_, ?_⟩
    · rw [Finset.mem_union, List.mem_toFinset]
      exact .inr List.mem_cons_self
    · rw [without]
      exact ih distinct fun l mem => fresh l (List.mem_cons_of_mem lock mem)

/-- Taking locks in their order. If the context ends on the way, all are given back. -/
theorem ascends_acquireAll (locks taken : List LockName) (ordered : (taken ++ locks).Pairwise LockName.Before)
    (above : ∀ l ∈ held, ∀ l' ∈ taken ++ locks, l.Before l') :
    (acquireAll taken locks).Ascends (held ∪ taken.toFinset) fun status left =>
      left = if status.isNone then held ∪ (taken ++ locks).toFinset else held := by
  have fresh : ∀ l ∈ taken ++ locks, l ∉ held := fun l mem there => l.not_before_self (above l there l mem)
  induction locks generalizing taken with
  | nil => simp [acquireAll, Program.Ascends]
  | cons lock rest ih =>
    have shift : taken ++ lock :: rest = (taken ++ [lock]) ++ rest := by rw [List.append_assoc]; rfl
    have grown : insert lock (held ∪ taken.toFinset) = held ∪ (taken ++ [lock]).toFinset := by
      ext l
      simp only [Finset.mem_insert, Finset.mem_union, List.mem_toFinset, List.mem_append, List.mem_singleton]
      tauto
    have distinct : taken.Nodup := (List.pairwise_append.1 ordered).1.imp LockName.Before.ne
    refine ⟨?_, fun reason => ?_, ?_⟩
    · intro l mem
      rcases Finset.mem_union.1 mem with old | new
      · exact above l old lock (List.mem_append_right taken List.mem_cons_self)
      · exact (List.pairwise_append.1 ordered).2.2 l (List.mem_toFinset.1 new) lock List.mem_cons_self
    · apply Program.Ascends.bind
      apply (ascends_releaseAll distinct fun l mem => fresh l (List.mem_append_left _ mem)).mono
      exact fun _ left same => same
    · rw [grown, shift]
      rw [shift] at ordered above fresh
      exact ih (taken ++ [lock]) ordered above fresh

theorem ascends_withContainers {ids : List String} (above : ∀ l ∈ held, ∀ id, l.Before (.container id))
    (body : x.Ascends (held ∪ ((lockOrder ids).map LockName.container).toFinset)) :
    (withContainers ids x).Ascends held := by
  have ordered := lockOrder_ascends ids
  have beyond : ∀ l ∈ held, ∀ l' ∈ (lockOrder ids).map LockName.container, l.Before l' := by
    intro l mem l' mem'
    obtain ⟨id, -, rfl⟩ := List.mem_map.1 mem'
    exact above l mem id
  have distinct : ((lockOrder ids).map LockName.container).Nodup := ordered.imp LockName.Before.ne
  apply Program.Ascends.bind
  have acquires := ascends_acquireAll ((lockOrder ids).map LockName.container) [] ordered beyond
  rw [List.toFinset_nil, Finset.union_empty] at acquires
  apply acquires.mono
  rintro status left rfl
  cases status with
  | some reason => exact rfl
  | none =>
    apply Program.Ascends.bind
    apply Program.Ascends.mono body
    rintro out left rfl
    apply Program.Ascends.bind
    apply (ascends_releaseAll distinct fun l mem there => l.not_before_self (beyond l there l mem)).mono
    exact fun _ left same => same

/-- Several containers under the hierarchy, and nothing else. -/
theorem Bare.ascends_withContainers {ids : List String} (bare : x.Bare) :
    (withContainers ids x).Ascends {.hierarchy} := by
  apply Action.ascends_withContainers _ bare.ascends
  intro l mem id
  rw [Finset.mem_singleton.1 mem]
  exact trivial

end Action

/-! ### Guards -/

/-- Take a container to share it, and keep it. -/
def LockTable.read (key : String) : Program (Option Cancellation) :=
  .acquire (.container key) .shared .done

/-- Take a container alone, and keep it. -/
def LockTable.write (key : String) : Program (Option Cancellation) :=
  Action.acquireAll [] [.container key]

/-- Take several containers alone, and keep them. -/
def LockTable.writeMany (keys : List String) : Program (Option Cancellation) :=
  Action.acquireAll [] ((lockOrder keys).map .container)

/-- Who takes several containers has all of them or none. -/
theorem LockTable.ascends_writeMany (keys : List String) :
    (writeMany keys).Ascends ∅ fun status left =>
      left = if status.isNone then ((lockOrder keys).map LockName.container).toFinset else ∅ := by
  have nothing : ∀ l ∈ (∅ : Finset LockName), ∀ l' ∈ [] ++ (lockOrder keys).map LockName.container, l.Before l' :=
    fun l impossible => absurd impossible (Finset.notMem_empty l)
  have acquires := Action.ascends_acquireAll _ [] (lockOrder_ascends keys) nothing
  rw [List.toFinset_nil, Finset.empty_union] at acquires
  apply acquires.mono
  rintro status left rfl
  rw [Finset.empty_union, List.nil_append]

theorem LockTable.ascends_read (key : String) :
    (read key).Ascends ∅ fun status left => left = if status.isNone then {.container key} else ∅ :=
  ⟨fun l impossible => absurd impossible (Finset.notMem_empty l), fun _ => rfl, rfl⟩

theorem LockTable.ascends_write (key : String) :
    (write key).Ascends ∅ fun status left => left = if status.isNone then {.container key} else ∅ :=
  ⟨fun l impossible => absurd impossible (Finset.notMem_empty l), fun _ => rfl, rfl⟩

/-! ### The calls -/

namespace Repository

open Containment.Action

variable {limits : Limits} {classifier : Classifier}

/-- What runs under the hierarchy alone. -/
theorem ascends_hierarchy {α : Type} {x : Action α} {mode : Mode} (body : x.Ascends {.hierarchy}) :
    (withLock .hierarchy mode x).Ascends ∅ :=
  ascends_withLock (fun l impossible => absurd impossible (Finset.notMem_empty l)) body

theorem ascends_create (container : Container) : (create limits container).Ascends ∅ := by
  apply (bare_ofContainer _).ascends.bind
  intro _
  exact ascends_hierarchy (bare_createHeld container).ascends_withContainers

/-- A deletion that looks again has given its containers back before. -/
theorem ascends_deleteWithin (id : String) (attempts : Nat) : (deleteWithin id attempts).Ascends {.hierarchy} := by
  induction attempts with
  | zero => exact (bare_throw _).ascends
  | succ attempts ih =>
    simp only [deleteWithin]
    apply (bare_load id).ascends.bind
    rintro ⟨record, container⟩
    apply (bare_deleteHeld id record.parentId).ascends_withContainers.bind
    intro done
    by_cases finished : done = true
    · simp only [if_pos finished]
      exact (bare_pure ()).ascends
    · simp only [if_neg finished]
      exact ih

theorem ascends_delete (id : String) : (delete id).Ascends ∅ :=
  ascends_hierarchy (ascends_deleteWithin id deleteAttempts)

theorem ascends_move (id target : String) : (move limits id target).Ascends ∅ := by
  apply ascends_hierarchy
  apply (bare_load id).ascends.bind
  intro loaded
  apply (bare_checkMove id target).ascends.bind
  intro _
  exact (bare_moveHeld id loaded.1.parentId target).ascends_withContainers

theorem ascends_addMember (container member : String) : (addMember classifier container member).Ascends ∅ := by
  apply (bare_classify classifier container member).ascends.bind
  exact fun type => (bare_addMemberHeld container member type).ascends_withLock

theorem ascends_addMembers (container : String) (members : List String) :
    (addMembers classifier container members).Ascends ∅ := by
  induction members with
  | nil => exact (bare_pure 0).ascends
  | cons member rest ih =>
    apply (ascends_addMember container member).bind
    exact fun _ => ih.bind fun others => (bare_pure _).ascends

/-! #### Reading -/

theorem ascends_get (id : String) : (get id).Ascends ∅ :=
  ((bare_load id).bind fun loaded => bare_pure loaded.2).ascends_withLock

theorem ascends_children (id : String) : (children id).Ascends ∅ := by
  apply Bare.ascends_withLock
  exact (looks_childRecords id).bare.bind fun records => (looks_mapM looks_hydrate records).bare

theorem ascends_countMembers (container : String) (type : Option MemberType) :
    (countMembers container type).Ascends ∅ :=
  (looks_askIndex (looks_tryIndex (.count container type) trivial)).bare.ascends_withLock

theorem ascends_listMembers (container : String) (options : ListOptions) :
    (listMembers limits container options).Ascends ∅ := by
  apply Bare.ascends_withLock
  apply (looks_askIndex (looks_tryIndex (.count ..) trivial)).bare.bind
  intro total
  by_cases nothing : limits.pageLimit options.limit = 0 ∨ total ≤ options.offset
  · simp only [if_pos nothing]
    exact (bare_pure _).bind fun entries => bare_pure _
  · simp only [if_neg nothing]
    exact (looks_askIndex (looks_tryIndex (.select ..) trivial)).bare.bind fun entries => bare_pure _

theorem ascends_nextBatch (cursor : Cursor) : (nextBatch cursor).Ascends ∅ := by
  simp only [nextBatch]
  by_cases exhausted : cursor.isExhausted = true
  · rw [if_pos exhausted]
    exact (bare_pure _).ascends
  rw [if_neg exhausted]
  by_cases nothing : cursor.take = 0
  · rw [if_pos nothing]
    exact (bare_pure _).ascends
  rw [if_neg nothing]
  exact (looks_fetchHeld cursor).bare.ascends_withLock.bind fun rows => (bare_pure _).ascends

/-- Between two batches a reader has no lock. -/
theorem ascends_drainWithin (batches : Nat) (cursor : Cursor) : (drainWithin batches cursor).Ascends ∅ := by
  induction batches generalizing cursor with
  | zero => exact (bare_pure []).ascends
  | succ batches ih =>
    simp only [drainWithin]
    apply (ascends_nextBatch cursor).bind
    rintro ⟨batch, cursor⟩
    by_cases empty : batch.isEmpty = true
    · simp only [if_pos empty]
      exact (bare_pure []).ascends
    · simp only [if_neg empty]
      exact (ih cursor).bind fun rest => (bare_pure _).ascends

/-! #### Comparing and repairing -/

/-- One container is given back before the next one is taken. -/
theorem ascends_rebuildEach (ids : List String) (summary : RebuildSummary) : (rebuildEach ids summary).Ascends ∅ := by
  induction ids generalizing summary with
  | nil => exact (bare_pure summary).ascends
  | cons id rest ih =>
    simp only [rebuildEach]
    apply Ascends.bind
    · apply ((bare_rebuildHeld id).ascends_withLock.map some).tryCatch
      intro e
      cases e <;> first | exact (bare_pure none).ascends | exact (bare_throw _).ascends
    · intro rows
      cases rows with
      | none => exact ih summary
      | some rows => exact ih _

theorem ascends_dropOrphans (partitions : List String) (summary : RebuildSummary) :
    (dropOrphans partitions summary).Ascends ∅ := by
  induction partitions generalizing summary with
  | nil => exact (bare_pure summary).ascends
  | cons partition rest ih => exact (bare_dropOrphan partition).ascends_withLock.bind fun dropped => ih _

theorem ascends_rebuildAll : rebuildAll.Ascends ∅ := by
  apply (looks_store .ids trivial).bare.ascends.bind
  intro ids
  apply (ascends_rebuildEach ids {}).bind
  intro summary
  apply (bare_index .partitions).ascends.bind
  exact fun partitions => ascends_dropOrphans _ summary

theorem ascends_verifyEach (ids : List String) (report : ConsistencyReport) : (verifyEach ids report).Ascends ∅ := by
  induction ids generalizing report with
  | nil => exact (bare_pure report).ascends
  | cons id rest ih =>
    simp only [verifyEach]
    apply (looks_verifyHeld id).bare.ascends_withLock.bind
    intro compared
    cases compared with
    | none => exact ih report
    | some compared => exact ih _

theorem ascends_verify : verify.Ascends ∅ := by
  apply (looks_store .ids trivial).bare.ascends.bind
  intro ids
  apply (ascends_verifyEach ids {}).bind
  intro report
  apply (bare_index .partitions).ascends.bind
  intro partitions
  exact ((looks_findOrphans _).bare.bind fun orphans => bare_pure _).ascends

end Repository

open Containment.Action Repository in
/-- Every call takes its locks in their order and gives all of them back. -/
theorem Call.ascends (settings : Settings) (call : Call) : (call.action settings).Ascends ∅ := by
  cases call with
  | create draft => exact (bare_draw draft).ascends.bind fun container => (ascends_create container).map _
  | get id => exact (ascends_get id).map _
  | contains id => exact ((looks_contains id).bare.map _).ascends
  | delete id => exact (ascends_delete id).bind fun _ => (bare_pure _).ascends
  | updateMetadata id update => exact (bare_updateMetadataHeld id update).ascends_withLock.map _
  | addMember container member => exact (ascends_addMember container member).map _
  | addMembers container members => exact (ascends_addMembers container members).map _
  | removeMember container member => exact (bare_removeMemberHeld container member).ascends_withLock.map _
  | listMembers container options => exact (ascends_listMembers container options).map _
  | countMembers container type => exact (ascends_countMembers container type).map _
  | drain container options batchSize => exact (ascends_drainWithin _ _).map _
  | nextBatch cursor => exact (ascends_nextBatch cursor).map _
  | children id => exact (ascends_children id).map _
  | parent id => exact (looks_parentHeld id).bare.ascends_withLock.map _
  | path id => exact (looks_pathHeld id).bare.ascends_withLock.map _
  | find target => exact (looks_findHeld target).bare.ascends_withLock.map _
  | move id target => exact (ascends_move id target).map _
  | rebuild id => exact (bare_rebuildHeld id).ascends_withLock.map _
  | rebuildAll => exact ascends_rebuildAll.map _
  | verify => exact ascends_verify.map _

end Containment
