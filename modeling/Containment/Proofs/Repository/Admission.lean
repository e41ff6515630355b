/-
Module: Containment.Proofs.Repository.Admission
Purpose: Which containers may be made, and which may be moved where. Depth and height tell it, together with what is
  stored, reserved and listed; and whatever speaks against a call, its error tells the first such reason.
Main exports: MemoryStore.moveObjections, MemoryStore.AdmitsNew, MemoryStore.AdmitsMove, judges_checkMove, judges_move,
  Holdings.ArisesCleanly.admission_exact
-/
import Containment.Proofs.Repository.Clean
import Containment.Proofs.Repository.Surveying

namespace Containment

open Containment.Action Repository

/-! ### What speaks against a move -/

/-- What can speak against a move, in the order in which it is looked for. The place among the roots is always free, and
a container that stays where it is needs no second entry there. -/
def MemoryStore.moveObjections (S : MemoryStore) (maxDepth : Nat) (id target : String) : List Objection :=
  [⟨S.contents id = none, .notFound id⟩,
    ⟨target = id, .circularReference id target⟩,
    ⟨target ≠ "" ∧ S.contents target = none, .parentNotFound id target⟩,
    ⟨∃ j, S.contents.shape.Below (j + 1) id target, .circularReference id target⟩,
    ⟨∃ n k, S.contents.shape.Depth target n ∧ S.contents.shape.Height id k ∧ maxDepth < n + k,
      .depthExceeded id maxDepth⟩,
    ⟨S.contents.shape id ≠ some target ∧ S.contents.Names target id, .invalid (.duplicateMember target id)⟩]

/-- Nothing speaks against a move to the roots, except that there may be nothing to move. -/
theorem Contents.Sane.clear_of_move_to_root {S : MemoryStore} (sane : S.contents.Sane) (maxDepth : Nat) (id : String) :
    ∀ o ∈ (S.moveObjections maxDepth id "").drop 2, ¬ o.holds := by
  simp only [MemoryStore.moveObjections, List.drop_succ_cons, List.drop_zero, List.forall_mem_cons, List.not_mem_nil,
    IsEmpty.forall_iff, implies_true, and_true]
  refine ⟨fun proper => proper.1 rfl, ?_, ?_, fun given => sane.not_names_nameless id given.2⟩
  · rintro ⟨j, path⟩
    have stored := path.stored
    rw [sane.nameless] at stored
    cases stored
  · rintro ⟨n, k, at_depth, -⟩
    exact sane.not_depth_nameless n at_depth

namespace Repository

variable {w : World} {h : Holdings} {limits : Limits} {id target : String}

/-- The checks of a move. Among the roots there is no bound to keep. -/
theorem judges_checkMove (serves : w.Serves h) (sane : h.store.contents.Sane)
    (bounded : target ≠ "" → h.store.contents.Forest limits.maxDepth) (stored : (h.store.contents.shape id).isSome) :
    (checkMove limits id target).Judges w ((h.store.moveObjections limits.maxDepth id target).tail.take 4) fun _ w' =>
      w' = w := by
  simp only [checkMove]
  apply judges_ite Iff.rfl
  intro apart
  by_cases top : target.isEmpty
  · simp only [top, Bool.not_true, Bool.false_eq_true, if_false]
    rw [String.isEmpty_iff.1 top]
    refine (succeeds_pure ?_).judges_of_clear fun o mem => ?_
    · rfl
    · exact sane.clear_of_move_to_root limits.maxDepth id o (List.mem_of_mem_take mem)
  have proper : target ≠ "" := fun none => top (String.isEmpty_iff.2 none)
  have forest := bounded proper
  simp only [top, Bool.not_false, if_true]
  apply (succeeds_isStored serves target).judges_bind
  rintro _ w ⟨rfl, rfl⟩
  apply judges_ite
  · rw [and_iff_right proper, Bool.not_eq_true', Option.isSome_eq_false_iff, Option.isNone_iff_eq_none]
  intro present
  have there : (h.store.contents.shape target).isSome := by
    apply Contents.isSome_shape.2
    exact Option.isSome_iff_ne_none.2 fun missing => present (by rw [missing]; rfl)
  obtain ⟨chain, above, room⟩ := forest.bounded target there
  obtain ⟨upper, under, -⟩ := forest.bounded id stored
  apply (succeeds_ancestors serves sane above (le_sup_of_le_left room)).judges_bind
  rintro chain w ⟨rfl, rfl⟩
  apply judges_ite
  · -- on the way up from the target stands what the target is below, and the target itself, which was told before
    rw [List.contains_iff_mem, above.mem_iff_below sane.nameless under]
    constructor
    · rintro ⟨j, path⟩
      exact ⟨j + 1, path⟩
    · rintro ⟨j, path⟩
      cases j with
      | zero => exact absurd path apart
      | succ j => exact ⟨j, path⟩
  intro _
  apply (succeeds_subtreeHeight serves sane forest stored).judges_bind
  rintro levels w ⟨rfl, height⟩
  apply judges_ite
  · -- a container has one depth and one height, which are the ones that were found
    constructor
    · rintro ⟨n, k, at_depth, tall, deep⟩
      rwa [Shape.Depth.unique ⟨chain, above, rfl⟩ at_depth, height.unique tall]
    · exact fun deep => ⟨chain.length, levels, ⟨chain, above, rfl⟩, height, deep⟩
  intro _
  exact Succeeds.judges (succeeds_pure rfl)

/-! ### The move itself -/

/-- The new parent is prepared, unless it lists the container already. -/
theorem judges_attached (serves : w.Serves h) (sane : h.store.contents.Sane) (maxDepth : Nat) (time : Time.Instant)
    (named : ContainerId.check id = .ok ()) (apart : target ≠ id)
    (there : target ≠ "" → (h.store.contents target).isSome) (moves : h.store.contents.shape id ≠ some target) :
    (attached id target time).Judges w ((h.store.moveObjections maxDepth id target).drop 5) fun _ w' => w' = w := by
  simp only [attached]
  by_cases top : target.isEmpty
  · rw [if_pos top, String.isEmpty_iff.1 top]
    refine (succeeds_pure ?_).judges_of_clear fun o mem => ?_
    · rfl
    · exact sane.clear_of_move_to_root maxDepth id o (List.mem_of_mem_drop mem)
  have proper : target ≠ "" := fun none => top (String.isEmpty_iff.2 none)
  obtain ⟨s, stored⟩ := Option.isSome_iff_exists.1 (there proper)
  obtain ⟨r, found, -⟩ := MemoryStore.contents_eq_some_iff.1 stored
  -- what moves is not below the target yet, so the target must not list it
  have only : (h.store.contents.shape id ≠ some target ∧ h.store.contents.Names target id) =
      h.store.contents.Names target id := propext (and_iff_right moves)
  rw [if_neg top]
  apply (succeeds_load serves sane found).tryCatch.judges_bind
  rintro ⟨r, p⟩ w ⟨⟨rfl, hydrated⟩, rfl⟩
  change Judges _ w [⟨_ ∧ _, _⟩] _
  rw [only]
  refine (judges_addMember sane found hydrated named apart time).succeeds_bind ?_
  rintro grown w ⟨-, rfl⟩
  exact succeeds_pure rfl

/-- Nothing can speak against striking a container off its old parent. -/
theorem succeeds_detached (serves : w.Serves h) (sane : h.store.contents.Sane) (source : String)
    (time : Time.Instant) : (detached id source time).Succeeds w fun _ w' => w' = w := by
  simp only [detached]
  by_cases top : source.isEmpty
  · rw [if_pos top]
    exact succeeds_pure rfl
  rw [if_neg top]
  apply (succeeds_read? serves source).bind
  rintro _ w ⟨rfl, rfl⟩
  cases found : h.store.records[source]? with
  | none => exact succeeds_pure rfl
  | some record =>
    apply (succeeds_hydrate (sane.record found).2).bind
    rintro p w ⟨hydrated, rfl⟩
    by_cases listed : p.containsMember id = true
    · simp only [if_pos listed]
      obtain ⟨removed, shrunk, done⟩ := (Record.sound_of_hydrate hydrated).1.exists_removeMember listed time
      rw [done]
      exact succeeds_pure rfl
    · simp only [if_neg listed]
      exact succeeds_pure rfl

theorem judges_moveHeld (serves : w.Serves h) (tended : h.Tended) {record : Record}
    (found : h.store.records[id]? = some record) (apart : target ≠ id)
    (there : target ≠ "" → (h.store.contents target).isSome) :
    (moveHeld id record.parentId target).Judges w ((h.store.moveObjections limits.maxDepth id target).drop 5)
      fun _ w' => record.parentId = target → w' = w := by
  have parent : h.store.contents.shape id = some record.parentId := MemoryStore.shape_eq_some found
  obtain ⟨key, valid⟩ := tended.sane.record found
  simp only [moveHeld]
  apply (succeeds_load serves tended.sane found).judges_bind
  rintro ⟨record, c⟩ w ⟨⟨rfl, hydrated⟩, rfl⟩
  obtain ⟨-, same, -⟩ := Record.sound_of_hydrate hydrated
  by_cases stays : record.parentId = target
  · rw [if_pos stays]
    refine (succeeds_pure fun _ => rfl).judges_of_clear (List.forall_mem_singleton.2 ?_)
    exact fun moves => moves.1 (parent.trans (congrArg some stays))
  rw [if_neg stays]
  apply judges_now_bind
  intro time clock
  have serves' := serves.setClock clock
  have own : c.id = id := (congrArg Snapshot.id same).trans key
  obtain ⟨moved, done⟩ := Container.exists_reparent (own.symm ▸ apart) time
  have named : ContainerId.check id = .ok () := key ▸ valid.id_ok
  have moves : h.store.contents.shape id ≠ some target := by
    rw [parent]
    exact fun same => stays (Option.some.inj same)
  rw [done]
  apply (succeeds_pure (P := fun container w' => container = moved ∧ w' = _) ⟨rfl, rfl⟩).judges_bind
  rintro moved w ⟨rfl, rfl⟩
  have prepared := judges_attached serves' tended.sane limits.maxDepth time named apart there moves
  refine (prepared.reads serves' reads_attached).succeeds_bind ?_
  rintro newParent w ⟨rfl, attach⟩
  apply ((succeeds_detached serves' tended.sane record.parentId time).reads serves' reads_detached).bind
  rintro oldParent w ⟨rfl, detach⟩
  apply succeeds_checkContext_bind
  have written := manages_moveWrites tended stays apart attach detach found rfl hydrated done
  exact (written.succeeds serves').mono fun _ _ _ same => absurd same stays

/-- What speaks against a move. A container that is where it is to go leaves the world as it is. -/
theorem judges_move (serves : w.Serves h) (tended : h.Tended)
    (bounded : target ≠ "" → h.store.contents.Forest limits.maxDepth) :
    (move limits id target).Judges w (h.store.moveObjections limits.maxDepth id target) fun _ w' =>
      h.store.contents.shape id = some target → w' = w := by
  have parts : h.store.moveObjections limits.maxDepth id target = [⟨h.store.contents id = none, .notFound id⟩] ++
      ((h.store.moveObjections limits.maxDepth id target).tail.take 4 ++
        (h.store.moveObjections limits.maxDepth id target).drop 5) := rfl
  simp only [move, moveWithin]
  apply Judges.withLock
  rw [parts]
  refine (judges_load serves tended.sane id).bind ?_
  rintro ⟨record, c⟩ w ⟨⟨found, -⟩, rfl⟩
  have stored : h.store.contents.shape id = some record.parentId := MemoryStore.shape_eq_some found
  refine (judges_checkMove serves tended.sane bounded (Option.isSome_of_mem stored)).clear.bind ?_
  rintro _ w ⟨rfl, none⟩
  obtain ⟨apart, rest⟩ := List.forall_mem_cons.1 none
  obtain ⟨present, -⟩ := List.forall_mem_cons.1 rest
  have there : target ≠ "" → (h.store.contents target).isSome :=
    fun proper => Option.isSome_iff_ne_none.2 fun missing => present ⟨proper, missing⟩
  apply Judges.withContainers
  apply (judges_moveHeld serves tended found apart there).mono
  intro _ w' same stays
  exact same (Option.some.inj (stored.symm.trans stays))

end Repository

/-! ### What is admitted -/

namespace MemoryStore

variable {S : MemoryStore} {maxDepth : Nat} {id parent target : String}

/-- A container may be made: its identifier was never used, and it is to be a root, or its parent is stored, less deep
than the bound, and does not list it. -/
structure AdmitsNew (S : MemoryStore) (maxDepth : Nat) (id parent : String) : Prop where
  unspent : ¬ S.Spent id
  placed : parent = "" ∨ (S.contents parent).isSome ∧
    (∃ n, S.contents.shape.Depth parent n ∧ n < maxDepth) ∧ ¬ S.contents.Names parent id

/-- A container may be moved: it is stored, and it is to be a root, or its new parent is stored, is neither it nor
below it, has room for all levels of its subtree, and either has been its parent before or does not list it. -/
structure AdmitsMove (S : MemoryStore) (maxDepth : Nat) (id target : String) : Prop where
  stored : (S.contents id).isSome
  placed : target = "" ∨ (S.contents target).isSome ∧
    target ≠ id ∧ (∀ j, ¬ S.contents.shape.Below (j + 1) id target) ∧
    (∃ n k, S.contents.shape.Depth target n ∧ S.contents.shape.Height id k ∧ n + k ≤ maxDepth) ∧
    (S.contents.shape id = some target ∨ ¬ S.contents.Names target id)

/-- A container may be made just if nothing speaks against it. -/
theorem admitsNew_iff (sane : S.contents.Sane) (bounded : S.contents.shape.Bounded maxDepth) :
    S.AdmitsNew maxDepth id parent ↔ ∀ o ∈ S.creationObjections maxDepth id parent, ¬ o.holds := by
  by_cases top : parent = ""
  · subst top
    constructor
    · exact fun admits => List.forall_mem_cons.2 ⟨admits.unspent, sane.clear_of_root maxDepth id⟩
    · exact fun none => ⟨(List.forall_mem_cons.1 none).1, .inl rfl⟩
  simp only [creationObjections, List.forall_mem_cons, List.not_mem_nil, IsEmpty.forall_iff, implies_true, and_true]
  constructor
  · intro admits
    obtain ⟨stored, ⟨n, at_depth, room⟩, unlisted⟩ := admits.placed.resolve_left top
    refine ⟨admits.unspent, fun missing => ?_, ?_, unlisted⟩
    · exact Option.isSome_iff_ne_none.1 stored missing.2
    · rintro ⟨k, other, deep⟩
      rw [other.unique at_depth] at deep
      exact Nat.not_lt_of_le deep room
  · rintro ⟨unspent, present, shallow, unlisted⟩
    have stored : (S.contents parent).isSome := Option.isSome_iff_ne_none.2 fun missing => present ⟨top, missing⟩
    obtain ⟨n, at_depth, -⟩ := bounded.exists_depth (Contents.isSome_shape.2 stored)
    refine ⟨unspent, .inr ⟨stored, ⟨n, at_depth, ?_⟩, unlisted⟩⟩
    exact Nat.lt_of_not_le fun deep => shallow ⟨n, at_depth, deep⟩

/-- A container may be moved just if nothing speaks against it. -/
theorem admitsMove_iff (sane : S.contents.Sane) (bounded : S.contents.shape.Bounded maxDepth) :
    S.AdmitsMove maxDepth id target ↔ ∀ o ∈ S.moveObjections maxDepth id target, ¬ o.holds := by
  by_cases top : target = ""
  · subst top
    constructor
    · intro admits
      have present : S.contents id ≠ none := Option.isSome_iff_ne_none.1 admits.stored
      refine List.forall_mem_cons.2 ⟨present, List.forall_mem_cons.2 ⟨?_, sane.clear_of_move_to_root maxDepth id⟩⟩
      rintro rfl
      exact present (Option.map_eq_none_iff.1 sane.nameless)
    · exact fun none => ⟨Option.isSome_iff_ne_none.2 (List.forall_mem_cons.1 none).1, .inl rfl⟩
  simp only [moveObjections, List.forall_mem_cons, List.not_mem_nil, IsEmpty.forall_iff, implies_true, and_true]
  constructor
  · intro admits
    obtain ⟨there, apart, acyclic, ⟨n, k, at_depth, height, room⟩, listing⟩ := admits.placed.resolve_left top
    refine ⟨Option.isSome_iff_ne_none.1 admits.stored, apart, fun missing => ?_, ?_, ?_, ?_⟩
    · exact Option.isSome_iff_ne_none.1 there missing.2
    · rintro ⟨j, path⟩
      exact acyclic j path
    · rintro ⟨n', k', at_depth', height', deep⟩
      rw [at_depth'.unique at_depth, height'.unique height] at deep
      exact Nat.not_lt_of_le room deep
    · rintro ⟨moves, listed⟩
      rcases listing with stays | unlisted
      · exact moves stays
      · exact unlisted listed
  · rintro ⟨stored, apart, present, acyclic, shallow, unlisted⟩
    have there : (S.contents target).isSome := Option.isSome_iff_ne_none.2 fun missing => present ⟨top, missing⟩
    have stored := Option.isSome_iff_ne_none.2 stored
    obtain ⟨n, at_depth, -⟩ := bounded.exists_depth (Contents.isSome_shape.2 there)
    obtain ⟨k, height⟩ := bounded.exists_height sane.nameless (Contents.isSome_shape.2 stored)
    refine ⟨stored, .inr ⟨there, apart, fun j path => acyclic ⟨j, path⟩, ⟨n, k, at_depth, height, ?_⟩, ?_⟩⟩
    · exact Nat.le_of_not_lt fun deep => shallow ⟨n, k, at_depth, height, deep⟩
    · exact or_iff_not_imp_left.2 fun moves listed => unlisted ⟨moves, listed⟩

end MemoryStore

/-- Where no request failed, every container is received by a parent that does not list it. -/
theorem Holdings.Tended.receives {h : Holdings} {limits : Limits} (tended : h.Tended)
    (bounded : h.store.contents.shape.Bounded limits.maxDepth) (id parent : String) :
    ∃ lists, h.Receives limits id parent lists := by
  obtain ⟨lists, known, covers⟩ := tended.covered
  refine ⟨lists, known, ?_, bounded parent⟩
  intro stored unlisted
  obtain ⟨s, there⟩ := Option.isSome_iff_exists.1 stored
  obtain ⟨rows, listed, within⟩ := covers parent s there
  refine ⟨rows, listed, fun row mem same => unlisted ?_⟩
  obtain ⟨m, member, of⟩ := within row mem
  exact ⟨s, there, m, member, of.trans same⟩

/-- **Admission is exact.** Take any state that calls of any kind lead to, as long as no request of theirs failed, and a
call that runs alone and goes on to its end. A container that keeps the rules, with or without members, is made just if
its identifier is neither stored nor reserved and it is a root, or its parent is stored, lies less deep than the bound
and does not list it. A container is moved just if it is stored and is to be a root, or its new parent is stored, is
neither the container nor below it, has room for all levels of its subtree, and is its parent already or does not list
it. Any other call fails, and its error tells the first reason there is. A creation never finds a circle. -/
theorem Holdings.ArisesCleanly.admission_exact {settings : Settings} {h : Holdings} {w : World}
    (positive : 1 ≤ settings.limits.maxDepth) (arises : h.ArisesCleanly settings) (serves : w.Serves h) :
    (∀ c : Container, c.toSnapshot.Valid →
      ((∃ made, (create settings.limits c).outcome w = .ok made) ↔
        h.store.AdmitsNew settings.limits.maxDepth c.id c.parentId) ∧
      (∀ e, (create settings.limits c).outcome w = .error e ↔
        Objection.First (h.store.creationObjections settings.limits.maxDepth c.id c.parentId) e) ∧
      ∀ id parent, (create settings.limits c).outcome w ≠ .error (.circularReference id parent)) ∧
    ∀ id target,
      ((∃ moved, (move settings.limits id target).outcome w = .ok moved) ↔
        h.store.AdmitsMove settings.limits.maxDepth id target) ∧
      ∀ e, (move settings.limits id target).outcome w = .error e ↔
        Objection.First (h.store.moveObjections settings.limits.maxDepth id target) e := by
  have tended := arises.tended
  have forest := arises.forest positive
  constructor
  · intro c valid
    obtain ⟨lists, receives⟩ := tended.receives forest.bounded c.id c.parentId
    have judges := judges_create serves tended.sane valid receives
    refine ⟨?_, fun e => judges.outcome_error_iff, fun id parent circle => ?_⟩
    · rw [judges.outcome_ok_iff, MemoryStore.admitsNew_iff tended.sane forest.bounded]
    · obtain ⟨o, mem, -, tells⟩ := (judges.outcome_error_iff.1 circle).mem
      simp only [MemoryStore.creationObjections, List.mem_cons, List.not_mem_nil, or_false] at mem
      rcases mem with rfl | rfl | rfl | rfl <;> cases tells
  · intro id target
    have judges : (move settings.limits id target).Judges w _ _ := judges_move serves tended fun _ => forest
    refine ⟨?_, fun e => judges.outcome_error_iff⟩
    rw [judges.outcome_ok_iff, MemoryStore.admitsMove_iff tended.sane forest.bounded]

/-- A repository of two levels. -/
def twoLevels : Settings :=
  { limits := { maxDepth := 2 } }

/-- A root with a container below it, and another root that lists the latter as well. -/
def twoLevelCalls : List (Option Cancellation × Call) :=
  [(none, .create (.new "a" "" .basic none)), (none, .create (.new "b" "a" .basic none)),
    (none, .create (.new "c" "" .basic none)), (none, .addMember "c" "b")]

/-- The world after these calls. -/
def twoLevelWorld : World :=
  World.after twoLevels default twoLevelCalls

/-- A container that is to be made below another one. -/
def newcomer (parentId : String) : Container :=
  { id := "d", parentId, type := .basic, members := [], metadata := ∅, createdAt := Time.Instant.epoch
    updatedAt := Time.Instant.epoch, memberIds := ∅, pending := [] }

/-- The first level has room for another container, and for a root without containers below; the second has not. -/
theorem twoLevels_admission :
    ∃ h, twoLevelWorld.Serves h ∧ h.ArisesCleanly twoLevels ∧
      h.store.AdmitsNew 2 "d" "a" ∧
      Objection.First (h.store.creationObjections 2 "d" "b") (.depthExceeded "d" 2) ∧
      h.store.AdmitsMove 2 "c" "a" ∧
      Objection.First (h.store.moveObjections 2 "a" "b") (.circularReference "a" "b") ∧
      Objection.First (h.store.moveObjections 2 "a" "c") (.depthExceeded "a" 2) ∧
      Objection.First (h.store.moveObjections 2 "b" "c") (.invalid (.duplicateMember "c" "b")) := by
  have start : (default : World).Holds {} := ⟨rfl, rfl⟩
  obtain ⟨h, holds, clean, arises⟩ := start.arisesCleanly_after twoLevelCalls rfl .empty
  have serves : twoLevelWorld.Serves h := ⟨holds, clean⟩
  have named : ContainerId.check "d" = .ok () := by decide
  have valid : ∀ parentId, parentId ≠ "d" → (newcomer parentId).toSnapshot.Valid := fun parentId other =>
    ⟨named, other, fun _ mem => absurd mem List.not_mem_nil, List.nodup_nil⟩
  have positive : 1 ≤ twoLevels.limits.maxDepth := by decide
  obtain ⟨creations, moves⟩ := Holdings.ArisesCleanly.admission_exact positive arises serves
  have made : ((create twoLevels.limits (newcomer "a")).outcome twoLevelWorld).map (fun c => c.parentId) = .ok "a" := by
    decide +kernel
  have deep : ((create twoLevels.limits (newcomer "b")).outcome twoLevelWorld).map (fun c => c.parentId) =
      .error (.depthExceeded "d" 2) := by
    decide +kernel
  have moved : ((move twoLevels.limits "c" "a").outcome twoLevelWorld).map (fun c => c.parentId) = .ok "a" := by
    decide +kernel
  have circular : ((move twoLevels.limits "a" "b").outcome twoLevelWorld).map (fun c => c.parentId) =
      .error (.circularReference "a" "b") := by
    decide +kernel
  have high : ((move twoLevels.limits "a" "c").outcome twoLevelWorld).map (fun c => c.parentId) =
      .error (.depthExceeded "a" 2) := by
    decide +kernel
  have listed : ((move twoLevels.limits "b" "c").outcome twoLevelWorld).map (fun c => c.parentId) =
      .error (.invalid (.duplicateMember "c" "b")) := by
    decide +kernel
  obtain ⟨c, made, -⟩ := exists_ok_of_map made
  obtain ⟨d, moved, -⟩ := exists_ok_of_map moved
  have below := creations (newcomer "a") (valid "a" (by decide))
  have deeper := creations (newcomer "b") (valid "b" (by decide))
  refine ⟨h, serves, arises, below.1.1 ⟨c, made⟩, (deeper.2.1 _).1 (eq_error_of_map deep), ?_, ?_, ?_, ?_⟩
  · exact (moves "c" "a").1.1 ⟨d, moved⟩
  · exact ((moves "a" "b").2 _).1 (eq_error_of_map circular)
  · exact ((moves "a" "c").2 _).1 (eq_error_of_map high)
  · exact ((moves "b" "c").2 _).1 (eq_error_of_map listed)

end Containment
