/-
Module: Containment.Proofs.Repository.Navigation
Purpose: Finding one's way through the hierarchy. The way up follows parents, the way down follows members and asks each
  for its parent. In a forest whose links agree, both tell the same: the path of a container leads to it again, however
  it is spelled; what a path leads to has the names for its path that the path spells; and what is listed below a
  container are its children.
Main exports: MemoryStore.Stores, judges_find, outcome_path, succeeds_children,
  Holdings.ArisesCleanly.navigation_coherent
-/
import Containment.Proofs.Repository.Admission
import Containment.Proofs.Repository.Segments

namespace Containment

open Containment.Action Repository

/-- What can be loaded from the store under this identifier. -/
def MemoryStore.Stores (S : MemoryStore) (id : String) (c : Container) : Prop :=
  ∃ r, S.records[id]? = some r ∧ r.hydrate = .ok c

namespace MemoryStore.Stores

variable {S : MemoryStore} {id : String} {c d : Container}

theorem unique (stored : S.Stores id c) (again : S.Stores id d) : c = d := by
  obtain ⟨r, found, hydrated⟩ := stored
  obtain ⟨r', found', hydrated'⟩ := again
  rw [found] at found'
  cases found'
  rw [hydrated] at hydrated'
  exact Except.ok.inj hydrated'

theorem id_eq (stored : S.Stores id c) (sane : S.contents.Sane) : c.id = id := by
  obtain ⟨r, found, hydrated⟩ := stored
  exact (congrArg Snapshot.id (Record.sound_of_hydrate hydrated).2.1).trans (sane.record found).1

theorem sound (stored : S.Stores id c) : c.Sound := by
  obtain ⟨r, -, hydrated⟩ := stored
  exact (Record.sound_of_hydrate hydrated).1

theorem contents_eq (stored : S.Stores id c) : S.contents id = some c.toSnapshot := by
  obtain ⟨r, found, hydrated⟩ := stored
  rw [MemoryStore.contents_eq_some found, (Record.sound_of_hydrate hydrated).2.1]

theorem shape_eq (stored : S.Stores id c) : S.contents.shape id = some c.parentId :=
  Contents.shape_of_eq stored.contents_eq

theorem ne_empty (stored : S.Stores id c) (sane : S.contents.Sane) : id ≠ "" := by
  rintro rfl
  have nameless := sane.nameless
  rw [stored.shape_eq] at nameless
  cases nameless

end MemoryStore.Stores

/-- Whatever names a parent can be loaded. -/
theorem Contents.Sane.exists_stores {S : MemoryStore} (sane : S.contents.Sane) {id : String}
    (stored : (S.contents.shape id).isSome) : ∃ c, S.Stores id c := by
  obtain ⟨s, there⟩ := Option.isSome_iff_exists.1 (Contents.isSome_shape.1 stored)
  obtain ⟨r, found, -⟩ := MemoryStore.contents_eq_some_iff.1 there
  obtain ⟨c, hydrated⟩ := Record.exists_hydrate (sane.record found).2
  exact ⟨c, r, found, hydrated⟩

namespace Repository

variable {w : World} {h : Holdings} {limits : Limits} {id parentId target : String}

theorem succeeds_load_stored (serves : w.Serves h) (sane : h.store.contents.Sane) {c : Container}
    (stored : h.store.Stores id c) :
    (load id).Succeeds w fun loaded w' => (loaded.1.parentId = c.parentId ∧ loaded.2 = c) ∧ w' = w := by
  obtain ⟨r, found, hydrated⟩ := stored
  apply (succeeds_load serves sane found).mono
  rintro ⟨r, d⟩ w' ⟨⟨rfl, again⟩, same⟩
  obtain rfl : c = d := Except.ok.inj (hydrated.symm.trans again)
  exact ⟨⟨congrArg Snapshot.parentId (Record.sound_of_hydrate hydrated).2.1.symm, rfl⟩, same⟩

/-! ### Downwards by names -/

theorem succeeds_loadChild (serves : w.Serves h) (sane : h.store.contents.Sane) (target : String)
    (below : h.store.contents.shape id = some parentId) :
    (loadChild target parentId id).Succeeds w fun c w' => h.store.Stores id c ∧ w' = w := by
  obtain ⟨c, stored⟩ := sane.exists_stores (Option.isSome_of_mem below)
  have parent : c.parentId = parentId := Option.some.inj (stored.shape_eq.symm.trans below)
  simp only [loadChild]
  apply (succeeds_load_stored serves sane stored).tryCatch.bind
  rintro ⟨r, d⟩ w ⟨⟨-, rfl⟩, rfl⟩
  rw [if_neg (not_not_intro parent)]
  exact succeeds_pure ⟨stored, rfl⟩

theorem fails_loadChild (serves : w.Serves h) (sane : h.store.contents.Sane) (target : String)
    (elsewhere : h.store.contents.shape id ≠ some parentId) :
    (loadChild target parentId id).Fails w (.notFound target) := by
  simp only [loadChild]
  by_cases missing : h.store.records[id]? = none
  · apply Fails.bind
    exact (fails_load serves missing).mapError
  · obtain ⟨r, found⟩ := Option.ne_none_iff_exists'.1 missing
    obtain ⟨c, hydrated⟩ := Record.exists_hydrate (sane.record found).2
    have stored : h.store.Stores id c := ⟨r, found, hydrated⟩
    have other : c.parentId ≠ parentId := fun same => elsewhere (stored.shape_eq.trans (congrArg some same))
    apply (succeeds_load_stored serves sane stored).tryCatch.fails_bind
    rintro ⟨r, d⟩ w ⟨⟨-, rfl⟩, rfl⟩
    rw [if_pos other]
    exact fails_throw _

/-- Going down from a container by names that are left of a path ends where the whole chain does. -/
theorem judges_descend (serves : w.Serves h) (sane : h.store.contents.Sane) (linked : h.store.contents.Linked)
    (target : String) {names upper : List String} {current : Container} (stored : h.store.Stores current.id current)
    (walk : h.store.contents.shape.Chain current.id (current.id :: upper)) :
    (descend target current names).Judges w
      [⟨¬ ∃ x, h.store.contents.shape.Chain x (names.reverse ++ current.id :: upper), .notFound target⟩]
      fun c w' => (h.store.Stores c.id c ∧
        h.store.contents.shape.Chain c.id (names.reverse ++ current.id :: upper)) ∧ w' = w := by
  induction names generalizing current upper with
  | nil =>
    apply (succeeds_pure _).judges_of_clear
    · exact List.forall_mem_singleton.2 (not_not_intro ⟨current.id, walk⟩)
    · exact ⟨⟨stored, walk⟩, rfl⟩
  | cons name names ih =>
    rw [List.reverse_cons, List.append_assoc, List.singleton_append]
    simp only [descend]
    by_cases below : h.store.contents.shape name = some current.id
    · have proper : current.id ≠ "" := stored.ne_empty sane
      obtain ⟨s, there, parent⟩ := Contents.shape_eq_some_iff.1 below
      obtain ⟨p, found, m, mem, named, -⟩ := linked name s there (parent ▸ proper)
      rw [parent, stored.contents_eq] at found
      cases found
      have listed : current.containsMember name = true :=
        (Container.containsMember_iff stored.sound).2 ⟨m, mem, named⟩
      rw [listed, if_neg (by decide)]
      apply (succeeds_loadChild serves sane target below).judges_bind
      rintro child w ⟨reached, rfl⟩
      have own : child.id = name := reached.id_eq sane
      subst own
      exact ih reached (.step below proper walk)
    · -- the name would have to stand on the chain right before the container
      have astray : ¬ ∃ x, h.store.contents.shape.Chain x (names.reverse ++ name :: current.id :: upper) := by
        rintro ⟨x, longer⟩
        obtain ⟨parent, link, -, above⟩ := longer.from_mem.above (List.cons_ne_nil _ _)
        exact below (above.head_eq ▸ link)
      refine judges_cons (fun _ => ?_) fun found => absurd astray found
      by_cases unlisted : (!current.containsMember name) = true
      · rw [if_pos unlisted]
        exact fails_throw _
      · rw [if_neg unlisted]
        exact (fails_loadChild serves sane target below).bind

/-- A path is found just if its segments are those of a chain, from the root down. -/
theorem judges_find (serves : w.Serves h) (sane : h.store.contents.Sane) (linked : h.store.contents.Linked)
    (target : String) :
    (find target).Judges w
      [⟨¬ ∃ x, h.store.contents.shape.Chain x (segments target).reverse, .notFound target⟩]
      fun c w' => (h.store.Stores c.id c ∧ h.store.contents.shape.Chain c.id (segments target).reverse) ∧ w' = w := by
  apply Judges.withLock
  simp only [findHeld]
  cases segments target with
  | nil =>
    refine judges_cons (fun _ => fails_throw _) fun found => absurd ?_ found
    rintro ⟨x, walk⟩
    obtain ⟨_, impossible⟩ := walk.exists_cons
    cases impossible
  | cons root names =>
    by_cases top : h.store.contents.shape root = some ""
    · apply (succeeds_loadChild serves sane target top).judges_bind
      rintro c w ⟨reached, rfl⟩
      have own : c.id = root := reached.id_eq sane
      subst own
      rw [List.reverse_cons]
      exact judges_descend serves sane linked target reached (.root top)
    · refine judges_cons (fun _ => ?_) fun found => absurd ?_ found
      · exact (fails_loadChild serves sane target top).bind
      · rintro ⟨x, walk⟩
        rw [List.reverse_cons] at walk
        exact top walk.from_mem.top_eq

/-! ### Upwards -/

theorem succeeds_path (serves : w.Serves h) (sane : h.store.contents.Sane) {chain : List String}
    (walk : h.store.contents.shape.Chain id chain) (room : chain.length ≤ max limits.maxDepth 1) :
    (path limits id).Succeeds w fun names w' => names = chain.reverse ∧ w' = w := by
  apply Succeeds.withLock
  simp only [pathHeld]
  apply (succeeds_ancestors serves sane walk room).bind
  rintro _ w ⟨rfl, rfl⟩
  exact succeeds_pure ⟨rfl, rfl⟩

/-- Where every chain keeps the bound, every container that has one has a path. -/
theorem outcome_path (serves : w.Serves h) (sane : h.store.contents.Sane)
    (bounded : h.store.contents.shape.Bounded (max limits.maxDepth 1)) {chain : List String}
    (walk : h.store.contents.shape.Chain id chain) : (path limits id).outcome w = .ok chain.reverse := by
  obtain ⟨chain', walk', room⟩ := bounded id (walk.stored id walk.head_mem)
  obtain ⟨names, w', ended, rfl, -⟩ := succeeds_path serves sane walk (walk.unique walk' ▸ room)
  exact congrArg Prod.fst ended

theorem succeeds_parent (serves : w.Serves h) (sane : h.store.contents.Sane) {c p : Container}
    (stored : h.store.Stores id c) (above : h.store.Stores c.parentId p) :
    (parent id).Succeeds w fun found w' => found = p ∧ w' = w := by
  apply Succeeds.withLock
  simp only [parentHeld]
  apply (succeeds_load_stored serves sane stored).bind
  rintro ⟨r, d⟩ w ⟨⟨up, rfl⟩, rfl⟩
  have proper : ¬ r.parentId.isEmpty = true := by
    rw [up, String.isEmpty_iff]
    exact above.ne_empty sane
  rw [if_neg proper]
  apply (succeeds_load_stored serves sane (up ▸ above)).bind
  rintro ⟨r, d⟩ w ⟨⟨-, rfl⟩, rfl⟩
  exact succeeds_pure ⟨rfl, rfl⟩

/-! ### The containers right below -/

/-- Records that keep the rules are read as containers one by one. -/
theorem succeeds_mapM_hydrate {records : List Record} (valid : ∀ r ∈ records, r.container.Valid) :
    (records.mapM hydrate).Succeeds w fun found w' =>
      (found.map (·.id) = records.map Record.id ∧
        ∀ c, c ∈ found ↔ ∃ r ∈ records, r.hydrate = .ok c) ∧ w' = w := by
  induction records with
  | nil => exact succeeds_pure ⟨⟨rfl, by simp⟩, rfl⟩
  | cons r rest ih =>
    obtain ⟨first, others⟩ := List.forall_mem_cons.1 valid
    rw [List.mapM_cons]
    apply (succeeds_hydrate first).bind
    rintro c w ⟨hydrated, rfl⟩
    apply (ih others).bind
    rintro found w ⟨⟨ids, each⟩, rfl⟩
    refine succeeds_pure ⟨⟨?_, fun d => ?_⟩, rfl⟩
    · have own : c.id = r.id := congrArg Snapshot.id (Record.sound_of_hydrate hydrated).2.1
      rw [List.map_cons, List.map_cons, ids, own]
    · rw [List.mem_cons, List.exists_mem_cons_iff, hydrated, each d, Except.ok.injEq, eq_comm]

end Repository

/-- In the order in which they are looked up, records have the identifiers for which they were found. -/
theorem Contents.Sane.sublist_ids {S : MemoryStore} (sane : S.contents.Sane) (ids : List String) :
    ((ids.filterMap fun id => S.records[id]?).map Record.id).Sublist ids := by
  induction ids with
  | nil => exact List.Sublist.slnil
  | cons id rest ih =>
    rw [List.filterMap_cons]
    cases found : S.records[id]? with
    | none => exact ih.cons id
    | some r =>
      rw [List.map_cons, (sane.record found).1]
      exact ih.cons_cons id

namespace Repository

variable {w : World} {h : Holdings} {limits : Limits} {id : String}

/-- The children of a container are those that name it as their parent, in the order of its members. -/
theorem succeeds_children (serves : w.Serves h) (sane : h.store.contents.Sane) (linked : h.store.contents.Linked)
    {c : Container} (stored : h.store.Stores id c) :
    (children id).Succeeds w fun found w' =>
      ((found.map (·.id)).Sublist (c.members.map Member.id) ∧
        ∀ child, child ∈ found ↔ h.store.Stores child.id child ∧ child.parentId = id) ∧ w' = w := by
  apply Succeeds.withLock
  have there : (h.store.contents.shape id).isSome := Option.isSome_of_mem stored.shape_eq
  have searched := (succeeds_childRecords serves sane there).reads serves reads_childRecords_eq
  apply (searched.reads serves (reads_childRecords sane)).bind
  rintro records w ⟨⟨rfl, r, found, listed⟩, below, complete⟩
  have members : r.container.members = c.members := by
    have same := stored.contents_eq
    rw [MemoryStore.contents_eq_some found] at same
    exact congrArg Snapshot.members (Option.some.inj same)
  have own : ∀ s ∈ records, h.store.records[s.id]? = some s := by
    intro s mem
    rw [listed] at mem
    obtain ⟨child, -, found⟩ := List.mem_filterMap.1 (List.mem_of_mem_filter mem)
    rw [(sane.record found).1]
    exact found
  apply (succeeds_mapM_hydrate fun s mem => (sane.record (own s mem)).2).mono
  rintro found w' ⟨⟨ids, members_iff⟩, rfl⟩
  refine ⟨⟨?_, fun child => ?_⟩, rfl⟩
  · rw [ids, listed]
    refine (List.filter_sublist.map Record.id).trans ((sane.sublist_ids _).trans ?_)
    rw [childCandidates, members]
    exact List.filter_sublist.map Member.id
  · rw [members_iff]
    constructor
    · rintro ⟨s, mem, hydrated⟩
      have itself : child.id = s.id := congrArg Snapshot.id (Record.sound_of_hydrate hydrated).2.1
      have kept : h.store.Stores child.id child := ⟨s, itself ▸ own s mem, hydrated⟩
      refine ⟨kept, ?_⟩
      have parent := below s mem
      rw [← itself, kept.shape_eq] at parent
      exact Option.some.inj parent
    · rintro ⟨kept, parent⟩
      have link : h.store.contents.shape child.id = some id := parent ▸ kept.shape_eq
      obtain ⟨s, mem, same⟩ := complete linked (stored.ne_empty sane) child.id link
      obtain ⟨s', found', hydrated⟩ := kept
      have again := own s mem
      rw [same, found'] at again
      cases again
      exact ⟨s, mem, hydrated⟩

end Repository

/-! ### Coherence -/

/-- Identifiers can stand in paths. -/
theorem Contents.Sane.isSegment {C : Contents} (sane : C.Sane) {id : String} (stored : (C.shape id).isSome) :
    IsSegment id := by
  obtain ⟨s, there⟩ := Option.isSome_iff_exists.1 (Contents.isSome_shape.1 stored)
  obtain ⟨own, valid⟩ := sane id s there
  obtain ⟨nonempty, single, -⟩ := ContainerId.check_eq_ok_iff.1 valid.id_ok
  exact own ▸ ⟨nonempty, single⟩

/-- **Navigation is coherent.** Take any state that calls of any kind lead to, as long as no request of theirs failed,
and calls that run alone and go on to their end. The path of a stored container, spelled with slashes at will, leads to
this container. Every path spells just one list of names: either it leads to a container whose path these are, or it is
not found. The children of a container are the stored containers that name it as their parent, each once and in the
order of its members; and it is the parent of each of them. -/
theorem Holdings.ArisesCleanly.navigation_coherent {settings : Settings} {h : Holdings} {w : World}
    (arises : h.ArisesCleanly settings) (serves : w.Serves h) :
    (∀ id c, h.store.Stores id c → ∃ names, (path settings.limits id).outcome w = .ok names ∧
      Spells names ("/".intercalate names) ∧ ∀ text, Spells names text → (find text).outcome w = .ok c) ∧
    (∀ text, ∃ names, (∀ others, Spells others text ↔ others = names) ∧
      ((∃ c, (find text).outcome w = .ok c ∧ h.store.Stores c.id c ∧
        (path settings.limits c.id).outcome w = .ok names) ∨ (find text).outcome w = .error (.notFound text))) ∧
    ∀ id c, h.store.Stores id c → ∃ found, (children id).outcome w = .ok found ∧
      (found.map (·.id)).Sublist (c.members.map Member.id) ∧ (found.map (·.id)).Nodup ∧
      (∀ child, child ∈ found ↔ h.store.Stores child.id child ∧ child.parentId = id) ∧
      ∀ child ∈ found, (parent child.id).outcome w = .ok c := by
  have sane := arises.tended.sane
  obtain ⟨linked, bounded⟩ := arises.forest_max
  refine ⟨fun id c stored => ?_, fun text => ?_, fun id c stored => ?_⟩
  · obtain ⟨chain, walk, -⟩ := bounded id (Option.isSome_of_mem stored.shape_eq)
    refine ⟨chain.reverse, outcome_path serves sane bounded walk, spells_intercalate fun name mem => ?_,
      fun text spells => ?_⟩
    · exact sane.isSegment (walk.stored name (List.mem_reverse.1 mem))
    · have judges := judges_find serves sane linked text
      rw [spells_iff_segments_eq.1 spells, List.reverse_reverse] at judges
      have clear : ¬ ¬ ∃ x, h.store.contents.shape.Chain x chain := not_not_intro ⟨id, walk⟩
      obtain ⟨d, w', ended, ⟨found, reached⟩, -⟩ := judges.passes (List.forall_mem_singleton.2 clear)
      obtain ⟨rest, rfl⟩ := walk.exists_cons
      have same : id = d.id := reached.head_eq
      rw [stored.unique (same ▸ found)]
      exact congrArg Prod.fst ended
  · refine ⟨segments text, fun others => spells_iff_segments_eq.trans eq_comm, ?_⟩
    have judges := judges_find serves sane linked text
    by_cases leads : ∃ x, h.store.contents.shape.Chain x (segments text).reverse
    · obtain ⟨c, w', ended, ⟨found, reached⟩, -⟩ :=
        judges.passes (List.forall_mem_singleton.2 (not_not_intro leads))
      refine .inl ⟨c, congrArg Prod.fst ended, found, ?_⟩
      rw [outcome_path serves sane bounded reached, List.reverse_reverse]
    · exact .inr (judges.refuses _ (.here leads)).outcome
  · obtain ⟨found, w', ended, ⟨order, exactly⟩, -⟩ := succeeds_children serves sane linked stored
    refine ⟨found, congrArg Prod.fst ended, order, order.nodup stored.sound.valid.nodup, exactly, fun child mem => ?_⟩
    obtain ⟨kept, rfl⟩ := (exactly child).1 mem
    obtain ⟨p, w', ended, rfl, -⟩ := succeeds_parent serves sane kept stored
    exact congrArg Prod.fst ended

/-- The lower container of two levels is found by its path, with slashes at will, and it is all that is below the upper
one. The root that merely lists it has no children. -/
theorem twoLevels_navigation :
    ∃ h a b, twoLevelWorld.Serves h ∧ h.ArisesCleanly twoLevels ∧ h.store.Stores "a" a ∧ h.store.Stores "b" b ∧
      (path twoLevels.limits "b").outcome twoLevelWorld = .ok ["a", "b"] ∧
      (find "//a//b/").outcome twoLevelWorld = .ok b ∧
      (parent "b").outcome twoLevelWorld = .ok a ∧
      ((children "c").outcome twoLevelWorld).map (fun found => found.map (·.id)) = .ok [] := by
  have start : (default : World).Holds {} := ⟨rfl, rfl⟩
  obtain ⟨h, holds, clean, arises⟩ := start.arisesCleanly_after twoLevelCalls rfl .empty
  have serves : twoLevelWorld.Serves h := ⟨holds, clean⟩
  have sane := arises.tended.sane
  obtain ⟨finds, -, lists⟩ := arises.navigation_coherent serves
  have stored : ∀ id, (twoLevelWorld.store.perform (.exists id)).1 = .ok true → ∃ c, h.store.Stores id c := by
    intro id there
    rw [serves.readable.stored, MemoryStore.contains_records] at there
    exact sane.exists_stores (Contents.isSome_shape.2 (Except.ok.inj there))
  obtain ⟨a, upper⟩ := stored "a" (by decide +kernel)
  obtain ⟨b, lower⟩ := stored "b" (by decide +kernel)
  have pathed : (path twoLevels.limits "b").outcome twoLevelWorld = .ok ["a", "b"] := by decide +kernel
  have below : ((children "a").outcome twoLevelWorld).map (fun found => found.map (·.id)) = .ok ["b"] := by
    decide +kernel
  refine ⟨h, a, b, serves, arises, upper, lower, pathed, ?_, ?_, by decide +kernel⟩
  · obtain ⟨names, again, -, leads⟩ := finds "b" b lower
    obtain rfl : ["a", "b"] = names := Except.ok.inj (pathed.symm.trans again)
    have text : "//a//b/" = "/" ++ ("/" ++ ("a" ++ "/" ++ ("/" ++ ("b" ++ "/" ++ "")))) := by decide
    have segmentA : IsSegment "a" := ⟨by decide, by decide⟩
    have segmentB : IsSegment "b" := ⟨by decide, by decide⟩
    apply leads
    rw [text]
    exact .slash (.slash (.before segmentA (.slash (.before segmentB .nothing))))
  · obtain ⟨found, again, -, -, -, parents⟩ := lists "a" a upper
    obtain ⟨found', ended, ids⟩ := exists_ok_of_map below
    obtain rfl : found = found' := Except.ok.inj (again.symm.trans ended)
    obtain ⟨child, mem, named⟩ := List.mem_map.1 (ids ▸ List.mem_singleton_self "b" : "b" ∈ found.map (·.id))
    rw [← named]
    exact parents child mem

end Containment
