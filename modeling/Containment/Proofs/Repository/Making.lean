/-
Module: Containment.Proofs.Repository.Making
Purpose: What speaks against a creation. The identifier may have been used; the parent may be missing, too deep for
  another level, or list the name already. A call that runs alone, in a world without planted faults, refuses for the
  first of these that holds. If there is none and no row of the parent stands in the way, it makes the container.
Main exports: Holdings.Houses, Contents.Names, MemoryStore.creationObjections, Action.Manages.succeeds,
  succeeds_ancestors, succeeds_storePrepared, judges_createHeld, judges_create, succeeds_create
-/
import Containment.Proofs.Hierarchy.Depth
import Containment.Proofs.Objections
import Containment.Proofs.Repository.Managing
import Containment.Proofs.Repository.Repair
import Containment.Proofs.Repository.Spending

namespace Containment

open Containment.Action Time
open Function (update)

/-- There is a place for a container, whether or not its identifier is free: it is to be a root, or its parent is
stored without a member of that name, its rows are right, and its chain has room. -/
def Holdings.Houses (limits : Limits) (c : Container) (h : Holdings) : Prop :=
  c.parentId ≠ "" → ∃ r lists, h.store.records[c.parentId]? = some r ∧ (∀ m ∈ r.container.members, m.id ≠ c.id) ∧
    h.Lists lists ∧ lists c.parentId = some r.container.members ∧
      h.store.contents.shape.HasRoom limits.maxDepth c.parentId

/-- A container is stored and has a member of this name, of whatever type. -/
def Contents.Names (C : Contents) (id member : String) : Prop :=
  ∃ s, C id = some s ∧ ∃ m ∈ s.members, m.id = member

/-- What can speak against a creation, in the order in which it is looked for. Of a root, which names no parent, only
the identifier matters. -/
def MemoryStore.creationObjections (S : MemoryStore) (maxDepth : Nat) (id parent : String) : List Objection :=
  [⟨S.Spent id, .alreadyExists id⟩,
    ⟨parent ≠ "" ∧ S.contents parent = none, .parentNotFound id parent⟩,
    ⟨∃ n, S.contents.shape.Depth parent n ∧ maxDepth ≤ n, .depthExceeded id maxDepth⟩,
    ⟨S.contents.Names parent id, .invalid (.duplicateMember parent id)⟩]

theorem MemoryStore.names_iff {S : MemoryStore} {id member : String} {r : Record} {c : Container}
    (found : S.records[id]? = some r) (hydrated : r.hydrate = .ok c) :
    S.contents.Names id member ↔ ∃ m ∈ c.members, m.id = member := by
  have members : c.members = r.container.members := congrArg Snapshot.members (Record.sound_of_hydrate hydrated).2.1
  rw [Contents.Names, MemoryStore.contents_eq_some found, members]
  constructor
  · rintro ⟨s, ⟨⟩, named⟩
    exact named
  · exact fun named => ⟨_, rfl, named⟩

/-- The rows of the parent do not stand in the way of a container that it does not list, and one can climb from it. -/
structure Holdings.Receives (limits : Limits) (id parent : String) (lists : Listing) (h : Holdings) : Prop where
  known : h.Lists lists
  clear : (h.store.contents parent).isSome → ¬ h.store.contents.Names parent id →
    ∃ rows, lists parent = some rows ∧ ∀ m ∈ rows, m.id ≠ id
  climbs : (h.store.contents.shape parent).isSome →
    ∃ chain, h.store.contents.shape.Chain parent chain ∧ chain.length ≤ limits.maxDepth

theorem Contents.Sane.not_names_nameless {C : Contents} (sane : C.Sane) (member : String) : ¬ C.Names "" member := by
  rintro ⟨s, found, -⟩
  rw [Option.map_eq_none_iff.1 sane.nameless] at found
  cases found

/-- Nothing speaks against a root but its identifier. -/
theorem Contents.Sane.clear_of_root {S : MemoryStore} (sane : S.contents.Sane) (maxDepth : Nat) (id : String) :
    ∀ o ∈ (S.creationObjections maxDepth id "").tail, ¬ o.holds := by
  simp only [MemoryStore.creationObjections, List.tail_cons, List.forall_mem_cons, List.not_mem_nil, IsEmpty.forall_iff,
    implies_true, and_true]
  refine ⟨fun proper => proper.1 rfl, ?_, sane.not_names_nameless id⟩
  rintro ⟨n, at_depth, -⟩
  exact sane.not_depth_nameless n at_depth

/-- The world holds this, and no faults are planted in it. -/
structure World.Serves (w : World) (h : Holdings) : Prop where
  holds : w.Holds h
  clean : w.faults = []

namespace World.Serves

variable {w : World} {h : Holdings}

theorem readable (serves : w.Serves h) : w.store.ReadsAs h.store := by
  rw [serves.holds.store]
  exact Store.readsAs_memory h.store

theorem setClock (serves : w.Serves h) (clock : Clock) : ({ w with clock } : World).Serves h :=
  ⟨⟨serves.holds.store, serves.holds.index⟩, serves.clean⟩

/-- The store answers as the one that it is. -/
theorem perform (serves : w.Serves h) {call : StoreCall} {answer : Except StoreError call.Answer} {S : MemoryStore}
    (served : h.store.perform call = (answer, S)) : w.store.perform call = (answer, .memory S) := by
  rw [serves.holds.store, Store.perform, served]

end World.Serves

/-- A place for a container receives it, and nothing speaks against the container there. -/
theorem Holdings.Houses.receives {h : Holdings} {limits : Limits} {c : Container} (housed : h.Houses limits c)
    (sane : h.store.contents.Sane) (indexed : h.Indexed) (unspent : ¬ h.store.Spent c.id) :
    (∃ lists, h.Receives limits c.id c.parentId lists) ∧
      ∀ o ∈ h.store.creationObjections limits.maxDepth c.id c.parentId, ¬ o.holds := by
  by_cases top : c.parentId = ""
  · obtain ⟨lists, known⟩ := indexed
    rw [top]
    refine ⟨⟨lists, known, ?_, ?_⟩, List.forall_mem_cons.2 ⟨unspent, sane.clear_of_root limits.maxDepth c.id⟩⟩
    · rw [Option.map_eq_none_iff.1 sane.nameless]
      intro impossible
      cases impossible
    · rw [sane.nameless]
      intro impossible
      cases impossible
  · obtain ⟨r, lists, found, unlisted, known, listed, room⟩ := housed top
    obtain ⟨chain, above, short⟩ := room top
    have stored := MemoryStore.contents_eq_some found
    refine ⟨⟨lists, known, fun _ _ => ⟨_, listed, unlisted⟩, fun _ => ⟨chain, above, short.le⟩⟩, ?_⟩
    simp only [MemoryStore.creationObjections, List.forall_mem_cons, List.not_mem_nil, IsEmpty.forall_iff,
      implies_true, and_true]
    refine ⟨unspent, ?_, ?_, ?_⟩
    · rintro ⟨-, missing⟩
      rw [stored] at missing
      cases missing
    · rintro ⟨n, at_depth, deep⟩
      have depth : n = chain.length := at_depth.unique ⟨chain, above, rfl⟩
      omega
    · rintro ⟨s, known, m, mem, same⟩
      rw [stored] at known
      cases known
      exact unlisted m mem same

/-- Undisturbed, what ends well unless a request fails does end well. -/
theorem Action.Manages.succeeds {α : Type} {x : Action α} {w : World} {h : Holdings} {P : α → Holdings → Prop}
    (manages : x.Manages h P) (serves : w.Serves h) : x.Succeeds w fun a w' => ∃ h', w'.Serves h' ∧ P a h' := by
  obtain ⟨h', run, holds, clean⟩ := Program.run_undisturbed none x.run serves.holds serves.clean
  obtain ⟨a, ended, good⟩ := manages _ _ _ run rfl
  exact ⟨a, (x.run.run none w).2, Prod.ext ended rfl, h', ⟨holds, clean⟩, good⟩

namespace Repository

variable {w : World} {h : Holdings} {limits : Limits} {id : String}

/-! ### Single records -/

theorem succeeds_read? (serves : w.Serves h) (id : String) :
    (read? id).Succeeds w fun found w' => found = h.store.records[id]? ∧ w' = w := by
  have served : w.store.perform (.read id) = (.ok h.store.records[id]?, w.store) := by
    rw [serves.perform rfl, serves.holds.store]
  exact succeeds_store serves.clean served

theorem succeeds_isStored (serves : w.Serves h) (id : String) :
    (isStored id).Succeeds w fun stored w' => stored = (h.store.contents id).isSome ∧ w' = w := by
  have served : w.store.perform (.exists id) = (.ok (h.store.contents id).isSome, w.store) := by
    rw [serves.readable.stored, MemoryStore.contains_records]
  exact succeeds_store serves.clean served

theorem succeeds_isRetired (serves : w.Serves h) (id : String) :
    (store (.isRetired id)).Succeeds w fun retired w' => retired = h.store.retired.contains id ∧ w' = w := by
  have served : w.store.perform (.isRetired id) = (.ok (h.store.retired.contains id), w.store) := by
    rw [serves.perform rfl, serves.holds.store]
  exact succeeds_store serves.clean served

theorem succeeds_load (serves : w.Serves h) (sane : h.store.contents.Sane) {r : Record}
    (found : h.store.records[id]? = some r) :
    (load id).Succeeds w fun loaded w' => (loaded.1 = r ∧ r.hydrate = .ok loaded.2) ∧ w' = w :=
  succeeds_load_valid serves.readable serves.clean found (sane.record found).2

theorem fails_load (serves : w.Serves h) (absent : h.store.records[id]? = none) : (load id).Fails w (.notFound id) := by
  apply (succeeds_read? serves id).fails_bind
  rintro _ _ ⟨rfl, rfl⟩
  rw [absent]
  exact fails_throw _

theorem judges_load (serves : w.Serves h) (sane : h.store.contents.Sane) (id : String) :
    (load id).Judges w [⟨h.store.contents id = none, .notFound id⟩] fun loaded w' =>
      (h.store.records[id]? = some loaded.1 ∧ loaded.1.hydrate = .ok loaded.2) ∧ w' = w := by
  apply judges_cons
  · exact fun missing => fails_load serves (Option.map_eq_none_iff.1 missing)
  · intro present
    obtain ⟨s, stored⟩ := Option.ne_none_iff_exists'.1 present
    obtain ⟨r, found, -⟩ := MemoryStore.contents_eq_some_iff.1 stored
    apply Succeeds.judges
    apply (succeeds_load serves sane found).mono
    rintro _ _ ⟨⟨rfl, hydrated⟩, rfl⟩
    exact ⟨⟨found, hydrated⟩, rfl⟩

/-! ### The steps of a creation -/

/-- Climbing ends at the root, if the chain is not too long. -/
theorem succeeds_climb (serves : w.Serves h) (sane : h.store.contents.Sane) {start current : String}
    {remaining : Nat} {chain walk : List String} (above : h.store.contents.shape.Chain current walk)
    (apart : (chain ++ walk.tail).Nodup) (room : walk.tail.length ≤ remaining) :
    (climb limits start remaining chain current).Succeeds w fun walked w' =>
      walked = chain ++ walk.tail ∧ w' = w := by
  have stored : ∀ {x parent : String}, h.store.contents.shape x = some parent →
      ∃ r, h.store.records[x]? = some r ∧ r.container.Valid ∧ r.parentId = parent := by
    intro x parent link
    obtain ⟨s, there, rfl⟩ := Contents.shape_eq_some_iff.1 link
    obtain ⟨r, found, rfl⟩ := MemoryStore.contents_eq_some_iff.1 there
    exact ⟨r, found, (sane.record found).2, rfl⟩
  induction above generalizing remaining chain with
  | root link =>
    obtain ⟨r, found, valid, top⟩ := stored link
    unfold climb
    apply succeeds_load_bind serves.readable serves.clean found valid
    intro c _
    simp only [if_pos (String.isEmpty_iff.2 top)]
    exact succeeds_pure ⟨(List.append_nil chain).symm, rfl⟩
  | @step current parent rest link proper above ih =>
    obtain ⟨r, found, valid, rfl⟩ := stored link
    obtain ⟨upper, rfl⟩ := above.exists_cons
    have fresh : r.parentId ∉ chain := by
      intro mem
      exact (List.nodup_append.1 apart).2.2 _ mem _ List.mem_cons_self rfl
    unfold climb
    apply succeeds_load_bind serves.readable serves.clean found valid
    intro c _
    simp only [if_neg (fun none => proper (String.isEmpty_iff.1 none)),
      if_neg (fun known => fresh (List.contains_iff_mem.1 known))]
    match remaining with
    | 0 => exact absurd room (Nat.not_succ_le_zero _)
    | remaining + 1 =>
      have joined : (chain ++ [r.parentId]) ++ upper = chain ++ r.parentId :: upper := List.append_assoc ..
      apply (@ih remaining (chain ++ [r.parentId]) _ (Nat.le_of_succ_le_succ room)).mono
      · rintro walked w' ⟨rfl, rfl⟩
        exact ⟨joined, rfl⟩
      · rw [List.tail_cons, joined]
        exact apart

theorem succeeds_ancestors (serves : w.Serves h) (sane : h.store.contents.Sane) {chain : List String}
    (above : h.store.contents.shape.Chain id chain) (room : chain.length ≤ max limits.maxDepth 1) :
    (ancestors limits id).Succeeds w fun walked w' => walked = chain ∧ w' = w := by
  have nodup := above.nodup
  obtain ⟨rest, rfl⟩ := above.exists_cons
  have rest_le : rest.length ≤ limits.maxDepth - 1 := by
    rw [List.length_cons] at room
    omega
  exact succeeds_climb serves sane above nodup rest_le

/-- The parent is looked up; that it is missing is told in other words. -/
theorem judges_loadParent (serves : w.Serves h) (sane : h.store.contents.Sane) {target : String}
    (proper : target ≠ "") {change : RepositoryError → RepositoryError}
    (told : change (.notFound target) = .parentNotFound id target) :
    (mapError (load target) change).Judges w
      [⟨target ≠ "" ∧ h.store.contents target = none, .parentNotFound id target⟩] fun loaded w' =>
        (h.store.records[target]? = some loaded.1 ∧ loaded.1.hydrate = .ok loaded.2) ∧ w' = w := by
  have judges := judges_load serves sane target
  apply judges_cons
  · rintro ⟨-, missing⟩
    rw [← told]
    exact (judges.refuses _ (.here missing)).mapError
  · intro present
    have stored : h.store.contents target ≠ none := fun missing => present ⟨proper, missing⟩
    exact (judges.passes (List.forall_mem_singleton.2 stored)).tryCatch.judges

/-- A parent lists a container if it does not list it yet. -/
theorem judges_addMember {S : MemoryStore} (sane : S.contents.Sane) {target : String} {r : Record} {p : Container}
    (found : S.records[target]? = some r) (hydrated : r.hydrate = .ok p) (named : ContainerId.check id = .ok ())
    (other : target ≠ id) (time : Instant) :
    (ofContainer (p.addMember id .container time)).Judges w
      [⟨S.contents.Names target id, .invalid (.duplicateMember target id)⟩] fun grown w' =>
        p.addMember id .container time = .ok grown ∧ w' = w := by
  obtain ⟨sound, same, -⟩ := Record.sound_of_hydrate hydrated
  have own : p.id = target := (congrArg Snapshot.id same).trans (sane.record found).1
  have apart : id ≠ p.id := fun itself => other (own.symm.trans itself.symm)
  apply judges_cons
  · intro listed
    rw [sound.addMember_again named apart ((MemoryStore.names_iff found hydrated).1 listed), own]
    exact fails_throw _
  · intro unlisted
    have absent : ∀ m ∈ p.members, m.id ≠ id := by
      intro m mem same
      exact unlisted ((MemoryStore.names_iff found hydrated).2 ⟨m, mem, same⟩)
    obtain ⟨grown, added⟩ := sound.exists_addMember named apart absent .container time
    rw [added]
    exact Succeeds.judges (succeeds_pure ⟨rfl, rfl⟩)

/-- Preparing the parent of a container whose identifier is free. Everything on the way up is stored, so the container
itself is never met there. -/
theorem judges_preparedParent (serves : w.Serves h) (sane : h.store.contents.Sane) {parentId : String} (time : Instant)
    (named : ContainerId.check id = .ok ()) (other : parentId ≠ id) (free : h.store.contents id = none)
    (proper : parentId ≠ "") (climbs : (h.store.contents.shape parentId).isSome →
      ∃ chain, h.store.contents.shape.Chain parentId chain ∧ chain.length ≤ limits.maxDepth) :
    (preparedParent limits id parentId time).Judges w
      (h.store.creationObjections limits.maxDepth id parentId).tail fun prepared w' =>
        (h.store.records[parentId]? = some prepared.1 ∧ prepared.2.id = parentId ∧
          ¬ h.store.contents.Names parentId id) ∧ w' = w := by
  simp only [preparedParent]
  refine (judges_loadParent serves sane proper rfl).bind ?_
  rintro ⟨record, p⟩ w ⟨⟨found, hydrated⟩, rfl⟩
  have stored : h.store.contents.shape parentId = some record.parentId := MemoryStore.shape_eq_some found
  obtain ⟨chain, above, room⟩ := climbs (Option.isSome_of_mem stored)
  have apart : chain.contains id ≠ true := by
    intro met
    have impossible := above.stored id (List.contains_iff_mem.1 met)
    rw [Contents.shape, free] at impossible
    cases impossible
  apply (succeeds_ancestors serves sane above (le_sup_of_le_left room)).judges_bind
  rintro chain w ⟨rfl, rfl⟩
  rw [if_neg apart]
  have deep : (∃ n, h.store.contents.shape.Depth parentId n ∧ limits.maxDepth ≤ n) ↔
      limits.maxDepth ≤ chain.length := by
    constructor
    · rintro ⟨n, at_depth, le⟩
      rwa [Shape.Depth.unique ⟨chain, above, rfl⟩ at_depth]
    · exact fun le => ⟨chain.length, ⟨chain, above, rfl⟩, le⟩
  apply judges_ite deep
  intro _
  refine (judges_addMember sane found hydrated named other time).clear.succeeds_bind ?_
  rintro grown w ⟨⟨added, rfl⟩, none⟩
  obtain ⟨sound, same, -⟩ := Record.sound_of_hydrate hydrated
  obtain ⟨-, -, own, -⟩ := sound.addMember added
  have key : grown.id = parentId := own.trans ((congrArg Snapshot.id same).trans (sane.record found).1)
  exact succeeds_pure ⟨⟨found, key, none _ List.mem_cons_self⟩, rfl⟩

/-! ### Creations -/

/-- A container is stored and listed in its parent, which has been prepared for it. -/
theorem succeeds_storePrepared (serves : w.Serves h) {lists : Listing} (known : h.Lists lists) {c : Container}
    (time : Instant) {parent : Option (Record × Container)} (unspent : ¬ h.store.Spent c.id)
    (ready : ∀ prepared ∈ parent, h.store.records[prepared.2.id]? = some prepared.1 ∧
      ∃ rows, lists prepared.2.id = some rows ∧ ∀ m ∈ rows, m.id ≠ c.id) :
    (storePrepared c time parent).Succeeds w fun made _ => made = c.takeEvents.2 := by
  obtain ⟨free, unused⟩ := not_or.1 unspent
  have absent : h.store.contents c.id = none := Option.not_isSome_iff_eq_none.1 free
  simp only [storePrepared]
  apply succeeds_checkContext_bind
  apply ((manages_seedPartition known).succeeds serves).bind
  rintro _ w₁ ⟨h₁, serves₁, only, after⟩
  have stored : (insertNew c).Manages h₁ fun _ h' =>
      h'.store = h₁.store.put (.first c) ∧ h'.index = h₁.index := by
    apply manages_insertNew
    · rw [only.store]
      exact absent
    · rw [only.store]
      exact Bool.eq_false_of_not_eq_true unused
  apply (stored.succeeds serves₁).bind
  rintro _ w₂ ⟨h₂, serves₂, store₂, index₂⟩
  have reported : ∀ (w : World) (events : List Event),
      (publish events >>= fun _ => pure c.takeEvents.2).Succeeds w fun made _ => made = c.takeEvents.2 :=
    fun w events => (succeeds_publish (P := fun _ _ => True) fun _ => trivial).bind fun _ _ _ => succeeds_pure rfl
  cases parent with
  | none => exact reported w₂ _
  | some prepared =>
    obtain ⟨record, parent⟩ := prepared
    obtain ⟨found, rows, listed, unlisted⟩ := ready _ rfl
    have apart : c.id ≠ parent.id := by
      intro same
      apply unspent
      rw [same]
      exact .inl (MemoryStore.isSome_contents found)
    have found₂ : h₂.store.records[parent.id]? = some record := by
      rw [store₂, only.store, MemoryStore.records_put_of_ne (r := .first c) apart]
      exact found
    have known₂ : h₂.Lists (update lists c.id (some [])) := by
      change h₂.index.Lists _
      rw [index₂]
      exact after
    have listed₂ : update lists c.id (some []) parent.id = some rows := by
      rw [Function.update_of_ne apart.symm]
      exact listed
    have committed := manages_commit (some (.insert { id := c.id, type := .container, addedAt := time })) found₂ known₂
      listed₂ (by rintro _ ⟨⟩; exact unlisted)
    exact (committed.onError.succeeds serves₂).bind fun _ w' _ => reported w' _

/-- Below a parent the container has to be prepared for, a root has none. -/
theorem judges_newParent (serves : w.Serves h) (sane : h.store.contents.Sane) {parentId : String} (time : Instant)
    (named : ContainerId.check id = .ok ()) (other : parentId ≠ id) (free : h.store.contents id = none)
    {lists : Listing} (receives : h.Receives limits id parentId lists) :
    (if parentId.isEmpty then pure none else some <$> preparedParent limits id parentId time).Judges w
      (h.store.creationObjections limits.maxDepth id parentId).tail fun parent w' =>
        (∀ prepared ∈ parent, h.store.records[prepared.2.id]? = some prepared.1 ∧
          ∃ rows, lists prepared.2.id = some rows ∧ ∀ m ∈ rows, m.id ≠ id) ∧ w' = w := by
  by_cases top : parentId.isEmpty
  · rw [if_pos top, String.isEmpty_iff.1 top]
    have none : ∀ prepared ∈ (none : Option (Record × Container)), h.store.records[prepared.2.id]? = some prepared.1 ∧
        ∃ rows, lists prepared.2.id = some rows ∧ ∀ m ∈ rows, m.id ≠ id := by
      intro prepared impossible
      cases impossible
    exact (succeeds_pure ⟨none, rfl⟩).judges_of_clear (sane.clear_of_root _ _)
  · have proper : parentId ≠ "" := fun none => top (String.isEmpty_iff.2 none)
    rw [if_neg top]
    apply Judges.map
    apply (judges_preparedParent serves sane time named other free proper receives.climbs).mono
    rintro ⟨record, p⟩ _ ⟨⟨found, key, unlisted⟩, rfl⟩
    refine ⟨?_, rfl⟩
    rintro _ ⟨rfl⟩
    rw [key]
    have stored : (h.store.contents parentId).isSome := MemoryStore.isSome_contents found
    exact ⟨found, receives.clear stored unlisted⟩

theorem judges_createHeld (serves : w.Serves h) (sane : h.store.contents.Sane) {c : Container}
    (valid : c.toSnapshot.Valid) {lists : Listing} (receives : h.Receives limits c.id c.parentId lists) :
    (createHeld limits c).Judges w (h.store.creationObjections limits.maxDepth c.id c.parentId) fun made _ =>
      made = c.takeEvents.2 := by
  simp only [createHeld]
  apply judges_cons
  · intro spent
    apply (succeeds_isStored serves c.id).fails_bind
    rintro _ w ⟨rfl, rfl⟩
    by_cases stored : (h.store.contents c.id).isSome = true
    · rw [if_pos stored]
      exact fails_throw _
    rw [if_neg stored]
    apply (succeeds_isRetired serves c.id).fails_bind
    rintro _ w ⟨rfl, rfl⟩
    rw [if_pos (spent.resolve_left stored)]
    exact fails_throw _
  intro unspent
  obtain ⟨free, unused⟩ := not_or.1 unspent
  apply (succeeds_isStored serves c.id).judges_bind
  rintro _ w ⟨rfl, rfl⟩
  rw [if_neg free]
  apply (succeeds_isRetired serves c.id).judges_bind
  rintro _ w ⟨rfl, rfl⟩
  rw [if_neg unused]
  apply judges_now_bind
  intro time clock
  have absent : h.store.contents c.id = none := Option.not_isSome_iff_eq_none.1 free
  have serves' := serves.setClock clock
  -- the definition has the writes once in each branch
  rw [← apply_ite fun parent : Action (Option (Record × Container)) => parent >>= storePrepared c time]
  refine (judges_newParent serves' sane time valid.id_ok valid.parent_ne absent receives).succeeds_bind ?_
  rintro parent w ⟨ready, rfl⟩
  exact succeeds_storePrepared serves' receives.known time unspent ready

/-- What speaks against the creation of a container that keeps the rules. -/
theorem judges_create (serves : w.Serves h) (sane : h.store.contents.Sane) {c : Container}
    (valid : c.toSnapshot.Valid) {lists : Listing} (receives : h.Receives limits c.id c.parentId lists) :
    (create limits c).Judges w (h.store.creationObjections limits.maxDepth c.id c.parentId) fun made _ =>
      made = c.takeEvents.2 := by
  have accepted : Container.validate c.toSnapshot = .ok () := Container.validate_eq_ok_iff.2 valid
  rw [create, accepted]
  exact (judges_createHeld serves sane valid receives).withContainers.withLock

/-- Whoever calls alone for a container that keeps the rules gets it, if its identifier was never used and there is a
place for it. -/
theorem succeeds_create (serves : w.Serves h) (sane : h.store.contents.Sane) (indexed : h.Indexed) {c : Container}
    (valid : c.toSnapshot.Valid) (unspent : ¬ h.store.Spent c.id) (housed : h.Houses limits c) :
    (create limits c).Succeeds w fun made _ => made = c.takeEvents.2 := by
  obtain ⟨⟨lists, receives⟩, none⟩ := housed.receives sane indexed unspent
  exact (judges_create serves sane valid receives).passes none

end Repository

end Containment
