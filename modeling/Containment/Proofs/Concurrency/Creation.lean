/-
Module: Containment.Proofs.Concurrency.Creation
Purpose: What a creation that fails leaves behind, whatever the index lists. As long as at most one of its requests
  was refused, backing out works: nothing has been added, neither to the store and its reserved identifiers nor to
  the rows of any container.
Main exports: Holdings.Unadded, endures_tryStore, endures_tryIndex, endures_storePrepared, endures_createHeld
-/
import Containment.Proofs.Concurrency.Endurance
import Containment.Proofs.Repository.Lifecycle

namespace Containment

open Containment.Action
open Function (update)

/-- Nothing has been added. The partition of an identifier may have gone. -/
structure Holdings.Unadded (x : String) (h h' : Holdings) : Prop where
  contents : h.store.SameContents h'.store
  published : h'.published = h.published
  rows : ∃ lists, h.Lists lists ∧ (h'.Lists lists ∨ h'.Lists (update lists x none))

theorem Holdings.Unadded.refl {h : Holdings} (indexed : h.Indexed) (x : String) : h.Unadded x h := by
  obtain ⟨lists, known⟩ := indexed
  exact ⟨.refl _, rfl, lists, known, .inl known⟩

/-! ### Requests that are refused -/

namespace Index

variable {ix ix' : Index} {lists : Listing} {c : String}

/-- An index that refuses a request lists what it listed. -/
theorem Lists.perform_error {call : IndexCall} {e : IndexError} (known : ix.Lists lists)
    (refused : (ix.perform call).1 = .error e) : (ix.perform call).2.Lists lists := by
  obtain ⟨m, rfl, wf, rfl⟩ := known
  refine ⟨(m.perform call).2, rfl, MemoryIndex.perform_wellFormed wf call, ?_⟩
  change (m.perform call).1 = _ at refused
  have same := MemoryIndex.partitions_of_error refused
  funext d
  simp only [MemoryIndex.listed, same]

/-- A row is taken if the partition is there and does not list the member yet. -/
theorem Lists.insert_ok {m : Member} {row : IndexEntry} (known : ix.Lists lists)
    (served : ix.perform (.insert c m) = (.ok row, ix')) : ∃ members, lists c = some members ∧
      (∀ n ∈ members, n.id ≠ m.id) ∧ ix'.Lists (update lists c (some (members ++ [m]))) := by
  have fits : ∃ members, lists c = some members ∧ ∀ n ∈ members, n.id ≠ m.id := by
    obtain ⟨mem, rfl, wf, rfl⟩ := known
    have answer := congrArg Prod.fst served
    change (mem.insert c m).1 = _ at answer
    rcases mem.insert_cases c m with ⟨e, refused⟩ | ⟨p, found, fresh, -⟩
    · rw [refused] at answer
      cases answer
    · refine ⟨p.members, by rw [MemoryIndex.listed, found]; rfl, fun n there same => ?_⟩
      rw [(wf c p found).contains_seqOf_iff.2 ⟨n, there, same⟩] at fresh
      cases fresh
  obtain ⟨members, listed, fresh⟩ := fits
  have after := (known.insert listed fresh).2
  rw [served] at after
  exact ⟨members, listed, fresh, after⟩

theorem Lists.createPartition_ok {u : Unit} (known : ix.Lists lists)
    (served : ix.perform (.createPartition c) = (.ok u, ix')) : ix'.Lists (update lists c (some [])) := by
  cases listed : lists c with
  | none =>
    have after := (known.createPartition listed).2
    rw [served] at after
    exact after
  | some members =>
    obtain ⟨m, rfl, wf, rfl⟩ := known
    obtain ⟨p, found, -⟩ := Option.map_eq_some_iff.1 listed
    have answer := congrArg Prod.fst served
    change (m.createPartition c).1 = _ at answer
    rw [MemoryIndex.createPartition, if_pos] at answer
    · cases answer
    · rw [Std.ExtTreeMap.contains_eq_isSome_getElem?, found]
      rfl

end Index

namespace Action

variable {α β : Type} {idle : Holdings → Holdings → Prop} {m : Stretch}
  {post : Except RepositoryError β → Stretch → Prop}

/-- A request to the store is served, or refused and then nothing has changed. -/
theorem endures_tryStore {call : StoreCall} {f : Except StoreError call.Answer → Action β}
    (served : ∀ a S, m.now.store.perform call = (.ok a, S) →
      (f (.ok a)).Endures idle (m.passed [] 0 { m.now with store := S }) post)
    (refused : ∀ fails e, (f (.error e)).Endures idle (m.passed fails 1 m.now) post) :
    (tryStore call >>= f).Endures idle m post := by
  intro fails answer h given
  rcases given with ⟨rfl, rfl, rfl⟩ | ⟨e, rfl, rfl, rfl⟩
  · rcases performed : m.now.store.perform call with ⟨e | a, S⟩
    · have same : S = m.now.store := by
        have kept := MemoryStore.perform_error (congrArg Prod.fst performed)
        rw [performed] at kept
        exact kept
      subst same
      exact refused [] e
    · exact served a S performed
  · exact refused _ e

theorem refusals_index_ok {call : IndexCall} (a : call.Answer) : Effect.refusals (.index call) (.ok a) = 0 := by
  cases call <;> rfl

/-- A request to the index is served, or refused and then the lists have not changed. -/
theorem endures_tryIndex {call : IndexCall} {f : Except IndexError call.Answer → Action β}
    (served : ∀ a ix, m.now.index.perform call = (.ok a, ix) →
      (f (.ok a)).Endures idle (m.passed [] 0 { m.now with index := ix }) post)
    (refused : ∀ fails e ix, (∀ lists, m.now.Lists lists → ix.Lists lists) →
      (f (.error e)).Endures idle
        (m.passed fails (Effect.refusals (.index call) (.error e)) { m.now with index := ix }) post) :
    (tryIndex call >>= f).Endures idle m post := by
  intro fails answer h given
  rcases given with ⟨rfl, rfl, rfl⟩ | ⟨e, rfl, rfl, rfl⟩
  · rcases performed : m.now.index.perform call with ⟨e | a, ix⟩
    · refine refused [] e ix fun lists known => ?_
      have kept := known.perform_error (congrArg Prod.fst performed)
      rw [performed] at kept
      exact kept
    · change Program.Endures idle _ (m.passed [] (Effect.refusals (.index call) (.ok a)) _) post
      rw [refusals_index_ok]
      exact served a ix performed
  · exact refused _ e m.now.index fun _ known => known

end Action

namespace Repository

variable {idle : Holdings → Holdings → Prop} {m : Stretch} {lists : Listing} {id : String} {limits : Limits}

/-- The partition of a new container is empty afterwards, or the lists are as before. -/
def SeededAfter (id : String) (h : Holdings) : Post Unit := fun _ out h' =>
  h.IndexOnly h' ∧ ∀ lists, h.Lists lists →
    match out with
    | .ok _ => h'.Lists (update lists id (some []))
    | .error _ => h'.Lists lists

/-- A partition that is left over is emptied. -/
theorem ensures_replacePartition_seeded {h h₁ : Holdings} {f : Except IndexError Unit → Action Unit}
    (only : h.IndexOnly h₁) (listed : ∀ lists, h.Lists lists → h₁.Lists lists) (ok : ∀ u, f (.ok u) = pure ())
    (error : ∀ e, f (.error e) = throw (.indexWriteFailed id e)) :
    (tryIndex (.replacePartition id []) >>= f).Ensures h₁ (SeededAfter id h) := by
  have replaced : ∀ lists, h.Lists lists → (h₁.index.perform (.replacePartition id [])).1 = .ok () ∧
      (h₁.index.perform (.replacePartition id [])).2.Lists (update lists id (some [])) :=
    fun lists known => Index.Lists.replacePartition (listed lists known) List.nodup_nil
  refine ensures_tryIndex ?_ fun e => ?_
  · rcases performed : h₁.index.perform (.replacePartition id []) with ⟨e | u, ix⟩
    · rw [error]
      refine ensures_throw ⟨only.trans ⟨rfl, rfl⟩, fun lists known => ?_⟩
      have served := (replaced lists known).1
      rw [performed] at served
      cases served
    · rw [ok]
      refine ensures_pure ⟨only.trans ⟨rfl, rfl⟩, fun lists known => ?_⟩
      have after := (replaced lists known).2
      rw [performed] at after
      exact after
  · rw [error]
    exact ensures_throw ⟨only, listed⟩

theorem ensures_seedPartition_any {h : Holdings} : (seedPartition id).Ensures h (SeededAfter id h) := by
  simp only [seedPartition]
  refine ensures_tryIndex ?_ fun e => ?_
  · rcases performed : h.index.perform (.createPartition id) with ⟨e | u, ix⟩
    · have kept : ∀ lists, h.Lists lists → ix.Lists lists := by
        intro lists known
        have kept := Index.Lists.perform_error known (congrArg Prod.fst performed)
        rw [performed] at kept
        exact kept
      cases e with
      | partitionExists =>
        exact ensures_replacePartition_seeded ⟨rfl, rfl⟩ kept (fun _ => rfl) fun _ => rfl
      | partitionNotFound | duplicateEntry | database | corrupt | backend => exact ensures_throw ⟨⟨rfl, rfl⟩, kept⟩
    · exact ensures_pure ⟨⟨rfl, rfl⟩, fun lists known => known.createPartition_ok performed⟩
  · cases e with
    | partitionExists =>
      exact ensures_replacePartition_seeded (.refl h) (fun _ known => known) (fun _ => rfl) fun _ => rfl
    | partitionNotFound | duplicateEntry | database | corrupt | backend =>
      exact ensures_throw ⟨.refl h, fun _ known => known⟩

/-- The first record of a new container is stored, or a request was refused and the store is as before; then the
partition has gone again unless that was refused, too. -/
theorem endures_insertNew {c : Container} (known : m.now.Lists lists) :
    (insertNew c).Endures idle m fun out m' => m'.now.published = m.now.published ∧
      match out with
      | .ok _ => m'.refusals = m.refusals ∧ m'.now.store = m.now.store.put (.first c) ∧ m'.now.Lists lists
      | .error _ => m'.now.store = m.now.store ∧
          (m'.refusals ≤ m.refusals + 1 → m'.now.Lists (update lists c.id none)) := by
  simp only [insertNew]
  apply endures_tryStore
  · intro _ S stored
    rcases m.now.store.insert_cases (.first c) with ⟨-, -, done⟩ | ⟨e, refused⟩
    · rw [done] at stored
      cases stored
      exact ⟨rfl, rfl, rfl, known⟩
    · rw [refused] at stored
      cases stored
  · intro fails e
    apply endures_tryIndex
    · intro existed ix (dropped : m.now.index.perform (.dropPartition c.id) = (.ok existed, ix))
      have gone := (Index.Lists.dropPartition known c.id).2
      rw [dropped] at gone
      cases e <;> exact ⟨rfl, rfl, fun _ => gone⟩
    · intro fails' e' ix _
      have twice : ¬ m.refusals + 1 + 1 ≤ m.refusals + 1 := by omega
      cases e <;> exact ⟨rfl, rfl, fun few => absurd few twice⟩

/-- Listing a new container in its parent. If a request is refused, the store is as before, and so are the lists
unless a second one is refused. -/
theorem endures_commit_insert {record : Record} {container : Container} {entry : Member} (known : m.now.Lists lists) :
    (commit record container [.insert entry]).Endures idle m fun out m' => ∀ e, out = .error e →
      m.refusals + 1 ≤ m'.refusals ∧ m'.now.published = m.now.published ∧ m'.now.store = m.now.store ∧
        (m'.refusals ≤ m.refusals + 1 → m'.now.Lists lists) := by
  simp only [commit, applyIndex, applyFrom, attempt, bind_assoc]
  apply endures_tryIndex
  · intro row ix inserted
    obtain ⟨members, listed, fresh, after⟩ := Index.Lists.insert_ok known inserted
    apply endures_tryStore
    · exact fun _ S _ e impossible => by cases impossible
    · intro fails e
      have back : (members ++ [entry]).filter (·.id ≠ entry.id) = members := by
        rw [List.filter_append, List.filter_eq_self.2 (by simpa using fresh)]
        simp
      apply endures_tryIndex
      · intro existed ix' (removed : ix.perform (.remove container.id entry.id) = (.ok existed, ix')) _ _
        have undone := (Index.Lists.remove after (Function.update_self ..) entry.id).2
        rw [removed, Function.update_idem, back, ← listed, Function.update_eq_self] at undone
        exact ⟨Nat.le_refl _, rfl, rfl, fun _ => undone⟩
      · intro fails' e' ix' _ _ _
        have twice : ¬ m.refusals + 0 + 1 + 1 ≤ m.refusals + 1 := by omega
        exact ⟨Nat.le_add_right _ _, rfl, rfl, fun few => absurd few twice⟩
  · intro fails e ix same _ _
    exact ⟨Nat.le_refl _, rfl, rfl, fun _ => same lists known⟩

/-- Removing a container that has just been stored works unless a request is refused. -/
theorem endures_unwindCreate :
    (unwindCreate id).Endures idle m fun out m' => out = .ok () ∧ m'.now.published = m.now.published ∧
      m.refusals ≤ m'.refusals ∧ (m'.refusals ≤ m.refusals →
        m'.now.store = (m.now.store.perform (.delete id)).2 ∧
          ∀ lists, m.now.Lists lists → m'.now.Lists (update lists id none)) := by
  have refused : ∀ n, ¬ m.refusals + 1 + n ≤ m.refusals := fun n => by omega
  simp only [unwindCreate]
  apply endures_tryStore
  · intro _ S deleted
    have gone : S = (m.now.store.perform (.delete id)).2 := by rw [deleted]
    apply endures_tryIndex
    · intro existed ix (dropped : m.now.index.perform (.dropPartition id) = (.ok existed, ix))
      refine ⟨rfl, rfl, Nat.le_refl _, fun _ => ⟨gone, fun lists known => ?_⟩⟩
      have after := (Index.Lists.dropPartition known id).2
      rw [dropped] at after
      exact after
    · exact fun fails e ix _ => ⟨rfl, rfl, Nat.le_add_right _ _, fun few => absurd few (refused 0)⟩
  · intro fails e
    apply endures_tryIndex
    · exact fun _ ix _ => ⟨rfl, rfl, Nat.le_add_right _ _, fun few => absurd few (refused 0)⟩
    · exact fun fails' e' ix _ => ⟨rfl, rfl, Nat.le_add_right _ 2, fun few => absurd few (refused 1)⟩

/-- A creation that fails at a single refused request has added nothing. -/
theorem endures_storePrepared {c : Container} {time : Time.Instant} {parent : Option (Record × Container)}
    (indexed : m.now.Indexed) (absent : m.now.store.contents c.id = none) :
    (storePrepared c time parent).Endures idle m fun out m' => ∀ e, out = .error e →
      m'.refusals ≤ m.refusals + 1 → m.now.Unadded c.id m'.now := by
  obtain ⟨lists, known⟩ := indexed
  simp only [storePrepared]
  apply bare_checkContext.endures_bind reads_checkContext
  · exact fun _ _ _ _ _ _ _ => .refl ⟨lists, known⟩ _
  intro n _ _
  apply Endures.bind
  apply (bare_seedPartition c.id).endures ensures_seedPartition_any
  rintro _ n₁ (e | _) h₁ ⟨only, seeded⟩
  · intro _ _ _
    refine ⟨?_, only.published, lists, known, .inl (seeded lists known)⟩
    change m.now.store.SameContents h₁.store
    rw [show h₁.store = m.now.store from only.store]
    exact .refl _
  apply Endures.bind
  apply (endures_insertNew (seeded lists known)).mono
  rintro (e | _) m₂ ⟨published, inserted⟩
  · obtain ⟨store, dropped⟩ := inserted
    intro _ _ few
    refine ⟨?_, published.trans only.published, lists, known, .inr ?_⟩
    · rw [show m₂.now.store = m.now.store from store.trans only.store]
      exact .refl _
    · have gone := dropped (few.trans (by simp only [Stretch.passed]; omega))
      rw [Function.update_idem] at gone
      exact gone
  obtain ⟨counted, store, listed₂⟩ := inserted
  have stored : m₂.now.store = m.now.store.put (.first c) :=
    store.trans (congrArg (MemoryStore.put · (.first c)) only.store)
  have reported : ∀ {m₃ : Stretch} (events : List Event) (a : Container),
      (publish events >>= fun _ => pure a : Action Container).Endures idle m₃ fun out m' => ∀ e, out = .error e →
        m'.refusals ≤ m.refusals + 1 → m.now.Unadded c.id m'.now := by
    intro m₃ events a
    have succeeds : (publish events >>= fun _ => pure a : Action Container).Ensures m₃.now fun _ out _ => out = .ok a :=
      ensures_publish (ensures_pure rfl)
    apply ((bare_publish _).bind fun _ => bare_pure _).endures succeeds
    rintro _ _ _ _ rfl e impossible
    cases impossible
  cases parent with
  | none => exact reported _ _
  | some prepared =>
    apply Endures.bind
    apply Endures.tryCatch
    apply (endures_commit_insert listed₂).mono
    intro out m₃ failed
    cases out with
    | ok next => exact reported _ _
    | error e =>
      obtain ⟨least, published₃, store₃, listed₃⟩ := failed e rfl
      apply Endures.bind
      apply endures_unwindCreate.mono
      rintro _ m₄ ⟨rfl, published₄, grown, unwound⟩ _ _ few
      have passed : m₂.refusals = m.refusals + n + n₁ := counted
      obtain ⟨deleted, gone⟩ := unwound (by omega)
      refine ⟨?_, ?_, lists, known, .inr ?_⟩
      · rw [deleted, store₃, stored]
        exact MemoryStore.sameContents_delete_put (r := .first c) absent
      · exact published₄.trans (published₃.trans (published.trans only.published))
      · have dropped := gone _ (listed₃ (by omega))
        rw [Function.update_idem] at dropped
        exact dropped

/-- The same for the part of a creation that holds its locks. -/
theorem endures_createHeld {c : Container} (indexed : m.now.Indexed) :
    (createHeld limits c).Endures idle m fun out m' => ∀ e, out = .error e →
      m'.refusals ≤ m.refusals + 1 → m.now.Unadded c.id m'.now := by
  have unchanged : ∀ (m₁ : Stretch) (fails : List FaultPoint) (n : Nat) (e : RepositoryError),
      (fails = [] → ¬ e.IsWriteFault) → ∀ e', (.error e : Except RepositoryError Container) = .error e' →
        (m₁.passed fails n m.now).refusals ≤ m.refusals + 1 → m.now.Unadded c.id (m₁.passed fails n m.now).now :=
    fun _ _ _ _ _ _ _ _ => .refl indexed _
  simp only [createHeld]
  apply (looks_isStored c.id).bare.endures_bind reads_isStored (unchanged m)
  intro n₁ stored same
  subst same
  by_cases known : (m.now.store.contents c.id).isSome = true
  · simp only [if_pos known]
    exact unchanged m [] n₁ _ fun _ => not_false
  simp only [if_neg known]
  have absent : m.now.store.contents c.id = none := by simpa using known
  apply (looks_store (.isRetired c.id) trivial).bare.endures_bind reads_isRetired (unchanged _)
  intro n₂ retired _
  by_cases used : retired = true
  · simp only [if_pos used]
    exact unchanged (m.passed [] n₁ m.now) [] n₂ _ fun _ => not_false
  simp only [if_neg used]
  rw [Stretch.passed_passed]
  apply bare_now.endures_bind reads_now (unchanged _)
  intro n₃ time _
  rw [Stretch.passed_passed]
  have last : ∀ (n : Nat) (parent : Option (Record × Container)),
      (storePrepared c time parent).Endures idle (m.passed [] n m.now) fun out m' => ∀ e, out = .error e →
        m'.refusals ≤ m.refusals + 1 → m.now.Unadded c.id m'.now := by
    intro n parent
    apply (endures_storePrepared (m := m.passed [] n m.now) indexed absent).mono
    intro out m' unadded e same few
    exact unadded e same (few.trans (Nat.add_le_add_right (Nat.le_add_right _ _) 1))
  by_cases top : c.parentId.isEmpty
  · simp only [if_pos top]
    exact last _ none
  · simp only [if_neg top]
    apply ((bare_preparedParent _ _ _).map some).endures_bind
      (Reads.map (P := fun _ => True) (reads_preparedParent.mono fun _ _ => trivial)) (unchanged _)
    intro n₄ parent _
    rw [Stretch.passed_passed]
    exact last _ parent

end Repository

end Containment
