/-
Module: Containment.Proofs.Repository.Spending
Purpose: Which identifiers are used up, be it by a stored container or by a deleted one. A creation may use up the
  identifier of its container and, backing out, set it free again; no other call does either. A creation that
  finds its identifier used up does nothing.
Main exports: MemoryStore.Spent, Holdings.Spends, Draft.id?, ensures_draw, ensures_createHeld_spends,
  ensures_createHeld_spent, ensures_deleteHeld_spends
-/
import Containment.Proofs.Repository.Deciding
import Containment.Proofs.Repository.Lifecycle

namespace Containment

open Containment.Action

/-- The identifier is used up: a container has it or had it. -/
def MemoryStore.Spent (S : MemoryStore) (x : String) : Prop :=
  (S.contents x).isSome ∨ S.retired.contains x

namespace MemoryStore

variable {S S' : MemoryStore} {x : String}

theorem SameContents.spent_iff (same : S.SameContents S') : S'.Spent x ↔ S.Spent x := by
  rw [Spent, Spent, same.contents, same.retired]

theorem spent_put (r : Record) : (S.put r).Spent x ↔ x = r.id ∨ S.Spent x := by
  simp only [Spent, contents_put, Function.update_apply]
  by_cases own : x = r.id
  · simp [own]
  · simp only [own, false_or]
    rfl

theorem spent_retiring (gone : String) : (S.retiring gone).Spent x ↔ x = gone ∨ S.Spent x := by
  simp only [Spent, contents_retiring, Function.update_apply]
  have reserved : (S.retiring gone).retired.contains x ↔ x = gone ∨ S.retired.contains x := by
    simp only [retiring, Std.ExtTreeSet.contains_insert, Bool.or_eq_true, beq_iff_eq,
      Std.LawfulEqCmp.compare_eq_iff_eq, eq_comm (a := gone)]
  rw [reserved]
  by_cases own : x = gone
  · simp [own]
  · simp [own]

theorem spent_delete {id : String} (other : x ≠ id) : (S.perform (.delete id)).2.Spent x ↔ S.Spent x := by
  have same : (S.perform (.delete id)).2.contents x = S.contents x := by
    change (S.records.erase id)[x]?.map Record.container = S.contents x
    rw [Std.ExtTreeMap.getElem?_erase, if_neg]
    · rfl
    · rw [Std.LawfulEqCmp.compare_eq_iff_eq]
      exact Ne.symm other
  rw [Spent, Spent, same]
  rfl

theorem not_spent_empty : ¬ ({} : MemoryStore).Spent x := by
  simp [Spent, contents_empty]

end MemoryStore

/-- Identifiers get used up only if they are of the first kind, and free again only if they are of the second. -/
def Holdings.Spends (used freed : String → Prop) (h h' : Holdings) : Prop :=
  ∀ x, (¬ used x → h'.store.Spent x → h.store.Spent x) ∧ (¬ freed x → h.store.Spent x → h'.store.Spent x)

namespace Holdings

variable {used freed : String → Prop} {h h₁ h' : Holdings}

theorem Spends.refl (h : Holdings) : h.Spends used freed h :=
  fun _ => ⟨fun _ spent => spent, fun _ spent => spent⟩

theorem Spends.trans (first : h.Spends used freed h₁) (second : h₁.Spends used freed h') : h.Spends used freed h' :=
  fun x => ⟨fun free spent => (first x).1 free ((second x).1 free spent),
    fun kept spent => (second x).2 kept ((first x).2 kept spent)⟩

theorem spends_of_store_eq (same : h'.store = h.store) : h.Spends used freed h' := by
  intro x
  rw [same]
  exact ⟨fun _ spent => spent, fun _ spent => spent⟩

/-- A record that is stored again or for the first time. -/
theorem spends_put {r : Record} {S : MemoryStore} (written : S = h.store.put r)
    (new : h.store.Spent r.id ∨ used r.id) : h.Spends used freed { h with store := S } := by
  subst written
  intro x
  rw [MemoryStore.spent_put]
  constructor
  · rintro free (rfl | spent)
    · exact new.resolve_right free
    · exact spent
  · exact fun _ spent => .inr spent

theorem spends_retiring {id : String} {S : MemoryStore} (written : S = h.store.retiring id)
    (new : h.store.Spent id ∨ used id) : h.Spends used freed { h with store := S } := by
  subst written
  intro x
  rw [MemoryStore.spent_retiring]
  constructor
  · rintro free (rfl | spent)
    · exact new.resolve_right free
    · exact spent
  · exact fun _ spent => .inr spent

/-- What a single request does to the identifiers can be told from its text. -/
theorem Answers.spends {ids : String → Prop} {request : Effect} {fails : List FaultPoint} {answer : request.Answer}
    (within : request.Within ids used freed) (answers : h.Answers request fails answer h') :
    h.Spends used freed h' := by
  cases request with
  | store call =>
    rcases answers with ⟨-, -, rfl⟩ | ⟨e, -, -, rfl⟩
    · cases call with
      | read | isRetired | ids | «exists» => exact spends_of_store_eq rfl
      | insert record =>
        rcases h.store.insert_cases record with ⟨-, -, done⟩ | ⟨e, kept⟩
        · rw [done]
          exact spends_put rfl (.inr within)
        · rw [kept]
          exact spends_of_store_eq rfl
      | update record expected =>
        rcases h.store.update_cases record expected with ⟨current, found, -, done⟩ | ⟨-, e, kept⟩
        · rw [done]
          exact spends_put rfl (.inl (.inl (MemoryStore.isSome_contents found)))
        · rw [kept]
          exact spends_of_store_eq rfl
      | delete id =>
        intro x
        by_cases own : x = id
        · subst own
          refine ⟨fun _ spent => ?_, fun kept => absurd within kept⟩
          rcases spent with stored | retired
          · have gone : (h.store.perform (.delete x)).2.contents x = none := by
              change (h.store.records.erase x)[x]?.map Record.container = none
              rw [Std.ExtTreeMap.getElem?_erase_self]
              rfl
            rw [gone] at stored
            cases stored
          · exact .inr retired
        · rw [MemoryStore.spent_delete own]
          exact ⟨fun _ spent => spent, fun _ spent => spent⟩
      | retire id =>
        rw [MemoryStore.perform_retire]
        exact spends_retiring rfl (.inr within)
    · exact .refl h'
  | index call =>
    rcases answers with ⟨-, -, rfl⟩ | ⟨e, -, -, rfl⟩
    · exact spends_of_store_eq rfl
    · exact .refl h'
  | readClock | drawId =>
    obtain ⟨-, rfl⟩ := answers
    exact .refl h'
  | publish events =>
    obtain ⟨-, rfl⟩ := answers
    exact spends_of_store_eq rfl

end Holdings

/-- A program that decides once does to the identifiers what its text allows. -/
theorem Action.Decides.spends {α : Type} {x : Action α} {clear : Bool} {ids used freed : String → Prop}
    {h : Holdings} {idle written : Except RepositoryError α → Prop}
    {stopped : Cancellation → Except RepositoryError α → Prop}
    (decides : Program.Decides (Effect.Within ids used freed) x.run clear idle written stopped) :
    x.Ensures h fun _ _ h' => h.Spends used freed h' :=
  fun _ _ _ run => decides.runs Holdings.Spends.refl (fun _ _ _ => Holdings.Spends.trans)
    (fun _ _ _ _ _ => Holdings.Answers.spends) run

namespace Action

variable {α β : Type} {h : Holdings} {f : α → Action β} {post : Post β}

/-- The clock always answers. -/
theorem ensures_now_bind {f : Time.Instant → Action β} (next : ∀ time, (f time).Ensures h post) :
    (now >>= f).Ensures h post := by
  intro fails out h' given
  rcases given with ⟨_, later, time, h₁, ⟨rfl, rfl⟩, run, rfl⟩
  exact next time _ out h' run

/-- A question to the store is refused only if it fails. -/
theorem ensures_store_bind {call : StoreCall} {answer : call.Answer} {f : call.Answer → Action β}
    (served : h.store.perform call = (.ok answer, h.store))
    (failed : ∀ fails e, fails ≠ [] → post fails (.error (.store e)) h) (next : (f answer).Ensures h post) :
    (store call >>= f).Ensures h post := by
  simp only [store, bind_assoc]
  refine ensures_tryStore ?_ fun e => ensures_throw (failed _ e (List.cons_ne_nil _ _))
  rw [served]
  exact next

end Action

/-! ### Drafts -/

/-- The identifier that a draft names, unless it is left to be drawn. -/
def Draft.id? : Draft → Option String
  | .new id _ _ _ => if id.isEmpty then none else some id
  | .named id _ _ => some id
  | .restored s => some s.id

namespace Container

/-- Whether a container can be made does not depend on the time. -/
theorem create_ok {id parentId : String} {type : ContainerType} {time : Time.Instant} {c : Container}
    (created : create id parentId type time = .ok c) :
    c.id = id ∧ c.toSnapshot.Valid ∧ ∀ time', ∃ c', create id parentId type time' = .ok c' := by
  obtain ⟨named, other, rfl⟩ := create_eq_ok_iff.1 created
  exact ⟨rfl, ⟨named, other, fun _ mem => absurd mem List.not_mem_nil, List.nodup_nil⟩,
    fun time' => ⟨_, create_eq_ok_iff.2 ⟨named, other, rfl⟩⟩⟩

theorem createNamed_ok {id parentId typeName : String} {time : Time.Instant} {c : Container}
    (created : createNamed id parentId typeName time = .ok c) :
    c.id = id ∧ c.toSnapshot.Valid ∧ ∀ time', ∃ c', createNamed id parentId typeName time' = .ok c' := by
  unfold createNamed at created ⊢
  cases parsed : parseType typeName with
  | error e =>
    rw [parsed] at created
    cases created
  | ok type =>
    rw [parsed] at created
    exact create_ok created

end Container

namespace Draft.Describes

variable {draft : Draft} {c : Container}

/-- What a draft describes keeps the rules and has the identifier that the draft names. -/
theorem sound (describes : draft.Describes c) : c.toSnapshot.Valid ∧ ∀ x ∈ draft.id?, c.id = x := by
  cases draft with
  | new id parentId type title =>
    obtain ⟨drawn, time, made, named, created, rfl⟩ := describes
    obtain ⟨own, valid, -⟩ := Container.create_ok created
    have shape : made.SameShape (title.elim made fun text => made.setTitle text made.createdAt) := by
      cases title with
      | none => exact ⟨rfl, rfl, rfl, rfl⟩
      | some text => exact Container.sameShape_setProperty made "title" text made.createdAt
    refine ⟨shape.valid valid, fun x same => ?_⟩
    simp only [Draft.id?] at same
    split at same
    · cases same
    · rename_i proper
      cases same
      rw [shape.id, own]
      exact named fun empty => proper (String.isEmpty_iff.2 empty)
  | named id parentId typeName =>
    obtain ⟨time, created⟩ := describes
    obtain ⟨own, valid, -⟩ := Container.createNamed_ok created
    exact ⟨valid, fun x same => by cases same; exact own⟩
  | restored s =>
    obtain ⟨sound, same, -⟩ := Container.Sound.of_restore describes
    refine ⟨sound.valid, fun x named => ?_⟩
    cases named
    exact congrArg Snapshot.id same

end Draft.Describes

namespace Repository

variable {h : Holdings} {limits : Limits} {id parentId : String}

/-- Drawing a container with a given identifier. -/
theorem ensures_newContainer_named {type : ContainerType} (proper : ¬ id.isEmpty) :
    (newContainer id parentId type).Ensures h fun fails out h' => h' = h ∧ fails = [] ∧
      ∀ e, out = .error e → ∀ time c, Container.create id parentId type time ≠ .ok c := by
  simp only [newContainer, if_neg proper]
  apply ensures_now_bind
  intro time
  cases created : Container.create id parentId type time with
  | ok c => exact ensures_pure ⟨rfl, rfl, fun e impossible => by cases impossible⟩
  | error e =>
    refine ensures_throw ⟨rfl, rfl, fun _ _ time' c created' => ?_⟩
    obtain ⟨c', impossible⟩ := (Container.create_ok created').2.2 time
    rw [created] at impossible
    cases impossible

/-- Drawing a container fails only if the draft describes none. -/
theorem ensures_draw {draft : Draft} {x : String} (named : draft.id? = some x) :
    (draw draft).Ensures h fun fails out h' => h' = h ∧ fails = [] ∧
      ∀ e, out = .error e → ∀ c, ¬ draft.Describes c := by
  cases draft with
  | new id parentId type title =>
    have proper : ¬ id.isEmpty := by
      intro empty
      simp only [Draft.id?, if_pos empty] at named
      cases named
    refine (ensures_newContainer_named proper).bind ?_ ?_
    · intro _ made h₁ given
      rcases given with ⟨rfl, rfl, -⟩
      cases title with
      | none => exact ensures_pure ⟨rfl, rfl, fun e impossible => by cases impossible⟩
      | some text => exact ensures_pure ⟨rfl, rfl, fun e impossible => by cases impossible⟩
    · intro _ e _ given
      rcases given with ⟨rfl, rfl, none⟩
      refine ⟨rfl, rfl, fun _ _ c describes => ?_⟩
      obtain ⟨drawn, time, made, same, created, -⟩ := describes
      rw [same fun empty => proper (String.isEmpty_iff.2 empty)] at created
      exact none e rfl time made created
  | named id parentId typeName =>
    apply ensures_now_bind
    intro time
    cases created : Container.createNamed id parentId typeName time with
    | ok c => exact ensures_pure ⟨rfl, rfl, fun e impossible => by cases impossible⟩
    | error e =>
      refine ensures_throw ⟨rfl, rfl, fun _ _ c describes => ?_⟩
      obtain ⟨time', created'⟩ := describes
      obtain ⟨c', impossible⟩ := (Container.createNamed_ok created').2.2 time
      rw [created] at impossible
      cases impossible
  | restored s =>
    simp only [draw, ofContainer]
    cases restored : Container.restore s with
    | ok c => exact ensures_pure ⟨rfl, rfl, fun e impossible => by cases impossible⟩
    | error e =>
      refine ensures_throw ⟨rfl, rfl, fun _ _ c describes => ?_⟩
      have impossible : Container.restore s = .ok c := describes
      rw [restored] at impossible
      cases impossible

/-! ### The parts of calls that hold their locks -/

/-- A creation may use up the identifier of its container and set it free again. -/
theorem ensures_createHeld_spends (c : Container) :
    (createHeld limits c).Ensures h fun _ _ h' => h.Spends (· = c.id) (· = c.id) h' :=
  Action.Decides.spends (decides_createHeld rfl rfl)

/-- A creation that finds its identifier used up says so and does nothing else. -/
theorem ensures_createHeld_spent {c : Container} (spent : h.store.Spent c.id) :
    (createHeld limits c).Ensures h fun fails out h' =>
      h' = h ∧ ∃ e, out = .error e ∧ (fails = [] → e = .alreadyExists c.id) := by
  have refused : (throw (.alreadyExists c.id) : Action Container).Ensures h fun fails out h' => h' = h ∧
      ∃ e, out = .error e ∧ (fails = [] → e = .alreadyExists c.id) := ensures_throw ⟨rfl, _, rfl, fun _ => rfl⟩
  simp only [createHeld, isStored]
  refine ensures_store_bind rfl (fun fails e failed => ⟨rfl, _, rfl, fun none => absurd none failed⟩) ?_
  by_cases stored : h.store.records.contains c.id = true
  · simp only [if_pos stored]
    exact refused
  simp only [if_neg stored]
  refine ensures_store_bind rfl (fun fails e failed => ⟨rfl, _, rfl, fun none => absurd none failed⟩) ?_
  have retired : h.store.retired.contains c.id = true := by
    refine spent.resolve_left fun there => stored ?_
    rw [MemoryStore.contains_records]
    exact there
  simp only [if_pos retired]
  exact refused

/-- A deletion retires an identifier that was used up before. -/
theorem ensures_deleteHeld_spends :
    (deleteHeld id parentId).Ensures h fun _ _ h' => h.Spends (fun _ => False) (fun _ => False) h' := by
  by_cases stored : (h.store.contents id).isSome
  · have own : (deleteHeld id parentId).Ensures h fun _ _ h' => h.Spends (· = id) (fun _ => False) h' :=
      Action.Decides.spends (decides_deleteHeld parentId rfl)
    refine own.mono fun _ _ h' spends x => ⟨fun _ spent => ?_, (spends x).2⟩
    by_cases own : x = id
    · subst own
      exact .inl stored
    · exact (spends x).1 own spent
  · simp only [deleteHeld]
    refine reads_load.ensures_bind (fun _ _ _ => .refl h) ?_
    intro loaded given
    rcases given with ⟨found, -⟩
    rw [MemoryStore.contents_eq_some found] at stored
    exact absurd rfl stored

end Repository

end Containment
