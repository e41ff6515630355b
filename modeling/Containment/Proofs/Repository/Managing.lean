/-
Module: Containment.Proofs.Repository.Managing
Purpose: Programs that end well unless a request fails, whatever the context. The writes of the repository are of that
  kind as long as the rows that they meet do not stand in their way, also where rows of other members are missing.
  Beside them, what such programs keep however they end.
Main exports: Action.Manages, Action.Manages.bind, Action.Keeps, Action.Keeps.bind, manages_commit,
  manages_seedPartition, manages_insertNew
-/
import Containment.Proofs.Looking
import Containment.Proofs.Repository.Commit

namespace Containment

open Function (update)

namespace Action

variable {α β : Type} {h : Holdings} {x : Action α} {f : α → Action β} {P : α → Holdings → Prop}
  {Q : β → Holdings → Prop}

/-- If no request fails, the program succeeds, and its answer and what is held then are as `P` says. -/
def Manages (x : Action α) (h : Holdings) (P : α → Holdings → Prop) : Prop :=
  x.Ensures h fun fails out h' => fails = [] → ∃ a, out = .ok a ∧ P a h'

theorem Manages.mono {weaker : α → Holdings → Prop} (manages : x.Manages h P) (imp : ∀ a h', P a h' → weaker a h') :
    x.Manages h weaker := by
  intro fails out h' run none
  obtain ⟨a, same, good⟩ := manages fails out h' run none
  exact ⟨a, same, imp a h' good⟩

theorem manages_pure {a : α} (good : P a h) : (pure a : Action α).Manages h P :=
  ensures_pure fun _ => ⟨a, rfl, good⟩

theorem Manages.bind (first : x.Manages h P) (second : ∀ a h₁, P a h₁ → (f a).Manages h₁ Q) :
    (x >>= f).Manages h Q := by
  refine Ensures.bind first ?_ ?_
  · intro early a h₁ given late out h' run none
    obtain ⟨rfl, rfl⟩ := List.append_eq_nil_iff.1 none
    obtain ⟨_, ⟨⟩, good⟩ := given rfl
    exact second a h₁ good [] out h' run rfl
  · intro fails e h' given none
    obtain ⟨_, ⟨⟩, _⟩ := given none

theorem manages_tryStore_bind {call : StoreCall} {answer : Except StoreError call.Answer} {S : MemoryStore}
    {f : Except StoreError call.Answer → Action β} (served : h.store.perform call = (answer, S))
    (next : (f answer).Manages { h with store := S } Q) : (tryStore call >>= f).Manages h Q := by
  apply ensures_tryStore
  · rw [served]
    exact next
  · intro e late out h' run none
    cases none

theorem manages_tryIndex_bind {call : IndexCall} {answer : Except IndexError call.Answer} {ix : Index}
    {f : Except IndexError call.Answer → Action β} (served : h.index.perform call = (answer, ix))
    (next : (f answer).Manages { h with index := ix } Q) : (tryIndex call >>= f).Manages h Q := by
  apply ensures_tryIndex
  · rw [served]
    exact next
  · intro e late out h' run none
    cases none

/-- What ends well needs no handler. -/
theorem Manages.onError {handler : RepositoryError → Action Unit} (manages : x.Manages h P) :
    (onError x handler).Manages h P := by
  refine Ensures.tryCatch (Ensures.mono manages fun early out h₁ given => ?_)
  cases out with
  | ok a => exact given
  | error e =>
    intro late out h' run none
    obtain ⟨_, ⟨⟩, _⟩ := given (List.append_eq_nil_iff.1 none).1

/-! ### What is kept however the program ends -/

/-- However the program ends, if no request fails, what is held then is as `I` says. -/
def Keeps (x : Action α) (h : Holdings) (I : Holdings → Prop) : Prop :=
  x.Ensures h fun fails _ h' => fails = [] → I h'

variable {I : Holdings → Prop}

theorem Keeps.mono {weaker : Holdings → Prop} (keeps : x.Keeps h I) (imp : ∀ h', I h' → weaker h') : x.Keeps h weaker :=
  Ensures.mono keeps fun _ _ h' kept none => imp h' (kept none)

theorem keeps_pure (held : I h) (a : α) : (pure a : Action α).Keeps h I :=
  ensures_pure fun _ => held

theorem keeps_throw (held : I h) (e : RepositoryError) : (throw e : Action α).Keeps h I :=
  ensures_throw fun _ => held

theorem Keeps.bind (first : x.Keeps h I) (second : ∀ a h₁, I h₁ → (f a).Keeps h₁ I) : (x >>= f).Keeps h I := by
  refine Ensures.bind first ?_ fun _ _ _ kept => kept
  intro early a h₁ kept late out h' run none
  obtain ⟨noEarly, noLate⟩ := List.append_eq_nil_iff.1 none
  exact second a h₁ (kept noEarly) late out h' run noLate

theorem Manages.keeps_bind (first : x.Manages h P) (second : ∀ a h₁, P a h₁ → (f a).Keeps h₁ I) :
    (x >>= f).Keeps h I := by
  refine Ensures.bind first ?_ ?_
  · intro early a h₁ given late out h' run none
    obtain ⟨noEarly, noLate⟩ := List.append_eq_nil_iff.1 none
    obtain ⟨_, ⟨⟩, good⟩ := given noEarly
    exact second a h₁ good late out h' run noLate
  · intro fails e h' given none
    obtain ⟨_, ⟨⟩, _⟩ := given none

theorem Reads.keeps_bind {R : α → Prop} (reads : x.Reads h R) (held : I h) (next : ∀ a, R a → (f a).Keeps h I) :
    (x >>= f).Keeps h I :=
  reads.ensures_bind (fun _ _ _ _ => held) next

theorem Keeps.map {g : α → β} (keeps : x.Keeps h I) : (g <$> x).Keeps h I :=
  Ensures.map keeps

theorem Keeps.tryCatch {handler : RepositoryError → Action α} (keeps : x.Keeps h I)
    (handled : ∀ e h₁, I h₁ → (handler e).Keeps h₁ I) : (tryCatch x handler : Action α).Keeps h I := by
  refine Ensures.tryCatch (Ensures.mono keeps fun early out h₁ kept => ?_)
  cases out with
  | ok a => exact kept
  | error e =>
    intro late out h' run none
    obtain ⟨noEarly, noLate⟩ := List.append_eq_nil_iff.1 none
    exact handled e h₁ (kept noEarly) late out h' run noLate

theorem Keeps.withLock {lock : LockName} {mode : Mode} (keeps : x.Keeps h I) (held : I h) :
    (withLock lock mode x).Keeps h I :=
  ensures_withLock (fun _ _ => held) keeps

theorem Keeps.withContainers {ids : List String} (keeps : x.Keeps h I) (held : I h) :
    (withContainers ids x).Keeps h I :=
  ensures_withContainers (fun _ _ => held) keeps

theorem Looks.keeps (looks : x.Looks fun _ => True) (held : I h) : x.Keeps h I := by
  intro fails out h' run _
  obtain ⟨rfl, -⟩ := looks.reads run
  exact held

theorem keeps_tryStore_bind {call : StoreCall} {answer : Except StoreError call.Answer} {S : MemoryStore}
    {f : Except StoreError call.Answer → Action β} (served : h.store.perform call = (answer, S))
    (next : (f answer).Keeps { h with store := S } I) : (tryStore call >>= f).Keeps h I := by
  apply ensures_tryStore
  · rw [served]
    exact next
  · intro e late out h' run none
    cases none

theorem keeps_tryIndex_bind {call : IndexCall} {f : Except IndexError call.Answer → Action β}
    (next : (f (h.index.perform call).1).Keeps { h with index := (h.index.perform call).2 } I) :
    (tryIndex call >>= f).Keeps h I := by
  apply ensures_tryIndex next
  intro e late out h' run none
  cases none

/-- A request to the index whose answer is only passed on. -/
theorem keeps_index {call : IndexCall} (held : I { h with index := (h.index.perform call).2 }) :
    (index call).Keeps h I := by
  apply keeps_tryIndex_bind
  split
  · exact keeps_pure held _
  · exact keeps_throw held _

end Action

namespace Repository

open Containment.Action

variable {h : Holdings} {lists : Listing} {rows members : List Member} {id : String} {change : Option IndexChange}
  {record : Record} {container : Container}

/-- A change that the rows take is made. -/
theorem manages_applyIndex (known : h.Lists lists) (listed : lists id = some rows)
    (fits : ∀ c ∈ change, c.Fits rows) :
    (applyIndex id change.toList members).Manages h fun _ h' =>
      h.IndexOnly h' ∧ h'.Lists (update lists id (some (change.elim rows (·.apply rows)))) := by
  cases change with
  | none =>
    refine manages_pure ⟨.refl h, known.congr ?_⟩
    rw [Option.elim_none, ← listed, Function.update_eq_self]
  | some change =>
    have attempted : (attempt id change).Manages h fun outcome h' => outcome = .ok () ∧ h.IndexOnly h' ∧
        h'.Lists (update lists id (some (change.apply rows))) := by
      intro fails out h' run none
      obtain ⟨answer, same, only, -, made⟩ := ensures_attempt change fails out h' run
      obtain ⟨done, after⟩ := made none lists rows known listed (fits change rfl)
      exact ⟨answer, same, done, only, after⟩
    simp only [Option.toList_some, applyIndex, applyFrom]
    refine attempted.bind ?_
    rintro _ h₁ ⟨rfl, only, after⟩
    exact manages_pure ⟨only, after⟩

/-- A container is written to index and store, if the rows take the change and the record is the stored one. -/
theorem manages_commit (change : Option IndexChange) (found : h.store.records[container.id]? = some record)
    (known : h.Lists lists) (listed : lists container.id = some rows) (fits : ∀ c ∈ change, c.Fits rows) :
    (commit record container change.toList).Manages h fun next h' =>
      next = record.next container ∧ h'.store = h.store.put (record.next container) ∧
        h'.Lists (update lists container.id (some (change.elim rows (·.apply rows)))) := by
  simp only [commit]
  refine (manages_applyIndex known listed fits).bind ?_
  rintro _ h₁ ⟨only, after⟩
  have current : h₁.store.records[(record.next container).id]? = some record := by
    rw [only.store]
    exact found
  apply manages_tryStore_bind (MemoryStore.perform_update current rfl)
  refine manages_pure ⟨rfl, ?_, after⟩
  rw [← only.store]

/-- A container has an empty partition, whether it had any before or not. -/
theorem manages_seedPartition (known : h.Lists lists) :
    (seedPartition id).Manages h fun _ h' => h.IndexOnly h' ∧ h'.Lists (update lists id (some [])) := by
  simp only [seedPartition]
  cases listed : lists id with
  | none =>
    obtain ⟨answer, after⟩ := Index.Lists.createPartition known listed
    apply manages_tryIndex_bind (Prod.ext answer rfl)
    exact manages_pure ⟨⟨rfl, rfl⟩, after⟩
  | some rows =>
    apply manages_tryIndex_bind (Index.Lists.createPartition_again known listed)
    obtain ⟨answer, after⟩ : (h.index.perform (.replacePartition id [])).1 = .ok () ∧ _ :=
      Index.Lists.replacePartition known List.nodup_nil
    apply manages_tryIndex_bind (Prod.ext answer rfl)
    exact manages_pure ⟨⟨rfl, rfl⟩, after⟩

/-- The first record of a container that was never stored. -/
theorem manages_insertNew (absent : h.store.contents container.id = none)
    (unused : h.store.retired.contains container.id = false) :
    (insertNew container).Manages h fun _ h' => h'.store = h.store.put (.first container) ∧ h'.index = h.index := by
  simp only [insertNew]
  apply manages_tryStore_bind (MemoryStore.perform_insert (r := .first container) absent unused)
  exact manages_pure ⟨rfl, rfl⟩

end Repository

end Containment
