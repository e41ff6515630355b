/-
Module: Containment.Proofs.Objections
Purpose: Programs that refuse for reasons. A program goes through a list of objections and ends with the error of the
  first one that holds; if none holds, it succeeds. Running alone it ends in one way, so that the list tells both when
  it succeeds and with which error it fails.
Main exports: Objection.First, Action.Judges, Action.Judges.bind, Action.Judges.outcome_ok_iff,
  Action.Judges.outcome_error_iff
-/
import Containment.Proofs.Undisturbed

namespace Containment

/-- Something that speaks against a call, and the error that tells it. -/
structure Objection where
  holds : Prop
  error : RepositoryError

namespace Objection

/-- The error tells the first objection of the list that holds; those behind it do not matter. -/
inductive First : List Objection → RepositoryError → Prop
  | here {o : Objection} {rest : List Objection} : o.holds → First (o :: rest) o.error
  | later {o : Objection} {rest : List Objection} {e : RepositoryError} :
      ¬ o.holds → First rest e → First (o :: rest) e

variable {objections more : List Objection} {e : RepositoryError}

theorem First.mem (first : First objections e) : ∃ o ∈ objections, o.holds ∧ o.error = e := by
  induction first with
  | @here o rest holds => exact ⟨o, List.mem_cons_self, holds, rfl⟩
  | later _ _ ih =>
    obtain ⟨o, mem, holds, tells⟩ := ih
    exact ⟨o, List.mem_cons_of_mem _ mem, holds, tells⟩

/-- Either one of them is the first that holds, or none holds. -/
theorem exists_first_or_none (objections : List Objection) :
    (∃ e, First objections e) ∨ ∀ o ∈ objections, ¬ o.holds := by
  induction objections with
  | nil => exact .inr fun _ impossible => absurd impossible List.not_mem_nil
  | cons o rest ih =>
    by_cases holds : o.holds
    · exact .inl ⟨o.error, .here holds⟩
    rcases ih with ⟨e, first⟩ | none
    · exact .inl ⟨e, .later holds first⟩
    · exact .inr (List.forall_mem_cons.2 ⟨holds, none⟩)

/-- The first one of two lists comes from the second only if all of the first list is settled. -/
theorem First.append_cases (first : First (objections ++ more) e) :
    First objections e ∨ (∀ o ∈ objections, ¬ o.holds) ∧ First more e := by
  induction objections with
  | nil => exact .inr ⟨fun _ impossible => absurd impossible List.not_mem_nil, first⟩
  | cons o rest ih =>
    cases first with
    | here holds => exact .inl (.here holds)
    | later settled first =>
      rcases ih first with first | ⟨none, first⟩
      · exact .inl (.later settled first)
      · exact .inr ⟨List.forall_mem_cons.2 ⟨settled, none⟩, first⟩

end Objection

namespace Action

open Objection

/-- What a program ends in that runs alone and goes on to its end. -/
def outcome {α : Type} (x : Action α) (w : World) : Except RepositoryError α :=
  (x.run.run none w).1

/-- Undisturbed, the program goes through these objections and refuses for the first one that holds. Without any it
succeeds, and its answer and the world are then as `P` says. -/
structure Judges {α : Type} (x : Action α) (w : World) (objections : List Objection) (P : α → World → Prop) : Prop where
  passes : (∀ o ∈ objections, ¬ o.holds) → x.Succeeds w P
  refuses : ∀ e, First objections e → x.Fails w e

variable {α β : Type} {w : World} {x : Action α} {f : α → Action β} {P : α → World → Prop} {Q : β → World → Prop}
  {objections more : List Objection} {holds : Prop} {e : RepositoryError}

theorem Succeeds.judges (succeeds : x.Succeeds w P) : x.Judges w [] P :=
  ⟨fun _ => succeeds, fun _ impossible => by cases impossible⟩

/-- The next objection of a program. -/
theorem judges_cons (refused : holds → x.Fails w e) (passed : ¬ holds → x.Judges w more P) :
    x.Judges w (⟨holds, e⟩ :: more) P := by
  constructor
  · intro none
    obtain ⟨settled, rest⟩ := List.forall_mem_cons.1 none
    exact (passed settled).passes rest
  · intro e' first
    cases first with
    | here holds => exact refused holds
    | later settled first => exact (passed settled).refuses e' first

/-- A check that ends the program just if the objection holds. -/
theorem judges_ite {check : Prop} [Decidable check] (same : holds ↔ check) (next : ¬ check → x.Judges w more P) :
    (if check then throw e else x).Judges w (⟨holds, e⟩ :: more) P := by
  apply judges_cons
  · intro given
    rw [if_pos (same.1 given)]
    exact fails_throw e
  · intro settled
    rw [if_neg fun given => settled (same.2 given)]
    exact next fun given => settled (same.2 given)

/-- Objections that cannot hold are not to be looked at. -/
theorem Succeeds.judges_of_clear (succeeds : x.Succeeds w P) (none : ∀ o ∈ objections, ¬ o.holds) :
    x.Judges w objections P := by
  refine ⟨fun _ => succeeds, fun e first => ?_⟩
  obtain ⟨o, mem, holds, -⟩ := first.mem
  exact absurd holds (none o mem)

theorem Judges.mono {weaker : α → World → Prop} (judges : x.Judges w objections P)
    (imp : ∀ a w', P a w' → weaker a w') : x.Judges w objections weaker :=
  ⟨fun none => (judges.passes none).mono imp, judges.refuses⟩

/-- Whoever goes on knows that nothing spoke against it. -/
theorem Judges.clear (judges : x.Judges w objections P) :
    x.Judges w objections fun a w' => P a w' ∧ ∀ o ∈ objections, ¬ o.holds :=
  ⟨fun none => (judges.passes none).mono fun _ _ good => ⟨good, none⟩, judges.refuses⟩

/-- One program after another has the objections of both. -/
theorem Judges.bind (first : x.Judges w objections P) (second : ∀ a w₁, P a w₁ → (f a).Judges w₁ more Q) :
    (x >>= f).Judges w (objections ++ more) Q := by
  constructor
  · intro none
    obtain ⟨none₁, none₂⟩ := List.forall_mem_append.1 none
    apply (first.passes none₁).bind
    exact fun a w₁ good => (second a w₁ good).passes none₂
  · intro e given
    rcases given.append_cases with early | ⟨none, late⟩
    · exact (first.refuses e early).bind
    · exact (first.passes none).fails_bind fun a w₁ good => (second a w₁ good).refuses e late

theorem Succeeds.judges_bind (first : x.Succeeds w P) (second : ∀ a w₁, P a w₁ → (f a).Judges w₁ objections Q) :
    (x >>= f).Judges w objections Q :=
  first.judges.bind second

theorem Judges.succeeds_bind (first : x.Judges w objections P) (second : ∀ a w₁, P a w₁ → (f a).Succeeds w₁ Q) :
    (x >>= f).Judges w objections Q := by
  rw [← List.append_nil objections]
  exact first.bind fun a w₁ good => (second a w₁ good).judges

theorem Judges.map {g : α → β} (judges : x.Judges w objections fun a => Q (g a)) : (g <$> x).Judges w objections Q :=
  ⟨fun none => (judges.passes none).map, fun e first => (judges.refuses e first).map⟩

theorem Judges.withLock {lock : LockName} {mode : Mode} (judges : x.Judges w objections P) :
    (withLock lock mode x).Judges w objections P :=
  ⟨fun none => (judges.passes none).withLock, fun e first => (judges.refuses e first).withLock⟩

theorem Judges.withContainers {ids : List String} (judges : x.Judges w objections P) :
    (withContainers ids x).Judges w objections P :=
  ⟨fun none => (judges.passes none).withContainers, fun e first => (judges.refuses e first).withContainers⟩

theorem judges_now_bind {f : Time.Instant → Action β} (next : ∀ time clock, (f time).Judges { w with clock } more Q) :
    (now >>= f).Judges w more Q :=
  ⟨fun none => succeeds_now_bind fun time clock => (next time clock).passes none,
    fun e first => fails_now_bind fun time clock => (next time clock).refuses e first⟩

/-! ### How it ends -/

theorem Succeeds.outcome (succeeds : x.Succeeds w P) : ∃ a, x.outcome w = .ok a := by
  obtain ⟨a, w', ended, -⟩ := succeeds
  exact ⟨a, congrArg Prod.fst ended⟩

theorem Fails.outcome (fails : x.Fails w e) : x.outcome w = .error e := by
  obtain ⟨w', ended⟩ := fails
  exact congrArg Prod.fst ended

/-- A program that judges succeeds just if nothing speaks against it. -/
theorem Judges.outcome_ok_iff (judges : x.Judges w objections P) :
    (∃ a, x.outcome w = .ok a) ↔ ∀ o ∈ objections, ¬ o.holds := by
  constructor
  · intro ended
    obtain ⟨a, ended⟩ := ended
    refine (exists_first_or_none objections).resolve_left ?_
    intro refused
    obtain ⟨e, first⟩ := refused
    rw [(judges.refuses e first).outcome] at ended
    cases ended
  · exact fun none => (judges.passes none).outcome

/-- It fails with an error just if that tells the first objection that holds. -/
theorem Judges.outcome_error_iff (judges : x.Judges w objections P) :
    x.outcome w = .error e ↔ First objections e := by
  constructor
  · intro ended
    rcases exists_first_or_none objections with ⟨e', first⟩ | none
    · rw [(judges.refuses e' first).outcome] at ended
      cases ended
      exact first
    · obtain ⟨a, passed⟩ := (judges.passes none).outcome
      rw [passed] at ended
      cases ended
  · exact fun first => (judges.refuses e first).outcome

end Action

end Containment
