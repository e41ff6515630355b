/-
Module: Containment.Proofs.Concurrency.Gate
Purpose: What a lock guarantees its users. Nobody is let in beside a task that has the lock alone, no task is put
  out by what others do, and a task has no claims but its own.
Main exports: Stance, Gate.Respects, Gate.Alone, Gate.request_respects, Gate.leave_respects, Gate.Spares
-/
import Containment.Lock.Table
import Mathlib.Data.List.Basic

namespace Containment

/-- Where a task stands with a lock: outside, with a claim that may have been granted by now, or inside. -/
inductive Stance where
  | outside
  | claiming (mode : Mode)
  | inside (mode : Mode)

namespace Gate

/-- All claims, the granted ones first. -/
def claims (gate : Gate) : List Claim :=
  gate.granted ++ gate.waiting

/-- The claims of a task fit where it stands. -/
def Respects (gate : Gate) (task : Nat) : Stance → Prop
  | .outside => ∀ c ∈ gate.claims, c.holder ≠ task
  | .claiming mode => ∀ c ∈ gate.claims, c.holder = task → c.mode = mode
  | .inside mode => { holder := task, mode } ∈ gate.granted

/-- An exclusive claim is the only one in a list. -/
def Alone (granted : List Claim) : Prop :=
  ∀ c ∈ granted, c.mode = .exclusive → granted = [c]

theorem Alone.append {granted : List Claim} {claim : Claim} (fits : compatible granted claim.mode = true) :
    Alone (granted ++ [claim]) := by
  intro c mem exclusive
  cases mode : claim.mode with
  | exclusive =>
    rw [mode] at fits
    have empty : granted = [] := List.isEmpty_iff.1 fits
    subst empty
    rw [List.nil_append, List.mem_singleton] at mem
    rw [mem]
    rfl
  | shared =>
    rw [mode] at fits
    rcases List.mem_append.1 mem with old | new
    · have shared : c.mode = .shared := by simpa using List.all_eq_true.1 fits c old
      rw [exclusive] at shared
      cases shared
    · rw [List.mem_singleton.1 new, mode] at exclusive
      cases exclusive

theorem Alone.filter {granted : List Claim} (alone : Alone granted) (keep : Claim → Bool) :
    Alone (granted.filter keep) := by
  intro c mem exclusive
  have single := alone c (List.mem_filter.1 mem).1 exclusive
  rw [single] at mem ⊢
  rw [List.filter_cons_of_pos (List.mem_filter.1 mem).2]
  rfl

/-- Letting in from the front makes no claim and loses none. -/
theorem letIn_spec (granted waiting : List Claim) :
    (letIn granted waiting).2.claims = granted ++ waiting ∧ granted ⊆ (letIn granted waiting).2.granted ∧
      (Alone granted → Alone (letIn granted waiting).2.granted) := by
  induction waiting generalizing granted with
  | nil => exact ⟨rfl, List.Subset.refl granted, id⟩
  | cons claim rest ih =>
    rw [letIn]
    by_cases fits : compatible granted claim.mode = true
    · rw [if_pos fits]
      obtain ⟨same, kept, alone⟩ := ih (granted ++ [claim])
      refine ⟨?_, ?_, fun _ => alone (Alone.append fits)⟩
      · exact same.trans (by rw [List.append_assoc]; rfl)
      · exact fun c mem => kept (List.mem_append_left _ mem)
    · rw [if_neg fits]
      exact ⟨rfl, List.Subset.refl granted, id⟩

variable {gate : Gate}

/-! ### Making a claim -/

theorem request_spec (claim : Claim) :
    (∀ c, c ∈ (gate.request claim).2.claims ↔ c ∈ gate.claims ∨ c = claim) ∧
      gate.granted ⊆ (gate.request claim).2.granted ∧
      (Alone gate.granted → Alone (gate.request claim).2.granted) ∧
      ((gate.request claim).1 = true → claim ∈ (gate.request claim).2.granted) := by
  simp only [request]
  by_cases free : (gate.waiting.isEmpty && compatible gate.granted claim.mode) = true
  · rw [if_pos free]
    obtain ⟨nobody, fits⟩ := Bool.and_eq_true_iff.1 free
    refine ⟨?_, ?_, fun _ => Alone.append fits, fun _ => List.mem_append_right _ List.mem_cons_self⟩
    · intro c
      simp [claims, List.isEmpty_iff.1 nobody]
    · exact fun c mem => List.mem_append_left _ mem
  · rw [if_neg free]
    refine ⟨?_, List.Subset.refl gate.granted, id, fun impossible => by cases impossible⟩
    intro c
    simp [claims, or_assoc]

/-- Where others stand does not change. -/
theorem Respects.request {task : Nat} {stance : Stance} (respects : gate.Respects task stance) {claim : Claim}
    (other : claim.holder ≠ task) : (gate.request claim).2.Respects task stance := by
  obtain ⟨mem, kept, -, -⟩ := gate.request_spec claim
  cases stance with
  | outside =>
    intro c there
    rcases (mem c).1 there with old | rfl
    · exact respects c old
    · exact other
  | claiming mode =>
    intro c there own
    rcases (mem c).1 there with old | rfl
    · exact respects c old own
    · exact absurd own other
  | inside mode => exact kept respects

/-- A task that stood outside has a claim now, and is inside if the claim was granted. -/
theorem request_respects {task : Nat} (respects : gate.Respects task .outside) (mode : Mode) :
    (gate.request { holder := task, mode }).2.Respects task (.claiming mode) ∧
      ((gate.request { holder := task, mode }).1 = true →
        (gate.request { holder := task, mode }).2.Respects task (.inside mode)) := by
  obtain ⟨mem, -, -, granted⟩ := gate.request_spec { holder := task, mode }
  refine ⟨?_, granted⟩
  intro c there own
  rcases (mem c).1 there with old | rfl
  · exact absurd own (respects c old)
  · rfl

/-! ### Giving a claim up -/

theorem leave_spec (holder : Nat) :
    (∀ c, c ∈ (gate.leave holder).2.claims ↔ c ∈ gate.claims ∧ c.holder ≠ holder) ∧
      (∀ c ∈ gate.granted, c.holder ≠ holder → c ∈ (gate.leave holder).2.granted) ∧
      (Alone gate.granted → Alone (gate.leave holder).2.granted) := by
  obtain ⟨same, kept, alone⟩ :=
    letIn_spec (gate.granted.filter (·.holder ≠ holder)) (gate.waiting.filter (·.holder ≠ holder))
  refine ⟨?_, ?_, fun before => alone (before.filter _)⟩
  · intro c
    simp only [leave]
    rw [same, ← List.filter_append, List.mem_filter, decide_eq_true_eq]
    rfl
  · intro c mem other
    exact kept (List.mem_filter.2 ⟨mem, by simpa using other⟩)

/-- Where others stand does not change. -/
theorem Respects.leave {task holder : Nat} {stance : Stance} (respects : gate.Respects task stance)
    (other : holder ≠ task) : (gate.leave holder).2.Respects task stance := by
  obtain ⟨mem, kept, -⟩ := gate.leave_spec holder
  cases stance with
  | outside => exact fun c there => respects c ((mem c).1 there).1
  | claiming mode => exact fun c there => respects c ((mem c).1 there).1
  | inside mode => exact kept _ respects (Ne.symm other)

theorem leave_respects (task : Nat) : (gate.leave task).2.Respects task .outside :=
  fun c there => ((gate.leave_spec task).1 c).1 there |>.2

/-! ### What others notice -/

/-- Whatever a task did with a lock, at most one task is inside alone, and others stand where they stood. -/
structure Spares (task : Nat) (gate gate' : Gate) : Prop where
  alone : Alone gate.granted → Alone gate'.granted
  others : ∀ other stance, other ≠ task → gate.Respects other stance → gate'.Respects other stance

theorem spares_refl (task : Nat) (gate : Gate) : Spares task gate gate :=
  ⟨id, fun _ _ _ respects => respects⟩

theorem Spares.trans {task : Nat} {gate₁ gate' : Gate} (first : Spares task gate gate₁)
    (second : Spares task gate₁ gate') : Spares task gate gate' := by
  refine ⟨second.alone ∘ first.alone, ?_⟩
  intro other stance ne respects
  exact second.others other stance ne (first.others other stance ne respects)

theorem spares_request (task : Nat) (mode : Mode) :
    Spares task gate (gate.request { holder := task, mode }).2 := by
  refine ⟨(gate.request_spec _).2.2.1, ?_⟩
  intro other stance ne respects
  exact respects.request (Ne.symm ne)

theorem spares_leave (task : Nat) : Spares task gate (gate.leave task).2 := by
  refine ⟨(gate.leave_spec task).2.2, ?_⟩
  intro other stance ne respects
  exact respects.leave (Ne.symm ne)

/-! ### Who is inside -/

/-- A task with a claim that finds itself let in is inside as it wished. -/
theorem Respects.enter {task : Nat} {mode : Mode} (respects : gate.Respects task (.claiming mode))
    (held : gate.isHeldBy task = true) : gate.Respects task (.inside mode) := by
  obtain ⟨c, mem, own⟩ := List.any_eq_true.1 held
  have named : c.holder = task := by simpa using own
  have wished := respects c (List.mem_append_left _ mem) named
  have same : c = { holder := task, mode } := by
    cases c
    cases named
    cases wished
    rfl
  rw [same] at mem
  exact mem

/-- Two tasks are never inside together if one of them is inside alone. -/
theorem Alone.excludes (alone : Alone gate.granted) {task other : Nat} {mode : Mode}
    (inside : gate.Respects task (.inside .exclusive)) (ne : other ≠ task) :
    ¬ gate.Respects other (.inside mode) := by
  intro beside
  have single := alone _ inside rfl
  have there : { holder := other, mode } ∈ gate.granted := beside
  rw [single, List.mem_singleton] at there
  exact ne (congrArg Claim.holder there)

end Gate

end Containment
