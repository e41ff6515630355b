/-
Module: Containment.Proofs.Concurrency.Serial
Purpose: Endings of calls in their order. If every call had its whole effect on what the one before had left, a
  record comes down to us through all the calls that changed it, and its revision counts them.
Main exports: Ending, Ending.changes, Serial, Lineage, Serial.lineage, Lineage.revision
-/
import Containment.Proofs.Concurrency.Calls

namespace Containment

/-- How a task ended, and the store before and after the turn in which it did. -/
structure Ending where
  task : Nat
  outcome : Outcome
  before : Store
  after : Store

/-- Whether a call succeeded and changed the record of an identifier. -/
def Ending.changes (x : String) (e : Ending) : Bool :=
  match e.outcome, e.before.read x, e.after.read x with
  | .ok _, .ok (some r), .ok (some r') => r ≠ r'
  | _, _, _ => false

/-- The calls of tasks ended one after the other, starting from an empty store. Each had its whole effect on the
store that the one before had left, or no effect at all. -/
inductive Serial (settings : Settings) (calls : Nat → Option Call) : List Ending → MemoryStore → Prop
  | start : Serial settings calls [] {}
  | next {log : List Ending} {S S' : MemoryStore} {task : Nat} {call : Call} {outcome : Outcome} :
      Serial settings calls log S → calls task = some call → call.Delivers settings S outcome S' →
        Serial settings calls (log ++ [{ task, outcome, before := .memory S, after := .memory S' }]) S'

/-- The record of an identifier came about by these calls: made once, each change was applied to the record that
the one before had left. -/
inductive Lineage (x : String) : List Ending → Record → Prop
  | made (c : Container) : Lineage x [] (.first c)
  | changed {log : List Ending} {e : Ending} {r : Record} {c : Container} : Lineage x log r →
      e.before.read x = .ok (some r) → e.after.read x = .ok (some (r.next c)) → Lineage x (log ++ [e]) (r.next c)

theorem Lineage.revision {x : String} {log : List Ending} {r : Record} (lineage : Lineage x log r) :
    r.revision = 1 + log.length := by
  induction lineage with
  | made c => rfl
  | @changed log e r c _ _ _ ih =>
    change r.revision + 1 = 1 + (log ++ [e]).length
    rw [ih, List.length_append, List.length_singleton, Nat.add_assoc]

/-! ### Single endings -/

namespace Call.Delivers

variable {settings : Settings} {call : Call} {outcome : Outcome} {S S' : MemoryStore}

theorem sane (delivers : call.Delivers settings S outcome S') (before : S.contents.Sane) : S'.contents.Sane := by
  cases outcome with
  | ok reply =>
    obtain ⟨events, effects⟩ := delivers
    exact effects.sane before
  | error e =>
    rw [delivers.1]
    exact before

theorem harmless {e : RepositoryError} (delivers : call.Delivers settings S (.error e) S') : ¬ e.IsWriteFault :=
  delivers.2

end Call.Delivers

theorem Store.read_memory (S : MemoryStore) (x : String) : (Store.memory S).read x = .ok S.records[x]? :=
  rfl

/-- What a successful ending changes, by the records before and after. -/
theorem Ending.changes_iff {task : Nat} {reply : Reply} {S S' : MemoryStore} {x : String} :
    ({ task, outcome := .ok reply, before := .memory S, after := .memory S' } : Ending).changes x = true ↔
      ∃ r r', S.records[x]? = some r ∧ S'.records[x]? = some r' ∧ r ≠ r' := by
  simp only [Ending.changes]
  simp only [Store.read_memory]
  cases S.records[x]? with
  | none => simp
  | some r =>
    cases S'.records[x]? with
    | none => simp
    | some r' => simp

/-- An ending that leaves a record as it was does not count. -/
theorem Ending.filter_unchanged {task : Nat} {reply : Reply} {S S' : MemoryStore} {x : String}
    (same : ∀ r r', S.records[x]? = some r → S'.records[x]? = some r' → r' = r) :
    List.filter (fun e => e.changes x)
      [({ task, outcome := .ok reply, before := .memory S, after := .memory S' } : Ending)] = [] := by
  rw [List.filter_cons_of_neg, List.filter_nil]
  rw [Ending.changes_iff]
  intro given
  rcases given with ⟨r, r', found, after, ne⟩
  exact ne (same r r' found after).symm

/-! ### The records behind a log -/

namespace Serial

variable {settings : Settings} {calls : Nat → Option Call} {log : List Ending} {S : MemoryStore}

theorem sane (serial : Serial settings calls log S) : S.contents.Sane := by
  induction serial with
  | start => exact MemoryStore.sane_empty
  | next _ _ delivers before => exact delivers.sane before

/-- More tasks make no difference. -/
theorem extend {more : Nat → Option Call} (serial : Serial settings calls log S)
    (kept : ∀ task call, calls task = some call → more task = some call) : Serial settings more log S := by
  induction serial with
  | start => exact .start
  | next _ known delivers before => exact .next before (kept _ _ known) delivers

/-- What has ended once one more task has. -/
theorem ended_next {entry : Ending} {id : Nat} {outcome : Outcome} :
    (∃ e ∈ log ++ [entry], e.task = id ∧ e.outcome = outcome) ↔
      (∃ e ∈ log, e.task = id ∧ e.outcome = outcome) ∨ (entry.task = id ∧ entry.outcome = outcome) := by
  simp [or_and_right, exists_or]

theorem harmless (serial : Serial settings calls log S) :
    ∀ entry ∈ log, ∀ e, entry.outcome = .error e → ¬ e.IsWriteFault := by
  induction serial with
  | start => exact fun _ mem => absurd mem List.not_mem_nil
  | next _ _ delivers before =>
    intro entry mem e failed
    rcases List.mem_append.1 mem with old | new
    · exact before entry old e failed
    · rw [List.mem_singleton.1 new] at failed
      subst failed
      exact delivers.harmless

/-- Every stored record came about by the calls that changed it, and an identifier never used has none. -/
theorem lineage (serial : Serial settings calls log S) (x : String) :
    (∀ r, S.records[x]? = some r → Lineage x (log.filter fun e => e.changes x) r) ∧
      (S.records[x]? = none → S.retired.contains x = false → (log.filter fun e => e.changes x) = []) := by
  induction serial with
  | start =>
    refine ⟨fun r impossible => ?_, fun _ _ => rfl⟩
    have nothing : ({} : MemoryStore).records[x]? = none := Std.ExtTreeMap.getElem?_empty
    rw [nothing] at impossible
    cases impossible
  | @next log S S' task call outcome earlier known delivers before =>
    obtain ⟨stored, unused⟩ := before
    rw [List.filter_append]
    cases outcome with
    | error e =>
      obtain ⟨rfl, -⟩ := delivers
      rw [List.filter_cons_of_neg (by exact Bool.false_ne_true), List.filter_nil, List.append_nil]
      exact ⟨stored, unused⟩
    | ok reply =>
      obtain ⟨events, effects⟩ := delivers
      cases effects.evolves earlier.sane x with
      | same same retired =>
        rw [Ending.filter_unchanged, List.append_nil, same, retired]
        · exact ⟨stored, unused⟩
        · intro r r' found after
          rw [same, found] at after
          exact (Option.some.inj after).symm
      | @next r c found after =>
        have differs : r ≠ r.next c := fun same => by
          have stuck := congrArg Record.revision same
          exact absurd stuck (Nat.ne_of_lt (Nat.lt_succ_self _))
        rw [List.filter_cons_of_pos (Ending.changes_iff.2 ⟨r, r.next c, found, after, differs⟩)]
        rw [List.filter_nil, after]
        refine ⟨?_, fun impossible => absurd impossible (Option.some_ne_none _)⟩
        intro _ given
        rcases given with ⟨rfl⟩
        exact .changed (stored r found) (by rw [Store.read_memory, found]) (by rw [Store.read_memory, after])
      | @first c absent fresh after =>
        rw [Ending.filter_unchanged, List.append_nil, after, unused absent fresh]
        · refine ⟨?_, fun impossible => absurd impossible (Option.some_ne_none _)⟩
          intro _ given
          rcases given with ⟨rfl⟩
          exact .made c
        · intro r r' found
          rw [absent] at found
          cases found
      | gone absent retired =>
        rw [absent, retired]
        constructor
        · intro r given
          cases given
        · intro _ given
          cases given

end Serial

end Containment
