/-
Module: Containment.Proofs.Concurrency.Usage
Purpose: All ways of using locks: users claim what they do not have, go in once they are granted, give up, and give
  back, in any order. What a lock shows is then just what its users have of it and ask for, and the table of
  containers has no entry for a lock that nobody uses.
Main exports: Locks.gate, Gate.Serves, LockTable.Tidy, Locks.Serves, Locks.Used, Locks.Used.serves
-/
import Containment.Proofs.Concurrency.Gate
import Mathlib.Data.Finset.Basic
import Mathlib.Logic.Function.Basic

namespace Containment

/-! ### One lock -/

namespace Gate

/-- The lock shows what its users have of it and ask for: one who has it is granted, one who asks for it has one claim
on it, granted or not, and nobody else has a claim. -/
structure Serves (gate : Gate) (has asks : Nat → Prop) : Prop where
  alone : Alone gate.granted
  distinct : (gate.claims.map Claim.holder).Nodup
  granted : ∀ c ∈ gate.granted, has c.holder ∨ asks c.holder
  waiting : ∀ c ∈ gate.waiting, asks c.holder
  held : ∀ user, has user → gate.isHeldBy user = true
  asked : ∀ user, asks user → ∃ c ∈ gate.claims, c.holder = user

variable {gate : Gate} {has asks : Nat → Prop} {user : Nat}

theorem isHeldBy_iff : gate.isHeldBy user = true ↔ ∃ c ∈ gate.granted, c.holder = user := by
  simp [isHeldBy]

theorem Serves.congr {has' asks' : Nat → Prop} (serves : gate.Serves has asks) (had : ∀ o, has' o ↔ has o)
    (asked : ∀ o, asks' o ↔ asks o) : gate.Serves has' asks' := by
  obtain rfl : has' = has := funext fun o => propext (had o)
  obtain rfl : asks' = asks := funext fun o => propext (asked o)
  exact serves

theorem serves_nobody : ({} : Gate).Serves (fun _ => False) fun _ => False := by
  refine ⟨?_, List.nodup_nil, ?_, ?_, fun _ impossible => impossible.elim, fun _ impossible => impossible.elim⟩
  · exact fun c mem => absurd mem List.not_mem_nil
  · exact fun c mem => absurd mem List.not_mem_nil
  · exact fun c mem => absurd mem List.not_mem_nil

/-- A user with a claim has the lock or asks for it. -/
theorem Serves.uses (serves : gate.Serves has asks) {c : Claim} (mem : c ∈ gate.claims) :
    has c.holder ∨ asks c.holder := by
  rcases List.mem_append.1 mem with granted | waiting
  · exact serves.granted c granted
  · exact .inr (serves.waiting c waiting)

/-- A new claim is queued behind all others. -/
theorem claims_request (claim : Claim) : (gate.request claim).2.claims = gate.claims ++ [claim] := by
  simp only [request]
  by_cases free : (gate.waiting.isEmpty && compatible gate.granted claim.mode) = true
  · rw [if_pos free]
    simp [claims, List.isEmpty_iff.1 (Bool.and_eq_true_iff.1 free).1]
  · rw [if_neg free]
    simp [claims]

theorem Serves.request (serves : gate.Serves has asks) (mode : Mode) (outside : ¬ has user) (idle : ¬ asks user) :
    (gate.request { holder := user, mode }).2.Serves has fun o => asks o ∨ o = user := by
  obtain ⟨mem, kept, alone, -⟩ := gate.request_spec { holder := user, mode }
  have fresh : user ∉ gate.claims.map Claim.holder := by
    intro old
    obtain ⟨c, there, own⟩ := List.mem_map.1 old
    rw [← own] at outside idle
    exact (serves.uses there).elim outside idle
  have uses : ∀ c ∈ (gate.request { holder := user, mode }).2.claims,
      has c.holder ∨ asks c.holder ∨ c.holder = user := by
    intro c there
    rcases (mem c).1 there with old | rfl
    · exact (serves.uses old).imp_right .inl
    · exact .inr (.inr rfl)
  constructor
  case alone => exact alone serves.alone
  case distinct =>
    rw [claims_request, List.map_append, List.nodup_append]
    refine ⟨serves.distinct, List.nodup_singleton _, ?_⟩
    rintro a old b new rfl
    rw [List.mem_singleton.1 new] at old
    exact fresh old
  case granted => exact fun c there => uses c (List.mem_append_left _ there)
  case waiting =>
    intro c there
    simp only [Gate.request] at there
    by_cases free : (gate.waiting.isEmpty && compatible gate.granted mode) = true
    · rw [if_pos free] at there
      exact .inl (serves.waiting c there)
    · rw [if_neg free] at there
      rcases List.mem_append.1 there with old | new
      · exact .inl (serves.waiting c old)
      · rw [List.mem_singleton.1 new]
        exact .inr rfl
  case held =>
    intro o had
    obtain ⟨c, there, own⟩ := isHeldBy_iff.1 (serves.held o had)
    exact isHeldBy_iff.2 ⟨c, kept there, own⟩
  case asked =>
    intro o asked
    rcases asked with old | rfl
    · obtain ⟨c, there, own⟩ := serves.asked o old
      exact ⟨c, (mem c).2 (.inl there), own⟩
    · exact ⟨_, (mem _).2 (.inr rfl), rfl⟩

/-- One whose claim is granted is not waiting. -/
theorem Serves.notMem_waiting (serves : gate.Serves has asks) (granted : gate.isHeldBy user = true) :
    ∀ c ∈ gate.waiting, c.holder ≠ user := by
  obtain ⟨first, mem, own⟩ := isHeldBy_iff.1 granted
  have distinct := serves.distinct
  rw [claims, List.map_append, List.nodup_append] at distinct
  intro c there same
  exact distinct.2.2 _ (List.mem_map_of_mem mem) _ (List.mem_map_of_mem there) (own.trans same.symm)

theorem Serves.enter (serves : gate.Serves has asks) (granted : gate.isHeldBy user = true) :
    gate.Serves (fun o => has o ∨ o = user) fun o => asks o ∧ o ≠ user := by
  constructor
  case alone => exact serves.alone
  case distinct => exact serves.distinct
  case asked => exact fun o asked => serves.asked o asked.1
  case granted =>
    intro c mem
    by_cases own : c.holder = user
    · exact .inl (.inr own)
    · exact (serves.granted c mem).imp .inl fun asks => ⟨asks, own⟩
  case waiting => exact fun c mem => ⟨serves.waiting c mem, serves.notMem_waiting granted c mem⟩
  case held =>
    rintro o (had | rfl)
    · exact serves.held o had
    · exact granted

/-- Letting in from the front takes claims from the front of the queue. -/
theorem letIn_waiting (granted waiting : List Claim) : (letIn granted waiting).2.waiting <:+ waiting := by
  induction waiting generalizing granted with
  | nil => exact List.suffix_refl []
  | cons claim rest ih =>
    rw [letIn]
    by_cases fits : compatible granted claim.mode = true
    · rw [if_pos fits]
      exact (ih _).trans (List.suffix_cons claim rest)
    · rw [if_neg fits]

theorem claims_leave (holder : Nat) : (gate.leave holder).2.claims = gate.claims.filter (·.holder ≠ holder) := by
  simp only [leave]
  rw [(letIn_spec _ _).1, claims, List.filter_append]

theorem Serves.leave (serves : gate.Serves has asks) (user : Nat) :
    (gate.leave user).2.Serves (fun o => has o ∧ o ≠ user) fun o => asks o ∧ o ≠ user := by
  obtain ⟨mem, kept, alone⟩ := gate.leave_spec user
  have queued : ∀ c ∈ (gate.leave user).2.waiting, c ∈ gate.waiting := by
    intro c there
    exact (List.mem_filter.1 ((letIn_waiting _ _).subset there)).1
  constructor
  case alone => exact alone serves.alone
  case distinct =>
    rw [claims_leave]
    exact (List.filter_sublist.map Claim.holder).nodup serves.distinct
  case granted =>
    intro c there
    obtain ⟨old, other⟩ := (mem c).1 (List.mem_append_left _ there)
    exact (serves.uses old).imp (fun has => ⟨has, other⟩) fun asks => ⟨asks, other⟩
  case waiting =>
    intro c there
    exact ⟨serves.waiting c (queued c there), ((mem c).1 (List.mem_append_right _ there)).2⟩
  case held =>
    rintro o ⟨had, other⟩
    obtain ⟨c, there, own⟩ := isHeldBy_iff.1 (serves.held o had)
    exact isHeldBy_iff.2 ⟨c, kept c there (own ▸ other), own⟩
  case asked =>
    rintro o ⟨asked, other⟩
    obtain ⟨c, there, own⟩ := serves.asked o asked
    exact ⟨c, (mem c).2 ⟨there, own ▸ other⟩, own⟩

theorem isIdle_iff : gate.isIdle = true ↔ gate = {} := by
  obtain ⟨granted, waiting⟩ := gate
  simp [isIdle]

/-- A lock that somebody uses is not idle. -/
theorem Serves.not_isIdle (serves : gate.Serves has asks) (uses : has user ∨ asks user) : gate.isIdle = false := by
  have some : ∃ c, c ∈ gate.claims := by
    rcases uses with had | asked
    · obtain ⟨c, mem, -⟩ := isHeldBy_iff.1 (serves.held user had)
      exact ⟨c, List.mem_append_left _ mem⟩
    · obtain ⟨c, mem, -⟩ := serves.asked user asked
      exact ⟨c, mem⟩
  obtain ⟨c, mem⟩ := some
  cases idle : gate.isIdle with
  | false => rfl
  | true =>
    rw [isIdle_iff.1 idle] at mem
    exact absurd mem List.not_mem_nil

/-- Somebody uses a lock that is not idle. -/
theorem Serves.used (serves : gate.Serves has asks) (busy : gate.isIdle = false) : ∃ user, has user ∨ asks user := by
  have some : ∃ c, c ∈ gate.claims := by
    apply List.exists_mem_of_ne_nil
    intro none
    obtain ⟨granted, waiting⟩ := List.append_eq_nil_iff.1 none
    rw [isIdle, granted, waiting] at busy
    cases busy
  obtain ⟨c, mem⟩ := some
  exact ⟨c.holder, serves.uses mem⟩

end Gate

/-! ### The table of containers -/

namespace LockTable

variable {table : LockTable}

/-- The table has no entry for an idle lock. -/
def Tidy (table : LockTable) : Prop :=
  ∀ (key : String) (gate : Gate), table.gates[key]? = some gate → gate.isIdle = false

/-- What a tidy table shows of a lock. -/
theorem Tidy.getElem? (tidy : table.Tidy) (key : String) :
    table.gates[key]? = if (table.gate key).isIdle then none else some (table.gate key) := by
  cases found : table.gates[key]? with
  | none => simp [gate, found, Gate.isIdle]
  | some gate => simp [LockTable.gate, found, tidy key gate found]

theorem gate_insert (key other : String) (gate : Gate) :
    LockTable.gate { gates := table.gates.insert key gate } other = if other = key then gate else table.gate other := by
  simp only [LockTable.gate, Std.ExtTreeMap.getElem?_insert, Std.LawfulEqCmp.compare_eq_iff_eq, eq_comm (a := key)]
  split <;> rfl

theorem gate_reclaim (key other : String) : (table.reclaim key).gate other = table.gate other := by
  unfold reclaim
  split
  · rename_i idle
    simp only [LockTable.gate, Std.ExtTreeMap.getElem?_erase, Std.LawfulEqCmp.compare_eq_iff_eq]
    split
    · rename_i same
      subst same
      exact (Gate.isIdle_iff.1 idle).symm
    · rfl
  · rfl

/-- Entries that may be idle are dropped on this occasion. -/
theorem tidy_reclaim {key : String}
    (rest : ∀ (other : String) (gate : Gate), other ≠ key → table.gates[other]? = some gate → gate.isIdle = false) :
    (table.reclaim key).Tidy := by
  intro other gate found
  unfold reclaim at found
  split at found
  · simp only [Std.ExtTreeMap.getElem?_erase, Std.LawfulEqCmp.compare_eq_iff_eq] at found
    split at found
    · cases found
    · rename_i ne
      exact rest other gate (Ne.symm ne) found
  · rename_i busy
    by_cases same : other = key
    · rw [same] at found
      simpa [LockTable.gate, found] using busy
    · exact rest other gate same found

end LockTable

/-! ### All locks -/

namespace Locks

variable {locks : Locks}

/-- A lock by its name. -/
def gate (locks : Locks) : LockName → Gate
  | .hierarchy => locks.hierarchy
  | .container key => locks.containers.gate key

theorem isHeldBy_eq (lock : LockName) (user : Nat) : locks.isHeldBy lock user = (locks.gate lock).isHeldBy user := by
  cases lock <;> rfl

theorem gate_request (lock other : LockName) (claim : Claim) :
    (locks.request lock claim).2.gate other =
      if other = lock then ((locks.gate lock).request claim).2 else locks.gate other := by
  cases lock with
  | hierarchy => cases other <;> rfl
  | container key =>
    cases other with
    | hierarchy => rfl
    | container id =>
      simp only [LockName.container.injEq]
      exact LockTable.gate_insert key id _

theorem gate_leave (lock other : LockName) (user : Nat) :
    (locks.leave lock user).2.gate other =
      if other = lock then ((locks.gate lock).leave user).2 else locks.gate other := by
  cases lock with
  | hierarchy => cases other <;> rfl
  | container key =>
    cases other with
    | hierarchy => rfl
    | container id =>
      simp only [LockName.container.injEq]
      exact (LockTable.gate_reclaim key id).trans (LockTable.gate_insert key id _)

theorem gate_reclaim (lock other : LockName) : (locks.reclaim lock).gate other = locks.gate other := by
  cases lock with
  | hierarchy => rfl
  | container key =>
    cases other with
    | hierarchy => rfl
    | container id => exact LockTable.gate_reclaim key id

/-- The locks show what their users have and ask for, and the table of containers has no needless entries. -/
structure Serves (locks : Locks) (held : Nat → Finset LockName) (asked : Nat → Option LockName) : Prop where
  gates : ∀ lock, (locks.gate lock).Serves (lock ∈ held ·) (asked · = some lock)
  tidy : locks.containers.Tidy

open Function (update)

/-- The locks after any sequence of uses. A user asks for one lock at a time, and not for one that it has. -/
inductive Used : Locks → (Nat → Finset LockName) → (Nat → Option LockName) → Prop
  | start : Used {} (fun _ => ∅) fun _ => none
  | claim {locks : Locks} {held : Nat → Finset LockName} {asked : Nat → Option LockName} {user : Nat}
      {lock : LockName} (mode : Mode) : Used locks held asked → asked user = none → lock ∉ held user →
      Used (locks.request lock { holder := user, mode }).2 held (update asked user (some lock))
  | enter {locks : Locks} {held : Nat → Finset LockName} {asked : Nat → Option LockName} {user : Nat}
      {lock : LockName} : Used locks held asked → asked user = some lock → locks.isHeldBy lock user = true →
      Used locks (update held user (insert lock (held user))) (update asked user none)
  | giveUp {locks : Locks} {held : Nat → Finset LockName} {asked : Nat → Option LockName} {user : Nat}
      {lock : LockName} : Used locks held asked → asked user = some lock → lock ∉ held user →
      Used (locks.leave lock user).2 held (update asked user none)
  | giveBack {locks : Locks} {held : Nat → Finset LockName} {asked : Nat → Option LockName} {user : Nat}
      {lock : LockName} : Used locks held asked → asked user = none → lock ∈ held user →
      Used (locks.leave lock user).2 (update held user ((held user).erase lock)) asked
  | reclaim {locks : Locks} {held : Nat → Finset LockName} {asked : Nat → Option LockName} (lock : LockName) :
      Used locks held asked → Used (locks.reclaim lock) held asked

variable {held : Nat → Finset LockName} {asked : Nat → Option LockName} {user : Nat} {lock : LockName}

theorem serves_start : ({} : Locks).Serves (fun _ => ∅) fun _ => none := by
  refine ⟨fun lock => ?_, fun key gate found => ?_⟩
  · have empty : ({} : Locks).gate lock = {} := by cases lock <;> rfl
    rw [empty]
    exact Gate.serves_nobody.congr (fun o => by simp) fun o => by simp
  · simp at found

theorem Serves.claim (serves : locks.Serves held asked) (mode : Mode) (idle : asked user = none)
    (outside : lock ∉ held user) :
    (locks.request lock { holder := user, mode }).2.Serves held (update asked user (some lock)) := by
  refine ⟨fun other => ?_, ?_⟩
  · rw [gate_request]
    by_cases same : other = lock
    · subst same
      rw [if_pos rfl]
      apply ((serves.gates other).request mode outside (by simp [idle])).congr fun o => Iff.rfl
      intro o
      by_cases own : o = user <;> simp [own]
    · rw [if_neg same]
      apply (serves.gates other).congr fun o => Iff.rfl
      intro o
      by_cases own : o = user <;> simp [own, idle, Ne.symm same]
  · cases lock with
    | hierarchy => exact serves.tidy
    | container key =>
      intro id gate found
      have busy : ((locks.gate (.container key)).request { holder := user, mode }).2.isIdle = false := by
        apply ((serves.gates (.container key)).request mode outside (by simp [idle])).not_isIdle
        exact .inr (.inr rfl)
      change (locks.containers.gates.insert key _)[id]? = some gate at found
      rw [Std.ExtTreeMap.getElem?_insert] at found
      split at found
      · cases found
        exact busy
      · exact serves.tidy id gate found

theorem Serves.enter (serves : locks.Serves held asked) (asks : asked user = some lock)
    (granted : locks.isHeldBy lock user = true) :
    locks.Serves (update held user (insert lock (held user))) (update asked user none) := by
  refine ⟨fun other => ?_, serves.tidy⟩
  rw [isHeldBy_eq] at granted
  by_cases same : other = lock
  · subst same
    apply ((serves.gates other).enter granted).congr
    · intro o
      by_cases own : o = user <;> simp [own]
    · intro o
      by_cases own : o = user <;> simp [own]
  · apply (serves.gates other).congr
    · intro o
      by_cases own : o = user <;> simp [own, same]
    · intro o
      by_cases own : o = user <;> simp [own, asks, Ne.symm same]

/-- Users have and ask for what they did before, but for one of them who has left one lock. -/
structure Left (user : Nat) (lock : LockName) (held held' : Nat → Finset LockName)
    (asked asked' : Nat → Option LockName) : Prop where
  held : ∀ o l, l ∈ held' o ↔ l ∈ held o ∧ ¬ (o = user ∧ l = lock)
  asked : ∀ o l, asked' o = some l ↔ asked o = some l ∧ ¬ (o = user ∧ l = lock)

theorem left_of_giveUp (asks : asked user = some lock) (outside : lock ∉ held user) :
    Left user lock held held asked (update asked user none) := by
  refine ⟨fun o l => ⟨fun mem => ⟨mem, ?_⟩, And.left⟩, fun o l => ?_⟩
  · rintro ⟨rfl, rfl⟩
    exact outside mem
  · by_cases own : o = user
    · subst own
      simp [asks, eq_comm]
    · simp [own]

theorem left_of_giveBack (idle : asked user = none) :
    Left user lock held (update held user ((held user).erase lock)) asked asked := by
  refine ⟨fun o l => ?_, fun o l => ⟨fun same => ⟨same, ?_⟩, And.left⟩⟩
  · by_cases own : o = user
    · subst own
      simp [and_comm]
    · simp [own]
  · rintro ⟨rfl, rfl⟩
    rw [idle] at same
    cases same

/-- Leaving a lock, be it from the queue or from within. -/
theorem Serves.leave {held' : Nat → Finset LockName} {asked' : Nat → Option LockName}
    (serves : locks.Serves held asked) (left : Left user lock held held' asked asked') :
    (locks.leave lock user).2.Serves held' asked' := by
  refine ⟨fun other => ?_, ?_⟩
  · rw [gate_leave]
    by_cases same : other = lock
    · subst same
      rw [if_pos rfl]
      apply ((serves.gates other).leave user).congr
      · exact fun o => by simp [left.held]
      · exact fun o => by simp [left.asked]
    · rw [if_neg same]
      apply (serves.gates other).congr
      · exact fun o => by simp [left.held, same]
      · exact fun o => by simp [left.asked, same]
  · cases lock with
    | hierarchy => exact serves.tidy
    | container key =>
      apply LockTable.tidy_reclaim
      intro id gate ne found
      change (locks.containers.gates.insert key _)[id]? = some gate at found
      rw [Std.ExtTreeMap.getElem?_insert, if_neg] at found
      · exact serves.tidy id gate found
      · rw [Std.LawfulEqCmp.compare_eq_iff_eq]
        exact Ne.symm ne

theorem Serves.reclaim (serves : locks.Serves held asked) (lock : LockName) :
    (locks.reclaim lock).Serves held asked := by
  refine ⟨fun other => ?_, ?_⟩
  · rw [gate_reclaim]
    exact serves.gates other
  cases lock with
  | hierarchy => exact serves.tidy
  | container key => exact LockTable.tidy_reclaim fun other gate _ found => serves.tidy other gate found

/-- A lock is busy just if somebody has it or asks for it. -/
theorem Serves.busy_iff (serves : locks.Serves held asked) (lock : LockName) :
    (locks.gate lock).isIdle = false ↔ ∃ user, lock ∈ held user ∨ asked user = some lock :=
  ⟨(serves.gates lock).used, fun used => used.elim fun _ uses => (serves.gates lock).not_isIdle uses⟩

/-- However locks are used, they show what their users have and ask for. -/
theorem Used.serves (used : locks.Used held asked) : locks.Serves held asked := by
  induction used with
  | start => exact serves_start
  | claim mode _ idle outside serves => exact serves.claim mode idle outside
  | enter _ asks granted serves => exact serves.enter asks granted
  | giveUp _ asks outside serves => exact serves.leave (left_of_giveUp asks outside)
  | giveBack _ idle _ serves => exact serves.leave (left_of_giveBack idle)
  | reclaim lock _ serves => exact serves.reclaim lock

end Locks

end Containment
