/-
Module: Containment.Proofs.Concurrency.Reclaiming
Purpose: The table of container locks is at any time what a registry of shared lock objects shows, with every task at
  rest: what tasks hold and wait for are its visits. So guards exclude each other, there is one object for each
  container, and the table has an entry for a container just if somebody holds it or waits for it.
Main exports: Registry.Shows, Locks.Used.shown, LockTable.IsCall, System.Exact, LockTable.excludes_and_reclaims
-/
import Containment.Proofs.Concurrency.Registry
import Containment.Proofs.Concurrency.Standing

namespace Containment

open Function (update)

/-! ### The table after a step -/

namespace LockTable

variable {table : LockTable} {key : String}

theorem getElem?_request (other : String) (claim : Claim) :
    (table.request key claim).2.gates[other]? =
      if other = key then some ((table.gate key).request claim).2 else table.gates[other]? := by
  simp only [request, Std.ExtTreeMap.getElem?_insert, Std.LawfulEqCmp.compare_eq_iff_eq, eq_comm (a := key)]

/-- A lock that becomes idle loses its entry. -/
theorem getElem?_leave (other : String) (user : Nat) :
    (table.leave key user).2.gates[other]? =
      if other = key then
        if ((table.gate key).leave user).2.isIdle then none else some ((table.gate key).leave user).2
      else table.gates[other]? := by
  have left : (table.desert key user).2.gate key = ((table.gate key).leave user).2 :=
    (gate_insert key key _).trans (if_pos rfl)
  simp only [leave, reclaim]
  rw [left]
  by_cases idle : ((table.gate key).leave user).2.isIdle = true
  · simp only [if_pos idle, desert, Std.ExtTreeMap.getElem?_erase, Std.ExtTreeMap.getElem?_insert,
      Std.LawfulEqCmp.compare_eq_iff_eq, eq_comm (a := key)]
    split <;> rfl
  · simp only [if_neg idle, desert, Std.ExtTreeMap.getElem?_insert, Std.LawfulEqCmp.compare_eq_iff_eq,
      eq_comm (a := key)]

/-- A tidy table has nothing to drop. -/
theorem Tidy.getElem?_reclaim (tidy : table.Tidy) (other : String) :
    (table.reclaim key).gates[other]? = table.gates[other]? := by
  unfold reclaim
  split
  · rename_i idle
    simp only [Std.ExtTreeMap.getElem?_erase, Std.LawfulEqCmp.compare_eq_iff_eq]
    split
    · rename_i same
      rw [← same, tidy.getElem?, if_pos idle]
    · rfl
  · rfl

end LockTable

/-! ### What a registry shows -/

namespace Registry

/-- Nobody is about to call or to leave. -/
def Settled (reg : Registry) : Prop :=
  ∀ v ∈ reg.visits, v.phase = .queued ∨ v.phase = .holding

/-- The table shows the objects in use, and the visits, all of them settled, are those of users that hold keys and wait
for them. -/
structure Shows (reg : Registry) (table : LockTable) (holds waits : Nat → String → Prop) : Prop where
  table : ∀ key : String, table.gates[key]? = (reg.entries[key]?).map reg.objects
  holds : ∀ user key, holds user key ↔ ∃ v ∈ reg.visits, v.user = user ∧ v.key = key ∧ v.phase = .holding
  waits : ∀ user key, waits user key ↔ ∃ v ∈ reg.visits, v.user = user ∧ v.key = key ∧ v.phase = .queued
  settled : reg.Settled

variable {reg : Registry} {table : LockTable} {holds waits : Nat → String → Prop} {user object : Nat} {key : String}
  {v w : Visit}

theorem Settled.steady (settled : reg.Settled) (mem : v ∈ reg.visits) : v.phase ≠ .parting ∧ v.phase ≠ .leaving := by
  rcases settled v mem with queued | holding <;> simp [*]

theorem shows_start : ({} : Registry).Shows {} (fun _ _ => False) fun _ _ => False := by
  refine ⟨fun key => ?_, fun user key => ?_, fun user key => ?_, fun v mem => ?_⟩ <;> simp_all

theorem Shows.congr {table' : LockTable} {holds' waits' : Nat → String → Prop} (shows : reg.Shows table holds waits)
    (same : ∀ key : String, table'.gates[key]? = table.gates[key]?) (held : ∀ o k, holds' o k ↔ holds o k)
    (asked : ∀ o k, waits' o k ↔ waits o k) : reg.Shows table' holds' waits' :=
  ⟨fun key => (same key).trans (shows.table key), fun o k => (held o k).trans (shows.holds o k),
    fun o k => (asked o k).trans (shows.waits o k), shows.settled⟩

/-- The object of a key is the lock in the table. -/
theorem Shows.gate (shows : reg.Shows table holds waits) (key : String) :
    table.gate key = ((reg.entries[key]?).map reg.objects).getD {} := by
  rw [LockTable.gate, shows.table]

theorem Shows.gate_of_mem (shows : reg.Shows table holds waits) (sound : reg.Sound) (mem : v ∈ reg.visits) :
    table.gate v.key = reg.objects v.object := by
  rw [shows.gate, sound.shared v mem (shows.settled.steady mem).2]
  rfl

theorem Shows.uses_iff (shows : reg.Shows table holds waits) :
    holds user key ∨ waits user key ↔ ∃ v ∈ reg.visits, v.user = user ∧ v.key = key := by
  rw [shows.holds, shows.waits]
  constructor
  · rintro (⟨v, mem, own, there, -⟩ | ⟨v, mem, own, there, -⟩) <;> exact ⟨v, mem, own, there⟩
  · rintro ⟨v, mem, own, there⟩
    exact (shows.settled v mem).symm.imp (fun phase => ⟨v, mem, own, there, phase⟩)
      fun phase => ⟨v, mem, own, there, phase⟩

/-- The registry after a call: there is an object now, and those of other keys are left alone. -/
theorem Sound.call_spec (sound : reg.Sound) (user : Nat) (key : String) (mode : Mode) : ∃ object,
    (reg.call user key mode).visits = reg.visits ++ [{ user, key, mode, object, phase := .calling }] ∧
      (reg.call user key mode).entries[key]? = some object ∧
      (reg.call user key mode).objects object = ((reg.entries[key]?).map reg.objects).getD {} ∧
      ∀ other : String, other ≠ key → (reg.call user key mode).entries[other]? = reg.entries[other]? ∧
        ∀ o, reg.entries[other]? = some o → (reg.call user key mode).objects o = reg.objects o := by
  cases found : reg.entries[key]? with
  | some object =>
    refine ⟨object, ?_⟩
    simp only [Registry.call, handle_of_some found]
    exact ⟨trivial, found, rfl, fun _ _ => ⟨trivial, fun _ _ => trivial⟩⟩
  | none =>
    refine ⟨reg.made, ?_⟩
    simp only [Registry.call, handle_of_none found]
    refine ⟨rfl, ?_, objects_add_made, fun other ne => ⟨?_, fun o there => ?_⟩⟩
    · rw [getElem?_entries_add, if_pos rfl]
    · rw [getElem?_entries_add, if_neg ne]
    · exact objects_add_of_ne (Nat.ne_of_lt (sound.made other o there))

/-- Of two entries for different keys, one may be changed without the other. -/
theorem Sound.map_update (sound : reg.Sound) (entry : reg.entries[key]? = some object) {other : String}
    (ne : other ≠ key) (gate : Gate) :
    (reg.entries[other]?).map (update reg.objects object gate) = (reg.entries[other]?).map reg.objects := by
  cases found : reg.entries[other]? with
  | none => rfl
  | some o =>
    have apart : o ≠ object := by
      rintro rfl
      exact ne (sound.apart other key o found entry)
    rw [Option.map_some, Option.map_some, Function.update_of_ne apart]

/-! #### Steps of the table are steps of a registry -/

/-- Claiming a container: a call that asks its object. -/
theorem Shows.claim (shows : reg.Shows table holds waits) (reached : reg.Reached) (mode : Mode)
    (outside : ¬ holds user key) (idle : ¬ waits user key) : ∃ reg' : Registry, reg'.Reached ∧
      reg'.Shows (table.request key { holder := user, mode }).2 holds fun o k => waits o k ∨ o = user ∧ k = key := by
  have fresh : ∀ v ∈ reg.visits, v.user = user → v.key ≠ key :=
    fun v mem own there => (shows.uses_iff.2 ⟨v, mem, own, there⟩).elim outside idle
  obtain ⟨object, visits, entry, gate, others⟩ := reached.sound.1.call_spec user key mode
  have called := reached.calls mode fresh
  have sound := called.sound.1
  have mem : { user, key, mode, object, phase := .calling } ∈ (reg.call user key mode).visits := by
    rw [visits]
    exact List.mem_append_right _ List.mem_cons_self
  have there : ∀ w, w ∈ ((reg.call user key mode).ask { user, key, mode, object, phase := .calling }).visits ↔
      w ∈ reg.visits ∨ w = { user, key, mode, object, phase := .queued } := by
    intro w
    have enrolled : w ∈ (reg.call user key mode).visits ↔
        w ∈ reg.visits ∨ w = { user, key, mode, object, phase := .calling } := by
      rw [visits, List.mem_append, List.mem_singleton]
    constructor
    · intro mem'
      rcases mem_move.1 mem' with ⟨old, other⟩ | ⟨-, rfl⟩
      · exact .inl ((enrolled.1 old).resolve_right other)
      · exact .inr rfl
    · rintro (old | rfl)
      · refine mem_move.2 (.inl ⟨enrolled.2 (.inl old), ?_⟩)
        rintro rfl
        rcases shows.settled _ old with impossible | impossible <;> cases impossible
      · exact mem_move.2 (.inr ⟨mem, rfl⟩)
  refine ⟨_, called.asks mem rfl, fun other => ?_, fun o k => ?_, fun o k => ?_, fun w mem' => ?_⟩
  · rw [LockTable.getElem?_request]
    by_cases own : other = key
    · subst own
      rw [if_pos rfl]
      simp only [ask, Registry.move, entry, Option.map_some, Function.update_self]
      rw [shows.gate, gate]
    · simp only [if_neg own, ask, Registry.move]
      rw [sound.map_update entry own, (others other own).1, shows.table]
      cases found : reg.entries[other]? with
      | none => rfl
      | some o => rw [Option.map_some, Option.map_some, (others other own).2 o found]
  · simp only [there, shows.holds, or_and_right, exists_or, exists_eq_left]
    simp
  · simp only [there, shows.waits, or_and_right, exists_or, exists_eq_left]
    simp [eq_comm]
  · rcases (there w).1 mem' with old | rfl
    · exact shows.settled w old
    · exact .inl rfl

/-- Finding a claim granted. -/
theorem Shows.enter (shows : reg.Shows table holds waits) (reached : reg.Reached) (asks : waits user key)
    (granted : (table.gate key).isHeldBy user = true) : ∃ reg' : Registry, reg'.Reached ∧
      reg'.Shows table (fun o k => holds o k ∨ o = user ∧ k = key) fun o k => waits o k ∧ ¬ (o = user ∧ k = key) := by
  have sound := reached.sound.1
  obtain ⟨v, mem, rfl, rfl, queued⟩ := (shows.waits _ _).1 asks
  rw [shows.gate_of_mem sound mem] at granted
  refine ⟨_, reached.enters mem queued granted, fun other => ?_, fun o k => ?_, fun o k => ?_, fun w mem' => ?_⟩
  · simp only [pass, Registry.move, Function.update_eq_self]
    exact shows.table other
  · rw [shows.holds]
    constructor
    · rintro (⟨w, old, rfl, rfl, holding⟩ | ⟨rfl, rfl⟩)
      · refine ⟨w, mem_move.2 (.inl ⟨old, ?_⟩), rfl, rfl, holding⟩
        rintro rfl
        rw [queued] at holding
        cases holding
      · exact ⟨_, mem_move.2 (.inr ⟨mem, rfl⟩), rfl, rfl, rfl⟩
    · rintro ⟨w, there, rfl, rfl, holding⟩
      rcases mem_move.1 there with ⟨old, -⟩ | ⟨-, rfl⟩
      · exact .inl ⟨w, old, rfl, rfl, holding⟩
      · exact .inr ⟨rfl, rfl⟩
  · rw [shows.waits]
    constructor
    · rintro ⟨⟨w, old, rfl, rfl, waiting⟩, other⟩
      refine ⟨w, mem_move.2 (.inl ⟨old, ?_⟩), rfl, rfl, waiting⟩
      rintro rfl
      exact other ⟨rfl, rfl⟩
    · rintro ⟨w, there, rfl, rfl, waiting⟩
      rcases mem_move.1 there with ⟨old, other⟩ | ⟨-, rfl⟩
      · exact ⟨⟨w, old, rfl, rfl, waiting⟩, fun same => other (sound.eq_of mem old same.1 same.2)⟩
      · cases waiting
  · rcases mem_move.1 mem' with ⟨old, -⟩ | ⟨-, rfl⟩
    · exact shows.settled w old
    · exact .inr rfl

/-! #### Leaving -/

/-- A visitor gives its claim up, lets the object go and looks after the entry. -/
def depart (reg : Registry) (v : Visit) : Registry :=
  ((reg.part v).pass { v with phase := .parting } .leaving).reclaim { v with phase := .leaving }

/-- Everybody else is still there before the last step. -/
theorem Settled.mem_pass (settled : reg.Settled) (mem : v ∈ reg.visits) :
    w ∈ ((reg.part v).pass { v with phase := .parting } .leaving).visits ↔
      (w ∈ reg.visits ∧ w ≠ v) ∨ w = { v with phase := .leaving } := by
  constructor
  · intro there
    rcases mem_move.1 there with ⟨there, other⟩ | ⟨-, rfl⟩
    · rcases mem_move.1 there with old | ⟨-, rfl⟩
      · exact .inl old
      · exact absurd rfl other
    · exact .inr rfl
  · rintro (⟨old, other⟩ | rfl)
    · refine mem_move.2 (.inl ⟨mem_move.2 (.inl ⟨old, other⟩), ?_⟩)
      rintro rfl
      exact (settled.steady old).1 rfl
    · exact mem_move.2 (.inr ⟨mem_move.2 (.inr ⟨mem, rfl⟩), rfl⟩)

theorem Settled.mem_depart (settled : reg.Settled) (mem : v ∈ reg.visits) :
    w ∈ (reg.depart v).visits ↔ w ∈ reg.visits ∧ w ≠ v := by
  rw [depart, mem_reclaim, settled.mem_pass mem]
  constructor
  · rintro ⟨old | new, other⟩
    · exact old
    · exact absurd new other
  · rintro ⟨old, other⟩
    refine ⟨.inl ⟨old, other⟩, ?_⟩
    rintro rfl
    exact (settled.steady old).2 rfl

theorem objects_depart :
    (reg.depart v).objects = update reg.objects v.object ((reg.objects v.object).leave v.user).2 := by
  simp only [depart, Registry.reclaim, pass, Registry.move, Function.update_eq_self]
  rfl

/-- An entry stays for those who visit the same key. -/
theorem Sound.getElem?_depart (sound : reg.Sound) (settled : reg.Settled) (mem : v ∈ reg.visits) :
    (reg.depart v).entries[key]? = some object ↔ reg.entries[key]? = some object ∧
      (key = v.key → ∃ w ∈ reg.visits, w ≠ v ∧ w.object = object) := by
  have parted := sound.part mem (settled v mem)
  have left := parted.letGo (v := { v with phase := .parting }) (mem_move.2 (.inr ⟨mem, rfl⟩)) (.inr rfl)
  refine left.getElem?_swept.trans (and_congr_right fun _ => forall_congr' fun _ => ?_)
  constructor
  · rintro ⟨w, there, live, refers⟩
    rcases (settled.mem_pass mem).1 there with ⟨old, other⟩ | rfl
    · exact ⟨w, old, other, refers⟩
    · exact absurd rfl live
  · rintro ⟨w, old, other, refers⟩
    exact ⟨w, (settled.mem_pass mem).2 (.inl ⟨old, other⟩), (settled.steady old).2, refers⟩

theorem Reached.depart (reached : reg.Reached) (settled : reg.Settled) (mem : v ∈ reg.visits) :
    (reg.depart v).Reached := by
  have parted := reached.parts mem (settled v mem)
  have left := parted.letsGo (v := { v with phase := .parting }) (mem_move.2 (.inr ⟨mem, rfl⟩)) (.inr rfl)
  exact left.reclaims ((settled.mem_pass mem).2 (.inr rfl)) rfl

/-- The entry of a key after one of its visitors has left: it is dropped just if the lock is idle. -/
theorem Shows.entry_depart (shows : reg.Shows table holds waits) (sound : reg.Sound) (mem : v ∈ reg.visits)
    (busy : ((table.gate v.key).leave v.user).2.isIdle = false ↔
      ∃ o, o ≠ v.user ∧ (holds o v.key ∨ waits o v.key)) :
    (reg.depart v).entries[v.key]? =
      if ((table.gate v.key).leave v.user).2.isIdle then none else some v.object := by
  have entry := sound.shared v mem (shows.settled.steady mem).2
  have beside : ((table.gate v.key).leave v.user).2.isIdle = false ↔ ∃ w ∈ reg.visits, w ≠ v ∧ w.object = v.object := by
    rw [busy]
    constructor
    · rintro ⟨o, ne, uses⟩
      obtain ⟨w, old, rfl, there⟩ := shows.uses_iff.1 uses
      have refers := sound.shared w old (shows.settled.steady old).2
      rw [there, entry] at refers
      exact ⟨w, old, fun same => ne (same ▸ rfl), (Option.some.inj refers).symm⟩
    · rintro ⟨w, old, other, refers⟩
      have there := sound.key_eq mem (shows.settled.steady mem).2 old (shows.settled.steady old).2 refers
      exact ⟨w.user, fun same => other (sound.eq_of mem old same there), shows.uses_iff.2 ⟨w, old, rfl, there⟩⟩
  cases idle : ((table.gate v.key).leave v.user).2.isIdle with
  | true =>
    rw [if_pos rfl, Option.eq_none_iff_forall_ne_some]
    intro o found
    obtain ⟨there, used⟩ := (sound.getElem?_depart shows.settled mem).1 found
    rw [entry] at there
    cases there
    rw [beside.2 (used rfl)] at idle
    cases idle
  | false => exact (sound.getElem?_depart shows.settled mem).2 ⟨entry, fun _ => beside.1 idle⟩

/-- Leaving a container, be it from the queue or with a guard. -/
theorem Shows.leave (shows : reg.Shows table holds waits) (reached : reg.Reached)
    (uses : holds user key ∨ waits user key)
    (busy : ((table.gate key).leave user).2.isIdle = false ↔ ∃ o, o ≠ user ∧ (holds o key ∨ waits o key)) :
    ∃ reg' : Registry, reg'.Reached ∧ reg'.Shows (table.leave key user).2
      (fun o k => holds o k ∧ ¬ (o = user ∧ k = key)) fun o k => waits o k ∧ ¬ (o = user ∧ k = key) := by
  have sound := reached.sound.1
  obtain ⟨v, mem, rfl, rfl⟩ := shows.uses_iff.1 uses
  have visits : ∀ w, w ∈ (reg.depart v).visits ↔ w ∈ reg.visits ∧ w ≠ v := fun w => shows.settled.mem_depart mem
  have rest : ∀ (phase : Phase) o k, ((∃ w ∈ reg.visits, w.user = o ∧ w.key = k ∧ w.phase = phase) ∧
      ¬ (o = v.user ∧ k = v.key)) ↔ ∃ w ∈ (reg.depart v).visits, w.user = o ∧ w.key = k ∧ w.phase = phase := by
    intro phase o k
    constructor
    · rintro ⟨⟨w, old, rfl, rfl, there⟩, other⟩
      refine ⟨w, (visits w).2 ⟨old, ?_⟩, rfl, rfl, there⟩
      rintro rfl
      exact other ⟨rfl, rfl⟩
    · rintro ⟨w, there, rfl, rfl, phase⟩
      obtain ⟨old, other⟩ := (visits w).1 there
      exact ⟨⟨w, old, rfl, rfl, phase⟩, fun same => other (sound.eq_of mem old same.1 same.2)⟩
  refine ⟨_, reached.depart shows.settled mem, fun other => ?_, fun o k => ?_, fun o k => ?_, fun w there => ?_⟩
  · rw [LockTable.getElem?_leave, objects_depart]
    by_cases own : other = v.key
    · rw [if_pos own, own, shows.entry_depart sound mem busy, shows.gate_of_mem sound mem]
      split
      · rfl
      · rw [Option.map_some, Function.update_self]
    · have same : (reg.depart v).entries[other]? = reg.entries[other]? := by
        apply Option.ext
        intro o
        rw [sound.getElem?_depart shows.settled mem]
        exact and_iff_left fun here => absurd here own
      rw [if_neg own, same, sound.map_update (sound.shared v mem (shows.settled.steady mem).2) own, shows.table]
  · rw [shows.holds, rest]
  · rw [shows.waits, rest]
  · exact shows.settled w ((visits w).1 there).1

end Registry

/-! ### The running locks -/

namespace Locks

variable {locks : Locks} {held : Nat → Finset LockName} {asked : Nat → Option LockName}

/-- Leaving a lock. -/
theorem Serves.leave_shown {reg : Registry} {user : Nat} {lock : LockName} {held' : Nat → Finset LockName}
    {asked' : Nat → Option LockName} (serves : locks.Serves held asked) (reached : reg.Reached)
    (shows : reg.Shows locks.containers (fun o key => .container key ∈ held o)
      fun o key => asked o = some (.container key))
    (uses : lock ∈ held user ∨ asked user = some lock) (left : Left user lock held held' asked asked') :
    ∃ reg' : Registry, reg'.Reached ∧ reg'.Shows (locks.leave lock user).2.containers
      (fun o key => .container key ∈ held' o) fun o key => asked' o = some (.container key) := by
  cases lock with
  | hierarchy =>
    refine ⟨reg, reached, shows.congr (fun _ => rfl) (fun o k => ?_) fun o k => ?_⟩
    · simp [left.held]
    · simp [left.asked]
  | container key =>
    have same : (locks.leave (.container key) user).2.gate (.container key) =
        ((locks.containers.gate key).leave user).2 := (gate_leave _ _ user).trans (if_pos rfl)
    have busy : ((locks.containers.gate key).leave user).2.isIdle = false ↔
        ∃ o, o ≠ user ∧ (.container key ∈ held o ∨ asked o = some (.container key)) := by
      rw [← same, (serves.leave left).busy_iff]
      apply exists_congr
      intro o
      rw [left.held, left.asked]
      tauto
    obtain ⟨reg', reached', shows'⟩ := shows.leave reached uses busy
    refine ⟨reg', reached', shows'.congr (fun _ => rfl) (fun o k => ?_) fun o k => ?_⟩
    · simp [left.held]
    · simp [left.asked]

open Registry in
/-- However locks are used, the table of containers is what a registry shows whose visits are what users have and ask
for. -/
theorem Used.shown (used : locks.Used held asked) : ∃ reg : Registry, reg.Reached ∧
    reg.Shows locks.containers (fun user key => .container key ∈ held user)
      fun user key => asked user = some (.container key) := by
  induction used with
  | start => exact ⟨{}, .start, shows_start.congr (fun _ => rfl) (fun _ _ => by simp) fun _ _ => by simp⟩
  | @claim locks held asked user lock mode used idle outside before =>
    obtain ⟨reg, reached, shows⟩ := before
    cases lock with
    | hierarchy =>
      refine ⟨reg, reached, shows.congr (fun _ => rfl) (fun _ _ => Iff.rfl) fun o k => ?_⟩
      by_cases own : o = user <;> simp [own, idle]
    | container key =>
      obtain ⟨reg', reached', shows'⟩ := shows.claim reached mode outside (by simp [idle])
      refine ⟨reg', reached', shows'.congr (fun _ => rfl) (fun _ _ => Iff.rfl) fun o k => ?_⟩
      by_cases own : o = user <;> simp [own, idle, eq_comm]
  | @enter locks held asked user lock used asks granted before =>
    obtain ⟨reg, reached, shows⟩ := before
    cases lock with
    | hierarchy =>
      refine ⟨reg, reached, shows.congr (fun _ => rfl) (fun o k => ?_) fun o k => ?_⟩
      · by_cases own : o = user <;> simp [own]
      · by_cases own : o = user <;> simp [own, asks]
    | container key =>
      obtain ⟨reg', reached', shows'⟩ := shows.enter reached asks granted
      refine ⟨reg', reached', shows'.congr (fun _ => rfl) (fun o k => ?_) fun o k => ?_⟩
      · by_cases own : o = user <;> simp [own, or_comm]
      · by_cases own : o = user <;> simp [own, asks, eq_comm]
  | giveUp used asks outside before =>
    obtain ⟨reg, reached, shows⟩ := before
    exact used.serves.leave_shown reached shows (.inr asks) (left_of_giveUp asks outside)
  | giveBack used idle mem before =>
    obtain ⟨reg, reached, shows⟩ := before
    exact used.serves.leave_shown reached shows (.inl mem) (left_of_giveBack idle)
  | reclaim lock used before =>
    obtain ⟨reg, reached, shows⟩ := before
    cases lock with
    | hierarchy => exact ⟨reg, reached, shows⟩
    | container key =>
      have tidy := used.serves.tidy
      exact ⟨reg, reached, shows.congr tidy.getElem?_reclaim (fun _ _ => Iff.rfl) fun _ _ => Iff.rfl⟩

end Locks

/-! ### Guards side by side -/

namespace System

variable {α : Type} {sys : System α} {held : Nat → Finset LockName}

/-- The task has the lock in this way. -/
def HoldsAs (sys : System α) (id : Nat) (lock : LockName) (mode : Mode) : Prop :=
  { holder := id, mode } ∈ (sys.shared.locks.gate lock).granted ∧ sys.asked id ≠ some lock

/-- The lock is held by nobody, by some who share it, or by a single task that has it alone. -/
def Exclusive (sys : System α) (lock : LockName) : Prop :=
  (∀ id mode, sys.HoldsAs id lock mode → mode = .shared) ∨
    ∃ id, sys.HoldsAs id lock .exclusive ∧ ∀ other, sys.Holds other lock → other = id

theorem Stands.exclusive (stands : sys.Stands held) (lock : LockName) : sys.Exclusive lock := by
  by_cases alone : ∃ id, sys.HoldsAs id lock .exclusive
  · obtain ⟨id, mem, idle⟩ := alone
    refine .inr ⟨id, ⟨mem, idle⟩, ?_⟩
    rintro other ⟨granted, -⟩
    rw [Locks.isHeldBy_eq] at granted
    obtain ⟨c, there, rfl⟩ := Gate.isHeldBy_iff.1 granted
    rw [(stands.serves.gates lock).alone _ mem rfl, List.mem_singleton] at there
    rw [there]
  · apply Or.inl
    intro id mode holds
    cases mode with
    | shared => rfl
    | exclusive => exact absurd ⟨id, holds⟩ alone

/-- A container has an entry just if somebody holds it or waits for it. -/
theorem Stands.contains_iff (stands : sys.Stands held) (key : String) :
    sys.shared.locks.containers.gates.contains key = true ↔
      ∃ id, sys.Holds id (.container key) ∨ sys.asked id = some (.container key) := by
  have busy := stands.serves.busy_iff (.container key)
  rw [Std.ExtTreeMap.contains_eq_isSome_getElem?, stands.serves.tidy.getElem?]
  simp only [stands.holds_iff]
  rw [← busy]
  cases idle : (sys.shared.locks.containers.gate key).isIdle with
  | true => simp [Locks.gate, idle]
  | false => simp [Locks.gate, idle]

end System

/-- What can be asked of the table of container locks: a guard to share a container, one to have it alone, and guards
of several containers. Who asks more than once counts as several tasks. -/
def LockTable.IsCall (p : Program (Option Cancellation)) : Prop :=
  (∃ key, p = read key) ∨ (∃ key, p = write key) ∨ ∃ keys, p = writeMany keys

theorem LockTable.IsCall.climbs {p : Program (Option Cancellation)} (call : LockTable.IsCall p) : p.Climbs ∅ := by
  rcases call with ⟨key, rfl⟩ | ⟨key, rfl⟩ | ⟨keys, rfl⟩
  · exact (LockTable.ascends_read key).mono fun _ _ _ => trivial
  · exact (LockTable.ascends_write key).mono fun _ _ _ => trivial
  · exact (LockTable.ascends_writeMany keys).mono fun _ _ _ => trivial

/-- However visits of shared lock objects interleave, the registry is exact. And however tasks ask for guards, give up
and drop their guards, the running table is what such a registry shows, with what they hold and wait for as its visits;
guards of a container exclude each other, and the table has an entry for a container just if somebody holds it or waits
for it. -/
theorem LockTable.excludes_and_reclaims :
    (∀ reg : Registry, reg.Reached → reg.Exact) ∧
      ∀ sys : System (Option Cancellation), sys.Reached LockTable.IsCall →
        (∃ reg : Registry, reg.Reached ∧ reg.Shows sys.shared.locks.containers
          (fun id key => sys.Holds id (.container key)) fun id key => sys.asked id = some (.container key)) ∧
        ∀ key, sys.Exclusive (.container key) ∧ (sys.shared.locks.containers.gates.contains key = true ↔
          ∃ id, sys.Holds id (.container key) ∨ sys.asked id = some (.container key)) := by
  refine ⟨fun reg reached => reached.exact, fun sys reached => ?_⟩
  obtain ⟨held, stands⟩ := reached.stands fun p call => call.climbs
  obtain ⟨reg, reached', shows⟩ := stands.used.shown
  refine ⟨⟨reg, reached', shows.congr (fun _ => rfl) (fun _ _ => stands.holds_iff) fun _ _ => Iff.rfl⟩, fun key => ?_⟩
  exact ⟨stands.exclusive _, stands.contains_iff key⟩

/-- One visitor has given its guard up and looks after the entry when another one has already got hold of the object. -/
def sampleVisits : Registry :=
  let first : Visit := { user := 0, key := "a", mode := .exclusive, object := 0, phase := .calling }
  let asked := (({} : Registry).call 0 "a" .exclusive).ask first
  let entered := asked.pass { first with phase := .queued } .holding
  let left := (entered.part { first with phase := .holding }).pass { first with phase := .parting } .leaving
  (left.call 1 "a" .shared).reclaim { first with phase := .leaving }

theorem sampleVisits_reached : sampleVisits.Reached := by
  have called : (({} : Registry).call 0 "a" .exclusive).Reached := .calls .exclusive .start (by simp)
  have asked := called.asks (v := { user := 0, key := "a", mode := .exclusive, object := 0, phase := .calling })
    (by decide +kernel) rfl
  have entered := asked.enters (v := { user := 0, key := "a", mode := .exclusive, object := 0, phase := .queued })
    (by decide +kernel) rfl (by decide +kernel)
  have parted := entered.parts (v := { user := 0, key := "a", mode := .exclusive, object := 0, phase := .holding })
    (by decide +kernel) (.inr rfl)
  have left := parted.letsGo (v := { user := 0, key := "a", mode := .exclusive, object := 0, phase := .parting })
    (by decide +kernel) (.inr rfl)
  exact (left.calls .shared (by decide +kernel)).reclaims (by decide +kernel) rfl

/-- Two tasks share a container, a third one waits to have it together with another one, a fourth one has given up
waiting behind it, and a fifth one has dropped its guard of a third container. -/
def sampleGuards : System (Option Cancellation) :=
  let empty : System (Option Cancellation) := { shared := { world := default } }
  let sharing := ((empty.spawn { token := [0] } (LockTable.read "a")).2.spawn { token := [1] } (LockTable.read "a")).2
  let waiting := (sharing.spawn { token := [2] } (LockTable.writeMany ["b", "a"])).2
  let behind := (waiting.spawn { token := [3] } (LockTable.read "a")).2
  (((behind.spawn { token := [4] } (LockTable.write "c")).2.settle.cancel [3]).letGo (.container "c") 4)

theorem sampleGuards_reached : sampleGuards.Reached LockTable.IsCall := by
  have empty : System.Reached LockTable.IsCall { shared := { world := default } } := .start _
  have sharing := (empty.spawn { token := [0] } (.inl ⟨"a", rfl⟩)).spawn { token := [1] } (.inl ⟨"a", rfl⟩)
  have waiting := sharing.spawn { token := [2] } (.inr (.inr ⟨["b", "a"], rfl⟩))
  have behind := waiting.spawn { token := [3] } (.inl ⟨"a", rfl⟩)
  have settled := ((behind.spawn { token := [4] } (.inr (.inl ⟨"c", rfl⟩))).settle.cancel [3])
  exact settled.letGo (System.over_of_result (show _ = some none by decide +kernel)) (by decide +kernel)

theorem guards_exclude_and_reclaim :
    (sampleVisits.Exact ∧ sampleVisits.entries["a"]? = some 0) ∧
      (∃ reg : Registry, reg.Reached ∧ reg.Shows sampleGuards.shared.locks.containers
        (fun id key => sampleGuards.Holds id (.container key))
          fun id key => sampleGuards.asked id = some (.container key)) ∧
      sampleGuards.Exclusive (.container "a") ∧ sampleGuards.Holds 0 (.container "a") ∧
      sampleGuards.Holds 1 (.container "a") ∧ sampleGuards.asked 2 = some (.container "a") ∧
      sampleGuards.shared.locks.containers.gates.contains "c" = false := by
  obtain ⟨shown, exact⟩ := LockTable.excludes_and_reclaims.2 sampleGuards sampleGuards_reached
  refine ⟨⟨LockTable.excludes_and_reclaims.1 sampleVisits sampleVisits_reached, ?_⟩, shown, (exact "a").1, ⟨?_, ?_⟩,
    ⟨?_, ?_⟩, ?_, ?_⟩
  all_goals decide +kernel

end Containment
