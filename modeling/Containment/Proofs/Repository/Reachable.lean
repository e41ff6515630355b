/-
Module: Containment.Proofs.Repository.Reachable
Purpose: The states that calls reach one after the other, and what holds in all of them: index and store agree,
  and the stored containers form a forest of bounded depth whose links agree in both directions.
Main exports: Holdings.Reaches, Holdings.Reaches.index_agrees, MemoryStore.Hierarchical,
  Holdings.Reaches.hierarchical, World.after
-/
import Containment.Proofs.Repository.Agreement
import Containment.Proofs.Repository.Calls

namespace Containment

/-- Calls one after the other lead here, each in whatever context. The requests that fail on the way are such as
may fail. -/
inductive Holdings.Reaches (settings : Settings) (mayFail : FaultPoint → Prop) (start : Holdings) : Holdings → Prop
  | start : Reaches settings mayFail start start
  | call {h h' : Holdings} {call : Call} {fails : List FaultPoint} {outcome : Outcome} :
      Reaches settings mayFail start h → call.IsOrdinary → (∀ point ∈ fails, mayFail point) →
        (call.program settings).Runs h fails outcome h' → Reaches settings mayFail start h'

/-! ### What one call keeps -/

namespace Repository.Verdict

variable {settings : Settings} {call : Call} {h h' : Holdings} {fails : List FaultPoint} {outcome : Outcome}

theorem sane (before : h.store.contents.Sane)
    (verdict : Verdict h (call.KeepsForest settings h.store) fails outcome h') : h'.store.contents.Sane := by
  cases outcome with
  | ok reply =>
    obtain ⟨events, ⟨effects, -⟩, -⟩ := verdict
    exact effects.sane before
  | error e => exact verdict.sane

/-- Without failures an index that was right stays right. -/
theorem mirrored {α : Type} {effect : α → List Event → MemoryStore → Prop} {out : Except RepositoryError α}
    (verdict : Verdict h effect [] out h') (known : h.Mirrored) : h'.Mirrored := by
  cases out with
  | ok a =>
    obtain ⟨events, -, -, mirrors⟩ := verdict
    exact mirrors rfl known
  | error e => exact (verdict.clean rfl known).2.1

/-- While only the index fails, the forest stays a forest. -/
theorem forest (verdict : Verdict h (call.KeepsForest settings h.store) fails outcome h')
    (index : ∀ point ∈ fails, point.isIndex) (positive : 1 ≤ settings.limits.maxDepth)
    (known : h.store.contents.Forest settings.limits.maxDepth) :
    h'.store.contents.Forest settings.limits.maxDepth := by
  cases outcome with
  | ok reply =>
    obtain ⟨events, ⟨-, keeps⟩, -⟩ := verdict
    exact keeps positive known
  | error e =>
    rw [(verdict.contents index).contents]
    exact known

end Repository.Verdict

/-! ### What every run keeps -/

namespace Holdings.Reaches

variable {settings : Settings} {mayFail : FaultPoint → Prop} {start h : Holdings}

theorem mono {weaker : FaultPoint → Prop} (reached : start.Reaches settings mayFail h)
    (imp : ∀ point, mayFail point → weaker point) : start.Reaches settings weaker h := by
  induction reached with
  | start => exact .start
  | call _ ordinary fails run before =>
    exact .call before ordinary (fun point mem => imp point (fails point mem)) run

theorem sane (reached : start.Reaches settings mayFail h) (first : start.store.contents.Sane) :
    h.store.contents.Sane := by
  induction reached with
  | start => exact first
  | call _ ordinary _ run before => exact (Call.ensures ordinary before _ _ _ run).sane before

theorem indexed (reached : start.Reaches settings mayFail h) (first : start.Indexed) : h.Indexed := by
  induction reached with
  | start => exact first
  | call _ _ _ run before => exact before.runs run

theorem mirrored (reached : start.Reaches settings (fun _ => False) h) (first : start.store.contents.Sane)
    (right : start.Mirrored) : h.Mirrored := by
  induction reached with
  | start => exact right
  | @call _ _ _ fails _ earlier ordinary clean run before =>
    have verdict := Call.ensures ordinary (earlier.sane first) _ _ _ run
    have none : fails = [] := List.eq_nil_iff_forall_not_mem.2 clean
    subst none
    exact verdict.mirrored before

theorem forest (reached : start.Reaches settings mayFail h) (index : ∀ point, mayFail point → point.isIndex)
    (positive : 1 ≤ settings.limits.maxDepth) (first : start.store.contents.Sane)
    (known : start.store.contents.Forest settings.limits.maxDepth) :
    h.store.contents.Forest settings.limits.maxDepth := by
  induction reached with
  | start => exact known
  | call earlier ordinary fails run before =>
    have verdict := Call.ensures ordinary (earlier.sane first) _ _ _ run
    exact verdict.forest (fun point mem => index point (fails point mem)) positive before

end Holdings.Reaches

/-! ### Runs of a world -/

/-- The world after some calls one after the other, each in a context of its own. -/
def World.after (settings : Settings) (w : World) (calls : List (Option Cancellation × Call)) : World :=
  calls.foldl (fun w (status, call) => ((call.program settings).run status w).2) w

/-- A world without planted faults goes through reached states only. -/
theorem World.Holds.reached_after {settings : Settings} {start h : Holdings} {w : World}
    (calls : List (Option Cancellation × Call)) (ordinary : ∀ entry ∈ calls, entry.2.IsOrdinary)
    (holds : w.Holds h) (clean : w.faults = []) (reached : start.Reaches settings (fun _ => False) h) :
    ∃ h', (w.after settings calls).Holds h' ∧ start.Reaches settings (fun _ => False) h' := by
  induction calls generalizing w h with
  | nil => exact ⟨h, holds, reached⟩
  | cons entry rest ih =>
    obtain ⟨h₁, run, holds₁, clean₁⟩ := Program.run_undisturbed entry.1 (entry.2.program settings) holds clean
    have next : start.Reaches settings (fun _ => False) h₁ :=
      .call reached (ordinary entry List.mem_cons_self) (fun _ mem => absurd mem List.not_mem_nil) run
    exact ih (fun other mem => ordinary other (List.mem_cons_of_mem entry mem)) holds₁ clean₁ next

/-- Two roots, a container that moves from one to the other, and a deletion that comes too late. -/
def sampleCalls : List (Option Cancellation × Call) :=
  [(none, .create (.new "a" "" .basic none)), (none, .create (.new "b" "" .basic none)),
    (none, .create (.new "c" "a" .basic none)), (none, .addMember "b" "d.txt"), (none, .move "c" "b"),
    (some .cancelled, .delete "a")]

theorem sampleCalls_reach :
    ∃ h, (World.after {} default sampleCalls).Holds h ∧ Holdings.Reaches {} (fun _ => False) {} h := by
  refine World.Holds.reached_after sampleCalls ?_ ⟨rfl, rfl⟩ rfl .start
  simp [sampleCalls, Call.IsOrdinary]

/-! ### The agreement of index and store -/

/-- After any calls on an empty repository, rejected and canceled ones included, index and store agree. -/
theorem Holdings.Reaches.index_agrees {settings : Settings} {h : Holdings}
    (reached : Holdings.Reaches settings (fun _ => False) {} h) : h.Agrees := by
  exact (reached.mirrored MemoryStore.sane_empty mirrored_empty).agrees

theorem sampleCalls_agree : ∃ h, (World.after {} default sampleCalls).Holds h ∧ h.Agrees := by
  obtain ⟨h, holds, reached⟩ := sampleCalls_reach
  exact ⟨h, holds, reached.index_agrees⟩

example : ((World.after {} default sampleCalls).index.rows "b").map (List.map IndexEntry.memberId) =
    .ok ["d.txt", "c"] := by
  decide +kernel

/-! ### The forest of stored containers -/

/-- The stored containers form a forest of bounded depth. A container that names a parent stands in its membership
list exactly once, as a container; from every container parents lead up to a root and meet no container twice; and
every record can be loaded. -/
structure MemoryStore.Hierarchical (S : MemoryStore) (maxDepth : Nat) : Prop where
  listed : ∀ (id : String) (r : Record), S.records[id]? = some r → r.parentId ≠ "" →
    ∃ (p : Record) (m : Member), S.records[r.parentId]? = some p ∧
      p.container.members.filter (·.id = id) = [m] ∧ m.type = .container
  rooted : ∀ (id : String) (r : Record), S.records[id]? = some r →
    ∃ chain, S.contents.shape.Chain id chain ∧ chain.Nodup ∧ chain.length ≤ maxDepth
  loads : ∀ (id : String) (r : Record), S.records[id]? = some r →
    Container.validate r.container = .ok () ∧ ∃ c, r.hydrate = .ok c

/-- In a list without repeated identifiers, an entry is the only one of its identifier. -/
theorem filter_id_eq_singleton {members : List Member} (nodup : (members.map Member.id).Nodup) {m : Member}
    (mem : m ∈ members) : members.filter (·.id = m.id) = [m] := by
  induction members with
  | nil => cases mem
  | cons n rest ih =>
    rw [List.map_cons, List.nodup_cons] at nodup
    rcases List.mem_cons.1 mem with rfl | mem
    · rw [List.filter_cons_of_pos (by simp), List.filter_eq_nil_iff.2]
      intro other there same
      exact nodup.1 (List.mem_map.2 ⟨other, there, of_decide_eq_true same⟩)
    · have other : n.id ≠ m.id := fun same => nodup.1 (List.mem_map.2 ⟨m, mem, same.symm⟩)
      rw [List.filter_cons_of_neg (by simpa using other)]
      exact ih nodup.2 mem

theorem Contents.Forest.hierarchical {S : MemoryStore} {depth : Nat} (forest : S.contents.Forest depth)
    (sane : S.contents.Sane) : S.Hierarchical depth := by
  constructor
  · intro id r found up
    obtain ⟨p, parent, m, mem, rfl, type⟩ := forest.linked.exists_parent found up
    exact ⟨p, m, parent, filter_id_eq_singleton (sane.record parent).2.nodup mem, type⟩
  · intro id r found
    have stored : (S.contents.shape id).isSome := Contents.isSome_shape.2 (MemoryStore.isSome_contents found)
    obtain ⟨chain, walk, bound⟩ := forest.bounded id stored
    exact ⟨chain, walk, walk.nodup, bound⟩
  · intro id r found
    have valid := (sane.record found).2
    exact ⟨Container.validate_eq_ok_iff.2 valid, Record.exists_hydrate valid⟩

/-- After any calls on an empty repository the stored containers form a forest of bounded depth. -/
theorem Holdings.Reaches.bounded_forest {settings : Settings} {ix : Index} {h : Holdings}
    (positive : 1 ≤ settings.limits.maxDepth)
    (reached : Holdings.Reaches settings (fun _ => False) { index := ix } h) :
    h.store.Hierarchical settings.limits.maxDepth := by
  have empty : ({} : MemoryStore).contents.Forest settings.limits.maxDepth := by
    rw [MemoryStore.contents_empty]
    exact Contents.forest_empty
  have forest := reached.forest (fun _ impossible => impossible.elim) positive MemoryStore.sane_empty empty
  exact forest.hierarchical (reached.sane MemoryStore.sane_empty)

theorem sampleCalls_hierarchical :
    ∃ h, (World.after {} default sampleCalls).Holds h ∧ h.store.Hierarchical 256 := by
  obtain ⟨h, holds, reached⟩ := sampleCalls_reach
  exact ⟨h, holds, reached.bounded_forest (by decide)⟩

end Containment
