/-
Module: Containment.Proofs.Repository.Failures
Purpose: What failing requests can do to a repository. One failure in a call that ends with an error leaves no
  trace; failures of the index alone, however many, leave every call whole or undone in the store, and writing the
  index anew puts the rest right.
Main exports: Call.AllOrNothing, Holdings.Repairable, failures_leave_nothing_half_done
-/
import Containment.Proofs.Repository.Reachable
import Containment.Proofs.Repository.Repair

namespace Containment

/-- A call ends with its whole effect and its reports handed on, or with an error that leaves the contents of the
store as they were and nothing to report. -/
def Call.AllOrNothing (settings : Settings) (call : Call) (h : Holdings) (outcome : Outcome)
    (h' : Holdings) : Prop :=
  match outcome with
  | .ok reply => ∃ events, call.Effects settings h.store reply events h'.store ∧
      h'.published = h.published ++ events
  | .error _ => h.store.SameContents h'.store ∧ h'.published = h.published

/-- Nothing a caller could tell has changed: not the contents of the store, not the rows of the index, and nothing
was reported. -/
structure Holdings.Untouched (h h' : Holdings) : Prop where
  contents : h.store.SameContents h'.store
  rows : h.index.SameRows h'.index
  published : h'.published = h.published

/-- Without faults, writing the whole index anew succeeds, and a comparison with the store then finds nothing. -/
def Holdings.Repairable (settings : Settings) (h : Holdings) : Prop :=
  ∀ w : World, w.Holds h → w.faults = [] →
    ∃ summary report w', (Call.rebuildAll.program settings).run none w = (.ok (.summary summary), w') ∧
      ((Call.verify.program settings).run none w').1 = .ok (.report report) ∧ report.divergences = []

variable {settings : Settings} {call : Call} {h h' : Holdings} {fails : List FaultPoint}

theorem Repository.Verdict.untouched {e : RepositoryError} {point : FaultPoint}
    {effect : Reply → List Event → MemoryStore → Prop} (verdict : Verdict h effect [point] (.error e) h')
    (mirrored : h.Mirrored) : h.Untouched h' := by
  obtain ⟨same, lists⟩ := verdict.single rfl mirrored
  exact ⟨same, Index.Lists.sameRows mirrored lists, verdict.published⟩

theorem Repository.Verdict.allOrNothing {outcome : Outcome}
    (verdict : Verdict h (call.KeepsForest settings h.store) fails outcome h')
    (index : ∀ point ∈ fails, point.isIndex) : call.AllOrNothing settings h outcome h' := by
  cases outcome with
  | ok reply =>
    obtain ⟨events, ⟨effects, -⟩, published, -⟩ := verdict
    exact ⟨events, effects, published⟩
  | error e => exact ⟨verdict.contents index, verdict.published⟩

/-- However wrong the index is, writing it anew puts it right. -/
theorem Holdings.Indexed.repairable (indexed : h.Indexed) (sane : h.store.contents.Sane) :
    h.Repairable settings := by
  intro w holds clean
  obtain ⟨lists, m, kept, -, -⟩ := indexed
  have readable : w.store.ReadsAs h.store := holds.store ▸ Store.readsAs_memory h.store
  have valid : ∀ (id : String) (r : Record), h.store.records[id]? = some r → r.container.Valid :=
    fun id r stored => (sane.record stored).2
  obtain ⟨ix, rebuilt, mirrored⟩ :=
    Repository.rebuildAll_ends settings readable clean (holds.index.trans kept) valid
  obtain ⟨report, compared, nothing⟩ :=
    Repository.verify_ends settings (w := { w with index := ix }) readable clean mirrored
  exact ⟨_, report, _, rebuilt, congrArg Prod.fst compared, nothing⟩

/-- Failures never leave a change half done. In a state that calls can reach, whatever failed before, and in which
index and store agree, a call that ends with an error after just one failed request leaves everything untouched.
As long as only requests to the index fail, each call is whole or undone in the store, and the index can be put
right. -/
theorem failures_leave_nothing_half_done (settings : Settings) :
    (∀ (h h' : Holdings) (call : Call) (point : FaultPoint) (e : RepositoryError),
      Holdings.Reaches settings (fun _ => True) {} h → h.Agrees → call.IsOrdinary →
        (call.program settings).Runs h [point] (.error e) h' → h.Untouched h') ∧
      ∀ h : Holdings, Holdings.Reaches settings (fun point => point.isIndex) {} h → h.Repairable settings ∧
        ∀ (h' : Holdings) (call : Call) (fails : List FaultPoint) (outcome : Outcome), call.IsOrdinary →
          (∀ point ∈ fails, point.isIndex) → (call.program settings).Runs h fails outcome h' →
            call.AllOrNothing settings h outcome h' := by
  constructor
  · intro h h' call point e reached agrees ordinary run
    have sane := reached.sane MemoryStore.sane_empty
    have verdict := Call.ensures ordinary sane _ _ _ run
    exact verdict.untouched (agrees.mirrored (reached.indexed Holdings.indexed_empty))
  · intro h reached
    have sane := reached.sane MemoryStore.sane_empty
    refine ⟨(reached.indexed Holdings.indexed_empty).repairable sane, ?_⟩
    intro h' call fails outcome ordinary index run
    exact (Call.ensures ordinary sane _ _ _ run).allOrNothing index

/-- The world of the sample calls with faults planted. -/
def sampleWorld (faults : List Fault) : World :=
  { World.after {} default sampleCalls with faults }

/-- One refused row leaves the parent of a new container untouched. If the partition of the new container cannot be
dropped either, it is left over, until the index is written anew. -/
theorem sampleWorld_recovers :
    let creation : Call := .create (.new "e" "a" .basic none)
    let refused : Fault := { point := .index .insert }
    let stuck : Fault := { point := .index .dropPartition }
    (∃ h h', (sampleWorld [refused]).Holds h ∧
      ((creation.program {}).run none (sampleWorld [refused])).2.Holds h' ∧ h.Untouched h') ∧
      ∃ h, ((creation.program {}).run none (sampleWorld [refused, stuck])).2.Holds h ∧ h.Repairable {} := by
  intro creation refused stuck
  obtain ⟨h, ⟨store, index⟩, reached⟩ := sampleCalls_reach
  have always : Holdings.Reaches {} (fun _ => True) {} h := reached.mono fun _ impossible => impossible.elim
  have only : Holdings.Reaches {} (fun point => point.isIndex) {} h :=
    reached.mono fun _ impossible => impossible.elim
  have once : (creation.program {}).failing none (sampleWorld [refused]) = [.index .insert] := by decide +kernel
  have twice : (creation.program {}).failing none (sampleWorld [refused, stuck]) =
      [.index .insert, .index .dropPartition] := by decide +kernel
  have rejected : ((creation.program {}).run none (sampleWorld [refused])).1.toOption.isNone := by decide +kernel
  constructor
  · obtain ⟨h', run, holds'⟩ :=
      Program.run_runs none (creation.program {}) (w := sampleWorld [refused]) ⟨store, index⟩
    rw [once] at run
    refine ⟨h, h', ⟨store, index⟩, holds', ?_⟩
    cases out : ((creation.program {}).run none (sampleWorld [refused])).1 with
    | ok reply =>
      rw [out] at rejected
      cases rejected
    | error e =>
      rw [out] at run
      exact (failures_leave_nothing_half_done {}).1 h h' creation _ e always reached.index_agrees trivial run
  · obtain ⟨h', run, holds'⟩ :=
      Program.run_runs none (creation.program {}) (w := sampleWorld [refused, stuck]) ⟨store, index⟩
    rw [twice] at run
    have reached' : Holdings.Reaches {} (fun point => point.isIndex) {} h' :=
      .call only (show creation.IsOrdinary from trivial) (by simp [FaultPoint.isIndex]) run
    exact ⟨h', holds', ((failures_leave_nothing_half_done {}).2 h' reached').1⟩

end Containment
