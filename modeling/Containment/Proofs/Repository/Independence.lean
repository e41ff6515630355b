/-
Module: Containment.Proofs.Repository.Independence
Purpose: Calls that change one container each, made one after the other in two orders that differ only in how the
  calls of different containers alternate. Each container sees the same either way: its calls end alike, and it ends
  with the same record and the same list of members, apart from times and the numbers of rows.
Main exports: World.replies, Interleaved, World.Alike.replay,
  Holdings.Arises.containers_independent
-/
import Containment.Proofs.Repository.Arising
import Containment.Proofs.Repository.Beside

namespace Containment

open Containment.Action

/-- The calls made in a world one after the other, each with its outcome. -/
def World.log (settings : Settings) : World → List (Option Cancellation × Call) → List (Call × Outcome)
  | _, [] => []
  | w, (status, call) :: rest =>
    let (outcome, w) := (call.program settings).run status w
    (call, outcome) :: w.log settings rest

/-- What a container sees of calls made one after the other: those that change it, and how each ends, apart from
times. -/
def World.replies (settings : Settings) (w : World) (c : String) (calls : List (Option Cancellation × Call)) :
    List (Call × Outcome) :=
  ((w.log settings calls).filter fun done => done.1.changed? == some c).map fun (call, outcome) =>
    (call, outcome.map Reply.timeless)

/-- Of some calls, those that change a container. -/
def callsOn (c : String) (calls : List (Option Cancellation × Call)) : List (Option Cancellation × Call) :=
  calls.filter fun entry => entry.2.changed? == some c

/-- Two lists of calls that change one container each, and that keep the same order for every container. -/
structure Interleaved (calls calls' : List (Option Cancellation × Call)) : Prop where
  single : ∀ entry ∈ calls, entry.2.changed?.isSome
  single' : ∀ entry ∈ calls', entry.2.changed?.isSome
  same : ∀ c, callsOn c calls = callsOn c calls'

namespace World

variable {settings : Settings} {c d : String} {w w' : World} {status : Option Cancellation} {call : Call}
  {rest : List (Option Cancellation × Call)}

theorem replies_cons_self (about : call.changed? = some c) : w.replies settings c ((status, call) :: rest) =
    (call, ((call.program settings).run status w).1.map Reply.timeless) ::
      ((call.program settings).run status w).2.replies settings c rest := by
  simp [replies, log, about]

theorem replies_cons_of_ne (about : call.changed? = some d) (ne : d ≠ c) :
    w.replies settings c ((status, call) :: rest) =
      ((call.program settings).run status w).2.replies settings c rest := by
  simp [replies, log, about, ne]

/-- A call on one container does not matter to what the others show. -/
theorem Alike.beside (alike : w.Alike c w') (about : call.changed? = some d) (ne : c ≠ d) :
    ((call.program settings).run status w).2.Alike c w' := by
  obtain ⟨h, h', holds, holds', clean, clean', same⟩ := alike
  obtain ⟨h₁, run, holds₁, clean₁⟩ := Program.run_undisturbed status (call.program settings) holds clean
  have next : h.Beside d h₁ := Call.beside about same.sane _ _ _ run
  obtain ⟨held, held', known, known', rows⟩ := same.rows
  obtain ⟨held₁, known₁, kept⟩ := next.rows c ne held known
  refine ⟨h₁, h', holds₁, holds', clean₁, clean', next.sane, same.sane', ?_, ?_, held₁, held', known₁, known', ?_⟩
  · exact next.shape.trans same.shape
  · rw [next.records c ne]
    exact same.record
  · rw [← rows]
    simp only [Catalogue.outline, kept]

/-- A container sees the same if all calls on others are left out. -/
theorem Alike.replay (settings : Settings) (calls : List (Option Cancellation × Call)) (alike : w.Alike c w')
    (single : ∀ entry ∈ calls, entry.2.changed?.isSome) :
    w.replies settings c calls = w'.replies settings c (callsOn c calls) ∧
      (w.after settings calls).Alike c (w'.after settings (callsOn c calls)) := by
  induction calls generalizing w w' with
  | nil => exact ⟨rfl, alike⟩
  | cons entry rest ih =>
    obtain ⟨status, call⟩ := entry
    have others : ∀ entry ∈ rest, entry.2.changed?.isSome := fun entry mem => single entry (List.mem_cons_of_mem _ mem)
    obtain ⟨d, about⟩ := Option.isSome_iff_exists.1 (single (status, call) List.mem_cons_self)
    by_cases same : d = c
    · subst same
      obtain ⟨matched, next⟩ := Call.agrees about status w w' alike
      obtain ⟨replies, after⟩ := ih next others
      have chosen : callsOn d ((status, call) :: rest) = (status, call) :: callsOn d rest := by simp [callsOn, about]
      rw [chosen, replies_cons_self about, replies_cons_self about]
      exact ⟨congrArg₂ List.cons (congrArg (Prod.mk call) matched.map_eq) replies, after⟩
    · have chosen : callsOn c ((status, call) :: rest) = callsOn c rest := by simp [callsOn, about, same]
      rw [chosen, replies_cons_of_ne about same]
      exact ih (alike.beside about (Ne.symm same)) others

/-- Worlds that hold the same show the same of every container. -/
theorem Holds.alike {h : Holdings} (holds : w.Holds h) (holds' : w'.Holds h) (clean : w.faults = [])
    (clean' : w'.faults = []) (sane : h.store.contents.Sane) (indexed : h.Indexed) (c : String) : w.Alike c w' := by
  obtain ⟨lists, m, kept, wf, -⟩ := indexed
  exact ⟨h, h, holds, holds', clean, clean', sane, sane, rfl, rfl, m.catalogue, m.catalogue, ⟨m, kept, wf, rfl⟩,
    ⟨m, kept, wf, rfl⟩, rfl⟩

theorem Alike.record {g g' : Holdings} (alike : w.Alike c w') (holds : w.Holds g) (holds' : w'.Holds g') :
    g.store.records[c]?.map Record.timeless = g'.store.records[c]?.map Record.timeless := by
  obtain ⟨h, h', other, other', -, -, same⟩ := alike
  have store : h.store = g.store := Store.memory.inj (other.store.symm.trans holds.store)
  have store' : h'.store = g'.store := Store.memory.inj (other'.store.symm.trans holds'.store)
  rw [← store, ← store']
  exact same.record

/-- A page of the members of a container, in the order of insertion or of identifiers. -/
theorem Alike.listing {options : ListOptions} (alike : w.Alike c w') (untimed : options.sort ≠ .newestFirst) :
    (((Call.listMembers c options).program settings).run none w).1.map Reply.timeless =
      (((Call.listMembers c options).program settings).run none w').1.map Reply.timeless := by
  have agrees : ((Call.listMembers c options).action settings).Agrees none c
      ((Call.listMembers c options).action settings) fun reply reply' => reply.timeless = reply'.timeless := by
    apply Agrees.map
    exact Repository.agrees_listMembers untimed
  exact (agrees w w' alike).1.map_eq

end World

/-- From any state that arises, let calls that change one container each be made one after the other in two orders
that are the same for every container. Then every call ends alike, and every container ends with the same record and
lists the same members, apart from times and the numbers of rows. -/
theorem Holdings.Arises.containers_independent {settings : Settings} {h : Holdings} {w w' : World}
    {calls calls' : List (Option Cancellation × Call)} (arises : h.Arises settings) (holds : w.Holds h)
    (holds' : w'.Holds h) (clean : w.faults = []) (clean' : w'.faults = [])
    (interleaved : Interleaved calls calls') :
    (∀ c, w.replies settings c calls = w'.replies settings c calls') ∧
      (∃ g g', (w.after settings calls).Holds g ∧ (w'.after settings calls').Holds g' ∧
        ∀ c : String, g.store.records[c]?.map Record.timeless = g'.store.records[c]?.map Record.timeless) ∧
      ∀ (c : String) (options : ListOptions), options.sort ≠ .newestFirst →
        (((Call.listMembers c options).program settings).run none (w.after settings calls)).1.map Reply.timeless =
          (((Call.listMembers c options).program settings).run none (w'.after settings calls')).1.map
            Reply.timeless := by
  have one := fun c => (holds.alike holds' clean clean' arises.sane arises.indexed c).replay settings calls
    interleaved.single
  have other := fun c => (holds'.alike holds' clean' clean' arises.sane arises.indexed c).replay settings
    calls' interleaved.single'
  refine ⟨fun c => ?_, ?_, fun c options untimed => ?_⟩
  · rw [(one c).1, (other c).1, interleaved.same]
  · obtain ⟨g, found, -⟩ := World.Holds.arises_after calls holds clean arises
    obtain ⟨g', found', -⟩ := World.Holds.arises_after calls' holds' clean' arises
    refine ⟨g, g', found, found', fun c => ?_⟩
    obtain ⟨k, between, -⟩ := World.Holds.arises_after (callsOn c calls) holds' clean' arises
    have last : (w'.after settings calls').Alike c (w'.after settings (callsOn c calls)) :=
      interleaved.same c ▸ (other c).2
    rw [(one c).2.record found between, last.record found' between]
  · rw [(one c).2.listing untimed, (other c).2.listing untimed, interleaved.same]

/-- Additions, a removal and a change of properties, first all on one container, then on the other. -/
def groupedCalls : List (Option Cancellation × Call) :=
  [(none, .addMember "a" "x.txt"), (none, .removeMember "a" "x.txt"), (none, .addMember "b" "a"),
    (some .cancelled, .addMember "b" "x.txt"), (none, .updateMetadata "b" { remove := ["dcterms:title"] })]

/-- The same calls, on both containers in turn. -/
def alternatingCalls : List (Option Cancellation × Call) :=
  [(none, .addMember "b" "a"), (none, .addMember "a" "x.txt"), (some .cancelled, .addMember "b" "x.txt"),
    (none, .removeMember "a" "x.txt"), (none, .updateMetadata "b" { remove := ["dcterms:title"] })]

theorem interleaved_sample : Interleaved groupedCalls alternatingCalls := by
  refine ⟨by simp [groupedCalls, Call.changed?], by simp [alternatingCalls, Call.changed?], fun c => ?_⟩
  by_cases a : "a" = c
  · subst a
    simp [callsOn, groupedCalls, alternatingCalls, Call.changed?]
  · by_cases b : "b" = c
    · subst b
      simp [callsOn, groupedCalls, alternatingCalls, Call.changed?]
    · simp [callsOn, groupedCalls, alternatingCalls, Call.changed?, a, b]

theorem sample_containers_independent :
    ∃ w : World, w = World.after {} default sampleCalls ∧
      (∀ c, w.replies {} c groupedCalls = w.replies {} c alternatingCalls) ∧
      ∃ g g', (w.after {} groupedCalls).Holds g ∧ (w.after {} alternatingCalls).Holds g' ∧
        ∀ c : String, g.store.records[c]?.map Record.timeless = g'.store.records[c]?.map Record.timeless := by
  obtain ⟨h, holds, clean, arises⟩ := World.Holds.arises_after sampleCalls (w := default) ⟨rfl, rfl⟩ rfl
    (Holdings.Arises.empty : Holdings.Arises {} {})
  obtain ⟨replies, records, -⟩ := arises.containers_independent holds holds clean clean interleaved_sample
  exact ⟨_, rfl, replies, records⟩

end Containment
