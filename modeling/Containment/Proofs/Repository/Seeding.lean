/-
Module: Containment.Proofs.Repository.Seeding
Purpose: What a creation puts into the index. The record of a new container has all members that it came with, but its
  partition starts without rows, so that pages and counts show none of them and a comparison misses each one. Store and
  index agree on a new container just if it came without members.
Main exports: Action.Yields, Holdings.Seeded, Repository.yields_create, Call.create_seeds_nothing
-/
import Containment.Proofs.Repository.Arising
import Containment.Proofs.Repository.Beside
import Containment.Proofs.Repository.Reading

namespace Containment

open Containment.Action

namespace Action

variable {α β : Type} {h : Holdings} {x : Action α} {f : α → Action β} {P : α → Holdings → Prop}
  {Q : β → Holdings → Prop}

/-- Whatever fails on the way: if the program succeeds, its answer and what is held then are as `P` says. -/
def Yields (x : Action α) (h : Holdings) (P : α → Holdings → Prop) : Prop :=
  x.Ensures h fun _ out h' => ∀ a, out = .ok a → P a h'

theorem yields_pure {a : α} (good : P a h) : (pure a : Action α).Yields h P := by
  apply ensures_pure
  rintro _ ⟨⟩
  exact good

theorem yields_throw (e : RepositoryError) : (throw e : Action α).Yields h P :=
  ensures_throw fun _ impossible => by cases impossible

theorem Yields.bind (first : x.Yields h P) (second : ∀ a h₁, P a h₁ → (f a).Yields h₁ Q) : (x >>= f).Yields h Q :=
  Ensures.bind first (fun _ a h₁ good => second a h₁ (good a rfl)) fun _ _ _ _ _ impossible => by cases impossible

theorem Reads.yields_bind {R : α → Prop} (reads : x.Reads h R) (next : ∀ a, R a → (f a).Yields h Q) :
    (x >>= f).Yields h Q :=
  reads.ensures_bind (fun _ _ _ _ impossible => by cases impossible) next

/-- What is done before giving up does not matter. -/
theorem yields_bind_throw (x : Action β) (e : RepositoryError) : (x >>= fun _ => throw e : Action α).Yields h P :=
  Yields.bind (P := fun _ _ => True) (fun _ _ _ _ _ _ => trivial) fun _ _ _ => yields_throw e

theorem Yields.map {g : α → β} (yields : x.Yields h fun a => Q (g a)) : (g <$> x).Yields h Q := by
  rw [map_eq_pure_bind]
  exact yields.bind fun a h₁ good => yields_pure good

theorem Yields.withLock {lock : LockName} {mode : Mode} (yields : x.Yields h P) :
    (withLock lock mode x).Yields h P :=
  ensures_withLock (fun _ _ impossible => by cases impossible) yields

theorem Yields.withContainers {ids : List String} (yields : x.Yields h P) : (withContainers ids x).Yields h P :=
  ensures_withContainers (fun _ _ impossible => by cases impossible) yields

/-- A handler that passes the error on does not matter. -/
theorem Yields.onError {handler : RepositoryError → Action Unit} (yields : x.Yields h P) :
    (onError x handler).Yields h P := by
  refine Ensures.tryCatch (Ensures.mono yields fun early out h₁ good => ?_)
  cases out with
  | ok a => exact good
  | error e => exact yields_bind_throw (handler e) e

theorem yields_publish {events : List Event} {Q : α → Holdings → Prop} {f : Unit → Action α}
    (next : (f ()).Yields { h with published := h.published ++ events } Q) : (publish events >>= f).Yields h Q :=
  ensures_publish next

end Action

/-- A container is stored with all its members, and its partition has no rows. -/
structure Holdings.Seeded (c : Container) (h : Holdings) : Prop where
  stored : h.store.records[c.id]? = some (.first c)
  empty : ∃ held, h.index.Catalogued held ∧ held[c.id]? = some []

namespace Repository

variable {h : Holdings} {limits : Limits} {c : Container} {id : String}

/-- Emptying a partition, and what is done with its outcome. -/
theorem yields_emptied {held : Catalogue} (known : h.index.Catalogued held) {f : Except IndexError Unit → Action Unit}
    {P : Unit → Holdings → Prop}
    (done : ∀ h', h'.store = h.store → (∃ held, h'.index.Catalogued held ∧ held[id]? = some []) →
      (f (.ok ())).Yields h' P)
    (failed : ∀ e h', (f (.error e)).Yields h' P) : (tryIndex (.replacePartition id []) >>= f).Yields h P := by
  obtain ⟨last, answer, after⟩ := known.perform (.replacePartition id [])
  apply ensures_tryIndex
  · rw [answer]
    exact done _ rfl ⟨_, after, Std.ExtTreeMap.getElem?_insert_self⟩
  · exact fun e => failed e h

/-- The partition of a new container has no rows, whether it is new or left over. -/
theorem yields_seedPartition {held : Catalogue} (known : h.index.Catalogued held) :
    (seedPartition id).Yields h fun _ h' => h'.store = h.store ∧
      ∃ held, h'.index.Catalogued held ∧ held[id]? = some [] := by
  obtain ⟨last, answer, after⟩ := known.perform (.createPartition id)
  apply ensures_tryIndex
  · split
    · rename_i created
      rw [answer] at created
      refine yields_pure ⟨rfl, _, after, ?_⟩
      simp only [Catalogue.perform] at created ⊢
      by_cases present : held.contains id = true
      · rw [if_pos present] at created
        cases created
      · rw [if_neg present]
        exact Std.ExtTreeMap.getElem?_insert_self
    · exact yields_emptied after (fun h' same empty => yields_pure ⟨same, empty⟩) fun e h' => yields_throw _
    · exact yields_throw _
  · intro e
    split
    · rename_i impossible
      cases impossible
    · exact yields_emptied known (fun h' same empty => yields_pure ⟨same, empty⟩) fun e h' => yields_throw _
    · exact yields_throw _

/-- A new container and the row for it in its parent. -/
theorem yields_storePrepared {time : Time.Instant} {parent : Option (Record × Container)} {held : Catalogue}
    (known : h.index.Catalogued held) (absent : h.store.contents c.id = none)
    (unused : h.store.retired.contains c.id = false)
    (ready : ∀ p ∈ parent, p.1.id ≠ c.id ∧
      Prepared h.store p.1 p.2 (some (.insert { id := c.id, type := .container, addedAt := time }))) :
    (storePrepared c time parent).Yields h fun created h' => created = c.takeEvents.2 ∧ h'.Seeded c := by
  simp only [storePrepared]
  refine reads_checkContext.yields_bind ?_
  intro _ _
  refine (yields_seedPartition known).bind ?_
  rintro _ h₁ ⟨store₁, held₁, known₁, empty₁⟩
  have absent₁ : h₁.store.contents c.id = none := store₁ ▸ absent
  have unused₁ : h₁.store.retired.contains c.id = false := store₁ ▸ unused
  have inserted : (insertNew c).Yields h₁ fun _ h' => h'.store = h₁.store.put (.first c) ∧ h'.index = h₁.index := by
    refine (ensures_insertNew absent₁ unused₁).mono ?_
    rintro fails out h' ⟨-, ended⟩ a rfl
    exact ended.2
  refine inserted.bind ?_
  rintro _ h₂ ⟨store₂, index₂⟩
  have seeded₂ : h₂.Seeded c := by
    constructor
    · rw [store₂]
      exact MemoryStore.records_put_self (.first c)
    · rw [index₂]
      exact ⟨held₁, known₁, empty₁⟩
  have reported : ∀ {h₃ : Holdings} (events : List Event), h₃.Seeded c →
      (publish events >>= fun _ => pure c.takeEvents.2).Yields h₃ fun created h' =>
        created = c.takeEvents.2 ∧ h'.Seeded c :=
    fun events seeded => yields_publish (yields_pure ⟨rfl, seeded.stored, seeded.empty⟩)
  cases parent with
  | none => exact reported _ seeded₂
  | some p =>
    obtain ⟨apart, prepared⟩ := ready p rfl
    have prepared₂ : Prepared h₂.store p.1 p.2
        (some (.insert { id := c.id, type := .container, addedAt := time })) := by
      rw [store₂, store₁]
      exact prepared.put (Ne.symm apart)
    have listed : (commit p.1 p.2 [.insert { id := c.id, type := .container, addedAt := time }]).Yields h₂
        fun _ h' => h'.Seeded c := by
      intro fails out h₃ run a succeeded
      obtain ⟨-, ended⟩ := ensures_commit prepared₂ fails out h₃ run
      rw [succeeded] at ended
      obtain ⟨rfl, -, store₃, -⟩ := ended
      have finishes : (commit p.1 p.2 [.insert { id := c.id, type := .container, addedAt := time }]).Finishes
          (Effect.Within (· = p.1.id) (fun _ => False) fun _ => False) := finishes_commit prepared₂.own _
      have beside : h₂.RowsBeside p.1.id h₃ :=
        finishes.runs (Holdings.RowsBeside.refl p.1.id) (fun _ _ _ => Holdings.RowsBeside.trans)
          (fun _ _ _ _ _ => Holdings.Answers.rowsBeside) run
      obtain ⟨held₂, known₂, empty₂⟩ := seeded₂.empty
      obtain ⟨held₃, known₃, same⟩ := beside c.id (Ne.symm apart) held₂ known₂
      constructor
      · have next_apart : (p.1.next p.2).id ≠ c.id := fun same => apart (prepared₂.own.symm.trans same)
        rw [store₃, MemoryStore.records_put_of_ne next_apart]
        exact seeded₂.stored
      · exact ⟨held₃, known₃, same.trans empty₂⟩
    refine listed.onError.bind ?_
    exact fun _ h₃ seeded => reported _ seeded

theorem yields_createHeld {held : Catalogue} (known : h.index.Catalogued held) (sane : h.store.contents.Sane)
    (valid : c.toSnapshot.Valid) :
    (createHeld limits c).Yields h fun created h' => created = c.takeEvents.2 ∧ h'.Seeded c := by
  refine ensures_createHeld_of ?_ fun _ _ absent unused ready =>
    yields_storePrepared known absent unused (ready.prepared sane valid)
  intro fails e _ a impossible
  cases impossible

/-- A creation that succeeds stores the container with all its members and leaves its partition without rows. -/
theorem yields_create {held : Catalogue} (known : h.index.Catalogued held) (sane : h.store.contents.Sane) :
    (create limits c).Yields h fun created h' => created = c.takeEvents.2 ∧ h'.Seeded c := by
  simp only [create]
  refine reads_ofContainer.yields_bind ?_
  intro _ accepted
  exact (yields_createHeld known sane (Container.validate_eq_ok_iff.1 accepted)).withContainers.withLock

end Repository

/-! ### What readers find of it -/

/-- Of a partition without rows, only its length and the missing rows can be told. -/
theorem Divergence.tells_nil_iff {d : Divergence} {stored : List Member} :
    d.Tells stored [] ↔ (stored ≠ [] ∧ d = .countMismatch d.container stored.length 0) ∨
      ∃ m ∈ stored, d = .missingRow d.container m.id := by
  cases d with
  | countMismatch c primary index =>
    simp only [Tells, container, countMismatch.injEq, true_and, reduceCtorEq, and_false, exists_const, or_false,
      List.length_nil]
    constructor
    · rintro ⟨rfl, rfl, ne⟩
      exact ⟨fun none => ne (congrArg List.length none), rfl, rfl⟩
    · rintro ⟨some, rfl, rfl⟩
      exact ⟨rfl, rfl, fun none => some (List.length_eq_zero_iff.1 none)⟩
  | missingRow c member => simp [Tells, container, eq_comm]
  | _ => simp [Tells]

/-- How a container shows that has a partition without rows: its record has all its members, pages and counts have none
of them, and a comparison finds that they are missing. -/
structure World.Unindexed (settings : Settings) (w : World) (c : Container) : Prop where
  record : ∃ found, ((Call.get c.id).program settings).run none w = (.ok (.container found), w) ∧
    found.toSnapshot = c.toSnapshot
  count : ∀ type, ((Call.countMembers c.id type).program settings).run none w = (.ok (.count 0), w)
  pages : ∀ options, ∃ page, ((Call.listMembers c.id options).program settings).run none w = (.ok (.page page), w) ∧
    page.entries = [] ∧ page.total = 0
  report : ∃ report, (Call.verify.program settings).run none w = (.ok (.report report), w) ∧
    ∀ d, d.container = c.id → (d ∈ report.divergences ↔
      (c.members ≠ [] ∧ d = .countMismatch c.id c.members.length 0) ∨ ∃ m ∈ c.members, d = .missingRow c.id m.id)

theorem Index.Catalogued.keeps {ix : Index} {held : Catalogue} (known : ix.Catalogued held) : ix.Keeps held := by
  obtain ⟨m, rfl, wf, rfl⟩ := known
  exact .memory wf

theorem World.Serves.unindexed {settings : Settings} {w : World} {h : Holdings} {c : Container} (serves : w.Serves h)
    (sane : h.store.contents.Sane) (indexed : h.Indexed) (seeded : h.Seeded c) : w.Unindexed settings c := by
  obtain ⟨held, known, empty⟩ := seeded.empty
  have keeps : w.index.Keeps held := by
    rw [serves.holds.index]
    exact known.keeps
  have listed : ∃ lists, w.index.Lists lists := by
    rw [serves.holds.index]
    exact indexed
  constructor
  · obtain ⟨found, _, ended, hydrated, rfl⟩ :=
      (Repository.succeeds_get serves.readable serves.clean seeded.stored (sane.record seeded.stored).2).answers
        Reply.container
    exact ⟨found, ended, (Record.sound_of_hydrate hydrated).2.1⟩
  · intro type
    obtain ⟨_, _, ended, rfl, rfl⟩ :=
      (Repository.succeeds_countMembers serves.clean keeps empty type).answers Reply.count
    exact ended
  · intro options
    obtain ⟨page, _, ended, rfl, rfl⟩ :=
      (Repository.succeeds_listMembers serves.clean keeps empty settings.limits options).answers Reply.page
    exact ⟨_, ended, ListOptions.answer_query_eq_nil (.inr (Nat.zero_le _)), rfl⟩
  · obtain ⟨lists, listed⟩ := listed
    obtain ⟨report, _, ended, rfl, found⟩ :=
      (Repository.succeeds_verify serves.readable listed serves.clean).answers Reply.report
    refine ⟨report, ended, fun d about => ?_⟩
    rw [found, Divergence.IsReal, about, seeded.stored, keeps.rows empty]
    exact about ▸ Divergence.tells_nil_iff

/-- **A new container is indexed without the members that it came with.** Take any container, drawn as a draft
describes, in any state that calls lead to, and let a creation of it succeed, whatever requests failed on the way. Then
its record has all its members, but its partition has no rows. So readers that nothing disturbs get all the members
from the record, while pages and counts have none of them, and a comparison finds that they are missing. It finds
nothing of the container just if it came without members. -/
theorem Call.create_seeds_nothing {settings : Settings} {h h' : Holdings} {draft : Draft} {fails : List FaultPoint}
    {created : Container} (arises : h.Arises settings)
    (run : ((Call.create draft).program settings).Runs h fails (.ok (.container created)) h') :
    (∃ drawn, draft.Describes drawn ∧ created.toSnapshot = drawn.toSnapshot) ∧
      h'.store.records[created.id]? = some (.first created) ∧ h'.index.rows created.id = .ok [] ∧
      ∀ w : World, w.Serves h' → w.Unindexed settings created := by
  obtain ⟨lists, m, same, wf, -⟩ := arises.indexed
  have known : h.index.Catalogued m.catalogue := ⟨m, same, wf, rfl⟩
  have made : ((Call.create draft).action settings).Yields h fun reply h' =>
      ∃ drawn, draft.Describes drawn ∧ reply = .container drawn.takeEvents.2 ∧ h'.Seeded drawn := by
    refine (Repository.reads_draw draft).yields_bind ?_
    intro drawn describes
    refine Yields.map ((Repository.yields_create known arises.sane).mono ?_)
    rintro _ out h₁ good _ rfl
    obtain ⟨rfl, seeded⟩ := good _ rfl
    exact ⟨drawn, describes, rfl, seeded⟩
  obtain ⟨drawn, describes, answered, seeded⟩ := made _ _ _ run _ rfl
  obtain rfl : created = drawn.takeEvents.2 := by injection answered
  have later : h'.Arises settings := .call arises run
  obtain ⟨held, kept, empty⟩ := seeded.empty
  refine ⟨⟨drawn, describes, rfl⟩, seeded.stored, kept.keeps.rows empty, fun w serves => ?_⟩
  exact serves.unindexed later.sane later.indexed ⟨seeded.stored, seeded.empty⟩

/-- A container that two documents were put into before it is stored. -/
def filledSnapshot : Snapshot :=
  (recordListing "a" [("b.txt", .resource), ("c.png", .binary)]).container

/-- The answer to a creation of that container, and the world after it. -/
def filledCreation : Outcome × World :=
  ((Call.create (.restored filledSnapshot)).program {}).run none default

/-- The container that a call answered. -/
def Outcome.container? : Outcome → Option Container
  | .ok (.container c) => some c
  | _ => none

theorem Outcome.eq_of_container? {outcome : Outcome} {c : Container} (answered : outcome.container? = some c) :
    outcome = .ok (.container c) := by
  unfold Outcome.container? at answered
  split at answered
  · cases answered
    rfl
  · cases answered

/-- It is created. -/
theorem filledCreation_succeeds :
    ∃ created, filledCreation.1 = .ok (.container created) ∧ created.toSnapshot = filledSnapshot := by
  have answered : filledCreation.1.container?.map Container.toSnapshot = some filledSnapshot := by decide +kernel
  obtain ⟨created, same, stored⟩ := Option.map_eq_some_iff.1 answered
  exact ⟨created, Outcome.eq_of_container? same, stored⟩

theorem filledCreation_unindexed :
    ∃ created, filledCreation.1 = .ok (.container created) ∧ created.members.map Member.id = ["b.txt", "c.png"] ∧
      filledCreation.2.Unindexed {} created := by
  obtain ⟨h', run, holds⟩ :=
    Program.run_runs none ((Call.create (.restored filledSnapshot)).program {}) (w := default) (h := {}) ⟨rfl, rfl⟩
  obtain ⟨-, clean⟩ :=
    Program.failing_eq_nil none ((Call.create (.restored filledSnapshot)).program {}) (w := default) rfl
  obtain ⟨created, ended, same⟩ := filledCreation_succeeds
  change Program.Runs _ _ _ filledCreation.1 h' at run
  rw [ended] at run
  obtain ⟨-, -, -, shown⟩ := Call.create_seeds_nothing .empty run
  refine ⟨created, ended, ?_, shown _ ⟨holds, clean⟩⟩
  rw [congrArg Snapshot.members same]
  decide

/-- So not every creation that succeeds makes rows for the members of what it stores. -/
theorem not_create_repeats_members :
    ¬ ∀ {h h' : Holdings} {draft : Draft} {fails : List FaultPoint} {created : Container}, h.Arises {} →
      ((Call.create draft).program {}).Runs h fails (.ok (.container created)) h' →
      ∃ rows, h'.index.rows created.id = .ok rows ∧ rows.map IndexEntry.kind = created.members.map Member.kind := by
  intro repeated
  obtain ⟨h', run, holds⟩ :=
    Program.run_runs none ((Call.create (.restored filledSnapshot)).program {}) (w := default) (h := {}) ⟨rfl, rfl⟩
  obtain ⟨created, ended, same⟩ := filledCreation_succeeds
  change Program.Runs _ _ _ filledCreation.1 h' at run
  change filledCreation.2.Holds h' at holds
  rw [ended] at run
  obtain ⟨rows, shown, kinds⟩ := repeated .empty run
  have none : filledCreation.2.index.rows "a" = .ok [] := by decide +kernel
  rw [← holds.index, congrArg Snapshot.id same] at shown
  obtain rfl : rows = [] := Except.ok.inj (shown.symm.trans none)
  rw [congrArg Snapshot.members same] at kinds
  exact absurd kinds (by decide)

end Containment
