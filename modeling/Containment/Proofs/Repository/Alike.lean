/-
Module: Containment.Proofs.Repository.Alike
Purpose: Calls that change one container, made in two worlds that show the same of this container, apart from times
  and the numbers of rows. They go through the same steps, end in the same way, and leave it showing the same again.
Main exports: Holdings.Alike, World.Alike, Action.Agrees, Action.Agrees.bind, agrees_load, agrees_commit,
  Reply.timeless, Call.changed?, Call.agrees
-/
import Containment.Proofs.Index.MemoryCatalogue
import Containment.Proofs.Index.Outline
import Containment.Proofs.Runs
import Containment.Proofs.Store.Contents
import Containment.Proofs.Repository.Effects
import Containment.Proofs.Undisturbed
import Containment.Repository.Call

namespace Containment

open Containment.Action Repository
open Function (update)
open Time

/-- The index is kept in memory, is in order, and has these rows. -/
def Index.Catalogued (ix : Index) (held : Catalogue) : Prop :=
  ∃ m : MemoryIndex, ix = .memory m ∧ m.WellFormed ∧ m.catalogue = held

theorem Index.Catalogued.perform {ix : Index} {held : Catalogue} (known : ix.Catalogued held) (call : IndexCall) :
    ∃ last, (ix.perform call).1 = (held.perform last call).1 ∧
      (ix.perform call).2.Catalogued (held.perform last call).2 := by
  obtain ⟨m, rfl, wf, rfl⟩ := known
  have performed := MemoryIndex.perform_catalogue wf call
  refine ⟨m.lastSeq, (congrArg Prod.fst performed).symm, (m.perform call).2, rfl, ?_, ?_⟩
  · exact MemoryIndex.perform_wellFormed wf call
  · exact (congrArg Prod.snd performed).symm

/-- Two repositories show the same of one container, apart from times and the numbers of rows. Of the others they
show the same parents. -/
structure Holdings.Alike (c : String) (h h' : Holdings) : Prop where
  sane : h.store.contents.Sane
  sane' : h'.store.contents.Sane
  shape : h.store.contents.shape = h'.store.contents.shape
  record : h.store.records[c]?.map Record.timeless = h'.store.records[c]?.map Record.timeless
  rows : ∃ held held', h.index.Catalogued held ∧ h'.index.Catalogued held' ∧ held.outline c = held'.outline c

/-- Two worlds without planted faults that show the same of one container, apart from times and the numbers of rows. -/
def World.Alike (c : String) (w w' : World) : Prop :=
  ∃ h h', w.Holds h ∧ w'.Holds h' ∧ w.faults = [] ∧ w'.faults = [] ∧ h.Alike c h'

/-- An index change without its member's time. -/
def IndexChange.timeless : IndexChange → IndexChange
  | .insert member => .insert member.timeless
  | .remove memberId => .remove memberId

/-- A reply without its times and the numbers of rows. -/
def Reply.timeless : Reply → Reply
  | .container c => .container c.timeless
  | .member m => .member m.timeless
  | .page p => .page { p with entries := p.entries.map IndexEntry.timeless }
  | reply => reply

namespace Action

variable {α β : Type} {status : Option Cancellation} {c : String}

/-- Both end with the same error, or both succeed with answers that belong together. -/
def Match (fit : α → α → Prop) : Except RepositoryError α → Except RepositoryError α → Prop
  | .ok a, .ok a' => fit a a'
  | .error e, .error e' => e = e'
  | _, _ => False

theorem Match.map_eq {g : α → β} {out out' : Except RepositoryError α}
    (matched : Match (fun a a' => g a = g a') out out') : out.map g = out'.map g := by
  cases out with
  | ok a =>
    cases out' with
    | ok a' => exact congrArg Except.ok matched
    | error e' => exact False.elim matched
  | error e =>
    cases out' with
    | ok a' => exact False.elim matched
    | error e' => exact congrArg Except.error matched

/-- Run alone in worlds that show the same of `c`, the two programs end alike and leave it so. -/
def Agrees (status : Option Cancellation) (c : String) (x x' : Action α) (fit : α → α → Prop) : Prop :=
  ∀ w w' : World, w.Alike c w' → Match fit (x.run.run status w).1 (x'.run.run status w').1 ∧
    (x.run.run status w).2.Alike c (x'.run.run status w').2

variable {x x' : Action α} {f f' : α → Action β} {fit : α → α → Prop} {fit' : β → β → Prop}

theorem agrees_pure {a a' : α} (fits : fit a a') : (pure a : Action α).Agrees status c (pure a') fit :=
  fun _ _ alike => ⟨fits, alike⟩

theorem agrees_throw (e : RepositoryError) : (throw e : Action α).Agrees status c (throw e) fit :=
  fun _ _ alike => ⟨rfl, alike⟩

theorem Agrees.bind (first : x.Agrees status c x' fit)
    (second : ∀ a a', fit a a' → (f a).Agrees status c (f' a') fit') : (x >>= f).Agrees status c (x' >>= f') fit' := by
  intro w w' alike
  have split : ∀ (x : Action α) (f : α → Action β) (w : World), (x >>= f).run.run status w =
      (ExceptT.bindCont f (x.run.run status w).1).run status (x.run.run status w).2 :=
    fun x f w => Program.run_bind status x.run (ExceptT.bindCont f) w
  obtain ⟨matched, alike₁⟩ := first w w' alike
  rw [split, split]
  revert matched alike₁
  rcases x.run.run status w with ⟨e | a, w₁⟩
  · rcases x'.run.run status w' with ⟨e' | a', w₁'⟩
    · exact fun matched alike₁ => ⟨matched, alike₁⟩
    · exact fun matched _ => False.elim matched
  · rcases x'.run.run status w' with ⟨e' | a', w₁'⟩
    · exact fun matched _ => False.elim matched
    · exact fun matched alike₁ => second a a' matched w₁ w₁' alike₁

theorem Agrees.mono {weaker : α → α → Prop} (agrees : x.Agrees status c x' fit)
    (imp : ∀ a a', fit a a' → weaker a a') : x.Agrees status c x' weaker := by
  intro w w' alike
  obtain ⟨matched, next⟩ := agrees w w' alike
  refine ⟨?_, next⟩
  revert matched
  rcases (x.run.run status w).1 with e | a
  · rcases (x'.run.run status w').1 with e' | a'
    · exact id
    · exact id
  · rcases (x'.run.run status w').1 with e' | a'
    · exact id
    · exact imp a a'

theorem Agrees.map {g : α → β} (agrees : x.Agrees status c x' fun a a' => fit' (g a) (g a')) :
    (g <$> x).Agrees status c (g <$> x') fit' := by
  rw [map_eq_pure_bind, map_eq_pure_bind]
  exact agrees.bind fun a a' fits => agrees_pure fits

/-- Whether a lock is had depends on the context alone. -/
theorem Agrees.withLock {lock : LockName} {mode : Mode} (agrees : x.Agrees status c x' fit) :
    (withLock lock mode x).Agrees status c (withLock lock mode x') fit := by
  intro w w' alike
  cases status with
  | some reason => exact ⟨rfl, alike⟩
  | none =>
    have same : ∀ (x : Action α) (w : World), (Action.withLock lock mode x).run.run none w = x.run.run none w :=
      fun x w => Program.run_bind none x.run _ w
    rw [same, same]
    exact agrees w w' alike

theorem agrees_checkContext : checkContext.Agrees status c checkContext fun _ _ => True := by
  intro w w' alike
  cases status with
  | some reason => exact ⟨rfl, alike⟩
  | none => exact ⟨trivial, alike⟩

/-- A step of a container that is taken alike, with what came of it. -/
theorem agrees_ofContainer {g : α → β} {outcome outcome' : Except ContainerError α}
    (same : outcome.map g = outcome'.map g) : (ofContainer outcome).Agrees status c (ofContainer outcome')
      fun a a' => outcome = .ok a ∧ outcome' = .ok a' ∧ g a = g a' := by
  cases outcome with
  | error e =>
    cases outcome' with
    | error e' =>
      cases same
      exact agrees_throw _
    | ok a' => cases same
  | ok a =>
    cases outcome' with
    | error e' => cases same
    | ok a' => exact agrees_pure ⟨rfl, rfl, Except.ok.inj same⟩

/-! ### Requests -/

theorem agrees_now : now.Agrees status c now fun _ _ => True := by
  intro w w' alike
  obtain ⟨h, h', ⟨store, index⟩, ⟨store', index'⟩, clean, clean', same⟩ := alike
  exact ⟨trivial, h, h', ⟨store, index⟩, ⟨store', index'⟩, clean, clean', same⟩

/-- What is handed on makes no difference to store and index. -/
theorem agrees_publish (events events' : List Event) :
    (publish events).Agrees status c (publish events') fun _ _ => True := by
  have kept : ∀ (events : List Event) (w : World), ((publish events).run.run status w).1 = .ok () ∧
      ((publish events).run.run status w).2.store = w.store ∧ ((publish events).run.run status w).2.index = w.index ∧
        ((publish events).run.run status w).2.faults = w.faults := by
    intro events w
    simp only [publish]
    split
    · exact ⟨rfl, rfl, rfl, rfl⟩
    · exact ⟨rfl, rfl, rfl, rfl⟩
  intro w w' alike
  obtain ⟨h, h', ⟨store, index⟩, ⟨store', index'⟩, clean, clean', same⟩ := alike
  obtain ⟨done, stored, indexed, faults⟩ := kept events w
  obtain ⟨done', stored', indexed', faults'⟩ := kept events' w'
  rw [done, done']
  exact ⟨trivial, h, h', ⟨stored.trans store, indexed.trans index⟩, ⟨stored'.trans store', indexed'.trans index'⟩,
    faults.trans clean, faults'.trans clean', same⟩

/-- Requests to the store that are answered and go on alike. -/
theorem agrees_store_bind {call call' : StoreCall} {f : Except StoreError call.Answer → Action β}
    {f' : Except StoreError call'.Answer → Action β}
    (alike : ∀ h h' : Holdings, h.Alike c h' →
      Holdings.Alike c { h with store := (h.store.perform call).2 } { h' with store := (h'.store.perform call').2 } ∧
        (f (h.store.perform call).1).Agrees status c (f' (h'.store.perform call').1) fit') :
    (tryStore call >>= f).Agrees status c (tryStore call' >>= f') fit' := by
  intro w w' given
  obtain ⟨h, h', holds, holds', clean, clean', same⟩ := given
  obtain ⟨next, goOn⟩ := alike h h' same
  have served : w.store.perform call = ((h.store.perform call).1, .memory (h.store.perform call).2) := by
    rw [holds.store]
    rfl
  have served' : w'.store.perform call' = ((h'.store.perform call').1, .memory (h'.store.perform call').2) := by
    rw [holds'.store]
    rfl
  change Match fit' ((f (w.answer (.store call)).1).run.run status (w.answer (.store call)).2).1
    ((f' (w'.answer (.store call')).1).run.run status (w'.answer (.store call')).2).1 ∧ _
  change _ ∧ World.Alike c ((f (w.answer (.store call)).1).run.run status (w.answer (.store call)).2).2
    ((f' (w'.answer (.store call')).1).run.run status (w'.answer (.store call')).2).2
  rw [World.answer_store clean served, World.answer_store clean' served']
  exact goOn _ _ ⟨{ h with store := (h.store.perform call).2 }, { h' with store := (h'.store.perform call').2 },
    ⟨rfl, holds.index⟩, ⟨rfl, holds'.index⟩, clean, clean', next⟩

/-- Requests to the index about `c` that are answered and go on alike. -/
theorem agrees_index_bind {call call' : IndexCall} {f : Except IndexError call.Answer → Action β}
    {f' : Except IndexError call'.Answer → Action β}
    (alike : ∀ (held held' : Catalogue) (last last' : Nat), held.outline c = held'.outline c →
      (held.perform last call).2.outline c = (held'.perform last' call').2.outline c ∧
        (f (held.perform last call).1).Agrees status c (f' (held'.perform last' call').1) fit') :
    (tryIndex call >>= f).Agrees status c (tryIndex call' >>= f') fit' := by
  intro w w' given
  obtain ⟨h, h', holds, holds', clean, clean', same⟩ := given
  obtain ⟨held, held', known, known', rows⟩ := same.rows
  obtain ⟨last, answer, after⟩ := known.perform call
  obtain ⟨last', answer', after'⟩ := known'.perform call'
  obtain ⟨rows₁, goOn⟩ := alike held held' last last' rows
  have served : w.index.perform call = ((held.perform last call).1, (h.index.perform call).2) := by
    rw [holds.index, ← answer]
  have served' : w'.index.perform call' = ((held'.perform last' call').1, (h'.index.perform call').2) := by
    rw [holds'.index, ← answer']
  change Match fit' ((f (w.answer (.index call)).1).run.run status (w.answer (.index call)).2).1
    ((f' (w'.answer (.index call')).1).run.run status (w'.answer (.index call')).2).1 ∧ _
  change _ ∧ World.Alike c ((f (w.answer (.index call)).1).run.run status (w.answer (.index call)).2).2
    ((f' (w'.answer (.index call')).1).run.run status (w'.answer (.index call')).2).2
  rw [World.answer_index clean served, World.answer_index clean' served']
  have next : Holdings.Alike c { h with index := (h.index.perform call).2 }
      { h' with index := (h'.index.perform call').2 } :=
    ⟨same.sane, same.sane', same.shape, same.record, _, _, after, after', rows₁⟩
  exact goOn _ _ ⟨{ h with index := (h.index.perform call).2 }, { h' with index := (h'.index.perform call').2 },
    ⟨holds.store, rfl⟩, ⟨holds'.store, rfl⟩, clean, clean', next⟩

/-- A question to the store whose answers belong together. -/
theorem agrees_store {call : StoreCall} {fit : call.Answer → call.Answer → Prop}
    (alike : ∀ h h' : Holdings, h.Alike c h' → ∃ a a', h.store.perform call = (.ok a, h.store) ∧
      h'.store.perform call = (.ok a', h'.store) ∧ fit a a') : (store call).Agrees status c (store call) fit := by
  apply agrees_store_bind
  intro h h' same
  obtain ⟨a, a', served, served', fits⟩ := alike h h' same
  rw [served, served']
  exact ⟨same, agrees_pure fits⟩

end Action

/-! ### The steps of calls -/

theorem MemoryStore.contains_eq_shape (S : MemoryStore) (id : String) :
    S.records.contains id = (S.contents.shape id).isSome := by
  rw [contains_records, Contents.shape, Option.isSome_map]

theorem Holdings.Alike.put {c : String} {h h' : Holdings} (alike : h.Alike c h') {r r' : Record}
    (same : r.timeless = r'.timeless) (own : r.id = c) (own' : r'.id = c) (valid : r.container.Valid)
    (valid' : r'.container.Valid) :
    Holdings.Alike c { h with store := h.store.put r } { h' with store := h'.store.put r' } := by
  have parents : r.container.parentId = r'.container.parentId := by
    have equal := congrArg (fun r => Record.parentId r) same
    exact equal
  constructor
  case rows => exact alike.rows
  case sane =>
    change (h.store.put r).contents.Sane
    rw [MemoryStore.contents_put]
    exact alike.sane.put valid
  case sane' =>
    change (h'.store.put r').contents.Sane
    rw [MemoryStore.contents_put]
    exact alike.sane'.put valid'
  case shape =>
    change (h.store.put r).contents.shape = (h'.store.put r').contents.shape
    rw [MemoryStore.contents_put, MemoryStore.contents_put, Contents.shape_update, Contents.shape_update, alike.shape,
      own, own', Option.map_some, Option.map_some, parents]
  case record =>
    change (h.store.put r).records[c]?.map _ = (h'.store.put r').records[c]?.map _
    rw [MemoryStore.records_put, MemoryStore.records_put, if_pos own, if_pos own', Option.map_some, Option.map_some,
      same]

namespace Repository

variable {α : Type} {status : Option Cancellation} {c member : String} {r r' : Record} {d d' : Container}

theorem agrees_read?_self : (read? c).Agrees status c (read? c) fun found found' =>
    found.map Record.timeless = found'.map Record.timeless ∧ (∀ r ∈ found, r.id = c) ∧ ∀ r' ∈ found', r'.id = c := by
  apply agrees_store
  intro h h' same
  exact ⟨_, _, rfl, rfl, same.record, fun r found => (same.sane.record found).1,
    fun r' found => (same.sane'.record found).1⟩

/-- Of the record of any container, the parent. -/
theorem agrees_read?_parent (id : String) : (read? id).Agrees status c (read? id) fun found found' =>
    found.map Record.parentId = found'.map Record.parentId := by
  have shown : ∀ S : MemoryStore, S.records[id]?.map Record.parentId = S.contents.shape id := by
    intro S
    rw [Contents.shape, MemoryStore.contents, Option.map_map]
    rfl
  apply agrees_store
  intro h h' same
  refine ⟨_, _, rfl, rfl, ?_⟩
  rw [shown, shown, same.shape]

theorem agrees_isStored (id : String) : (isStored id).Agrees status c (isStored id) (· = ·) := by
  apply agrees_store
  intro h h' same
  refine ⟨_, _, rfl, rfl, ?_⟩
  rw [MemoryStore.contains_eq_shape, MemoryStore.contains_eq_shape, same.shape]

theorem agrees_hydrate (same : r.timeless = r'.timeless) : (hydrate r).Agrees status c (hydrate r') fun d d' =>
    r.hydrate = .ok d ∧ r'.hydrate = .ok d' ∧ d.timeless = d'.timeless := by
  have alike := Record.hydrate_alike same
  simp only [hydrate]
  cases hydrated : r.hydrate with
  | error e =>
    rw [hydrated] at alike
    cases hydrated' : r'.hydrate with
    | error e' =>
      rw [hydrated'] at alike
      cases alike
      exact agrees_throw _
    | ok d' =>
      rw [hydrated'] at alike
      cases alike
  | ok d =>
    rw [hydrated] at alike
    cases hydrated' : r'.hydrate with
    | error e' =>
      rw [hydrated'] at alike
      cases alike
    | ok d' =>
      rw [hydrated'] at alike
      exact agrees_pure ⟨rfl, rfl, Except.ok.inj alike⟩

/-- The record and the container of `c`, loaded twice. -/
structure LoadedAlike (c : String) (loaded loaded' : Record × Container) : Prop where
  record : loaded.1.timeless = loaded'.1.timeless
  container : loaded.2.timeless = loaded'.2.timeless
  own : loaded.1.id = c
  own' : loaded'.1.id = c
  hydrated : loaded.1.hydrate = .ok loaded.2
  hydrated' : loaded'.1.hydrate = .ok loaded'.2

theorem agrees_load : (load c).Agrees status c (load c) (LoadedAlike c) := by
  simp only [load]
  apply agrees_read?_self.bind
  rintro found found' ⟨same, own, own'⟩
  cases found with
  | none =>
    cases found' with
    | none => exact agrees_throw _
    | some r' => cases same
  | some r =>
    cases found' with
    | none => cases same
    | some r' =>
      have record : r.timeless = r'.timeless := Option.some.inj same
      apply (agrees_hydrate record).bind
      rintro d d' ⟨hydrated, hydrated', container⟩
      exact agrees_pure ⟨record, container, own r rfl, own' r' rfl, hydrated, hydrated'⟩

/-! ### Committing -/

variable {change change' : Option IndexChange}

theorem agrees_attempt {change change' : IndexChange} (same : change.timeless = change'.timeless) :
    (attempt c change).Agrees status c (attempt c change') (· = ·) := by
  cases change with
  | insert m =>
    cases change' with
    | insert m' =>
      have alike : m.timeless = m'.timeless := IndexChange.insert.inj same
      apply agrees_index_bind
      intro held held' last last' rows
      obtain ⟨outcome, rows'⟩ := Catalogue.insert_alike rows alike
      exact ⟨rows', agrees_pure outcome⟩
    | remove id => cases same
  | remove id =>
    cases change' with
    | insert m' => cases same
    | remove id' =>
      cases same
      apply agrees_index_bind
      intro held held' last last' rows
      obtain ⟨outcome, rows'⟩ := Catalogue.remove_alike rows id
      exact ⟨rows', agrees_pure outcome⟩

theorem agrees_undoIndex (same : change.map IndexChange.timeless = change'.map IndexChange.timeless)
    {previous previous' : List Member} (alike : previous.map Member.timeless = previous'.map Member.timeless) :
    (undoIndex c change.toList previous).Agrees status c (undoIndex c change'.toList previous') fun _ _ => True := by
  cases change with
  | none =>
    cases change' with
    | none => exact agrees_pure trivial
    | some _ => cases same
  | some change =>
    cases change' with
    | none => cases same
    | some change' =>
      have same : change.timeless = change'.timeless := Option.some.inj same
      cases change with
      | insert m =>
        cases change' with
        | remove id' => cases same
        | insert m' =>
          have member : m.timeless = m'.timeless := IndexChange.insert.inj same
          have ids : m.id = m'.id := show m.timeless.id = m'.timeless.id by rw [member]
          simp only [undoIndex, Option.toList_some, List.isEmpty_cons, Bool.false_eq_true, if_false, List.all_cons,
            IndexChange.isInsert, List.all_nil, Bool.and_self, if_true, removeInserted]
          rw [ids]
          apply agrees_index_bind
          intro held held' last last' rows
          obtain ⟨outcome, rows'⟩ := @Catalogue.remove_alike held held' c last last' rows m'.id
          refine ⟨rows', ?_⟩
          split <;> split <;> exact agrees_pure trivial
      | remove id =>
        cases change' with
        | insert m' => cases same
        | remove id' =>
          simp only [undoIndex, Option.toList_some, List.isEmpty_cons, Bool.false_eq_true, if_false, List.all_cons,
            IndexChange.isInsert, List.all_nil, Bool.and_true]
          apply agrees_index_bind
          intro held held' last last' rows
          exact ⟨(Catalogue.replacePartition_alike rows alike).2, agrees_pure trivial⟩

theorem agrees_applyIndex (same : change.map IndexChange.timeless = change'.map IndexChange.timeless)
    (previous previous' : List Member) :
    (applyIndex c change.toList previous).Agrees status c (applyIndex c change'.toList previous')
      fun _ _ => True := by
  cases change with
  | none =>
    cases change' with
    | none => exact agrees_pure trivial
    | some _ => cases same
  | some change =>
    cases change' with
    | none => cases same
    | some change' =>
      simp only [applyIndex, Option.toList_some, applyFrom]
      apply (agrees_attempt (Option.some.inj same)).bind
      rintro outcome _ rfl
      cases outcome with
      | ok u => exact agrees_pure trivial
      | error e => exact agrees_throw _

/-- Replacing the record of `c` by records that differ in times. -/
theorem agrees_update_bind {next next' : Record} (same : next.timeless = next'.timeless) (own : next.id = c)
    (own' : next'.id = c) (valid : next.container.Valid) (valid' : next'.container.Valid) (expected : Nat)
    {f f' : Except StoreError Unit → Action α} {fit : α → α → Prop}
    (goOn : ∀ outcome, (f outcome).Agrees status c (f' outcome) fit) :
    (tryStore (.update next expected) >>= f).Agrees status c (tryStore (.update next' expected) >>= f') fit := by
  apply agrees_store_bind
  intro h h' alike
  change Holdings.Alike c { h with store := (h.store.update next expected).2 }
    { h' with store := (h'.store.update next' expected).2 } ∧
      (f (h.store.update next expected).1).Agrees status c (f' (h'.store.update next' expected).1) fit
  have record := alike.record
  unfold MemoryStore.update
  rw [own, own']
  cases found : h.store.records[c]? with
  | none =>
    rw [found] at record
    have found' : h'.store.records[c]? = none := Option.map_eq_none_iff.1 record.symm
    rw [found']
    exact ⟨alike, goOn _⟩
  | some current =>
    rw [found] at record
    obtain ⟨current', found', currentSame⟩ := Option.map_eq_some_iff.1 record.symm
    have revision : current'.revision = current.revision :=
      show current'.timeless.revision = current.timeless.revision by rw [currentSame]
    rw [found']
    simp only [revision]
    by_cases spoiled : current.revision ≠ expected
    · simp only [if_pos spoiled]
      exact ⟨alike, goOn _⟩
    · simp only [if_neg spoiled]
      have written := alike.put same own own' valid valid'
      simp only [MemoryStore.put, own, own'] at written
      exact ⟨written, goOn _⟩

/-- Containers that differ in times are committed alike. -/
theorem agrees_commit (record : r.timeless = r'.timeless) (container : d.timeless = d'.timeless) (own : d.id = c)
    (own' : d'.id = c) (valid : d.toSnapshot.Valid) (valid' : d'.toSnapshot.Valid)
    (same : change.map IndexChange.timeless = change'.map IndexChange.timeless) :
    (commit r d change.toList).Agrees status c (commit r' d' change'.toList) fun _ _ => True := by
  have revision : r.revision = r'.revision := show r.timeless.revision = r'.timeless.revision by rw [record]
  have members : r.container.members.map Member.timeless = r'.container.members.map Member.timeless :=
    show r.timeless.container.members = r'.timeless.container.members by rw [record]
  simp only [commit]
  rw [own, own']
  apply (agrees_applyIndex same _ _).bind
  intro _ _ _
  rw [revision]
  apply agrees_update_bind (Record.next_alike record container) own own' valid valid'
  intro outcome
  cases outcome with
  | ok u => exact agrees_pure trivial
  | error e =>
    apply (agrees_undoIndex same members).bind
    intro _ _ _
    exact agrees_throw _

/-! ### The calls -/

/-- What a change of one container ends with, once it is prepared. -/
theorem agrees_commit_publish {β : Type} {fit : β → β → Prop} {b b' : β} (record : r.timeless = r'.timeless)
    (container : d.timeless = d'.timeless) (own : d.id = c) (own' : d'.id = c) (valid : d.toSnapshot.Valid)
    (valid' : d'.toSnapshot.Valid) (same : change.map IndexChange.timeless = change'.map IndexChange.timeless)
    {events events' : List Event} (fits : fit b b') :
    (do let _ ← commit r d change.toList; publish events; pure b : Action β).Agrees status c
      (do let _ ← commit r' d' change'.toList; publish events'; pure b') fit := by
  apply (agrees_commit record container own own' valid valid' same).bind
  intro _ _ _
  apply (agrees_publish _ _).bind
  intro _ _ _
  exact agrees_pure fits

theorem agrees_classify (classifier : Classifier) : (classify classifier c member).Agrees status c
    (classify classifier c member) (· = ·) := by
  simp only [classify]
  apply (agrees_isStored member).bind
  rintro stored _ rfl
  split
  · exact agrees_pure rfl
  · exact agrees_pure rfl

theorem agrees_addMemberHeld (type : MemberType) : (addMemberHeld c member type).Agrees status c
    (addMemberHeld c member type) fun added added' => added.timeless = added'.timeless := by
  simp only [addMemberHeld]
  apply agrees_load.bind
  rintro ⟨r, d⟩ ⟨r', d'⟩ ⟨record, container, own, own', hydrated, hydrated'⟩
  apply agrees_now.bind
  intro time time' _
  apply (agrees_ofContainer (Container.addMember_alike container)).bind
  rintro grown grown' ⟨added, added', alike⟩
  apply agrees_checkContext.bind
  intro _ _ _
  obtain ⟨sound, shown, -⟩ := Record.sound_of_hydrate hydrated
  obtain ⟨sound', shown', -⟩ := Record.sound_of_hydrate hydrated'
  obtain ⟨-, -, ownId, -, -, -, -, valid⟩ := sound.addMember added
  obtain ⟨-, -, ownId', -, -, -, -, valid'⟩ := sound'.addMember added'
  have id : grown.id = c := by rw [ownId, shown]; exact own
  have id' : grown'.id = c := by rw [ownId', shown']; exact own'
  have same : (some (IndexChange.insert ⟨member, type, time⟩)).map IndexChange.timeless =
      (some (IndexChange.insert ⟨member, type, time'⟩)).map IndexChange.timeless := rfl
  exact agrees_commit_publish record alike id id' valid valid' same rfl

theorem agrees_refuseChild : (refuseChild c member).Agrees status c (refuseChild c member) fun _ _ => True := by
  simp only [refuseChild]
  apply (agrees_read?_parent member).bind
  intro found found' same
  cases found with
  | none =>
    cases found' with
    | none => exact agrees_pure trivial
    | some child' => cases same
  | some child =>
    cases found' with
    | none => cases same
    | some child' =>
      have parent : child.parentId = child'.parentId := Option.some.inj same
      simp only [parent]
      split
      · exact agrees_throw _
      · exact agrees_pure trivial

theorem agrees_strikeOff (loaded : LoadedAlike c (r, d) (r', d')) : (strikeOff r d member).Agrees status c
    (strikeOff r' d' member) fun removed removed' => removed.timeless = removed'.timeless := by
  obtain ⟨record, container, own, own', hydrated, hydrated'⟩ := loaded
  simp only [strikeOff]
  apply agrees_now.bind
  intro time time' _
  apply (agrees_ofContainer (Container.removeMember_alike container)).bind
  rintro ⟨removed, shrunk⟩ ⟨removed', shrunk'⟩ ⟨done, done', alike⟩
  apply agrees_checkContext.bind
  intro _ _ _
  obtain ⟨sound, shown, -⟩ := Record.sound_of_hydrate hydrated
  obtain ⟨sound', shown', -⟩ := Record.sound_of_hydrate hydrated'
  obtain ⟨-, -, ownId, -, -, -, -, valid⟩ := sound.removeMember done
  obtain ⟨-, -, ownId', -, -, -, -, valid'⟩ := sound'.removeMember done'
  have id : shrunk.id = c := by rw [ownId, shown]; exact own
  have id' : shrunk'.id = c := by rw [ownId', shown']; exact own'
  obtain ⟨members, containers⟩ := Prod.mk.inj alike
  have same : (some (IndexChange.remove member)).map IndexChange.timeless =
      (some (IndexChange.remove member)).map IndexChange.timeless := rfl
  exact agrees_commit_publish record containers id id' valid valid' same members

theorem agrees_removeMemberHeld : (removeMemberHeld c member).Agrees status c (removeMemberHeld c member)
    fun removed removed' => removed.timeless = removed'.timeless := by
  simp only [removeMemberHeld]
  apply agrees_load.bind
  rintro ⟨r, d⟩ ⟨r', d'⟩ loaded
  have known : d.containsMember member = d'.containsMember member :=
    show d.timeless.containsMember member = d'.timeless.containsMember member by rw [loaded.container]
  simp only [known]
  split
  · apply agrees_refuseChild.bind
    exact fun _ _ _ => agrees_strikeOff loaded
  · exact agrees_strikeOff loaded

theorem agrees_updateMetadataHeld (changes : MetadataUpdate) : (updateMetadataHeld c changes).Agrees status c
    (updateMetadataHeld c changes) fun changed changed' => changed.timeless = changed'.timeless := by
  simp only [updateMetadataHeld]
  apply agrees_load.bind
  rintro ⟨r, d⟩ ⟨r', d'⟩ ⟨record, container, own, own', hydrated, hydrated'⟩
  apply agrees_now.bind
  intro time time' _
  have alike := applyUpdate_alike container changes time time'
  have pending : (applyUpdate d changes time).pending.isEmpty = (applyUpdate d' changes time').pending.isEmpty := by
    have reported := congrArg (fun d => d.pending.isEmpty) alike
    simpa only [Container.timeless, List.isEmpty_map] using reported
  simp only [pending]
  split
  · exact agrees_pure alike
  · apply agrees_checkContext.bind
    intro _ _ _
    obtain ⟨sound, shown, -⟩ := Record.sound_of_hydrate hydrated
    obtain ⟨sound', shown', -⟩ := Record.sound_of_hydrate hydrated'
    have shape := sameShape_applyUpdate d changes time
    have shape' := sameShape_applyUpdate d' changes time'
    have id : (applyUpdate d changes time).id = c := by rw [shape.id, shown]; exact own
    have id' : (applyUpdate d' changes time').id = c := by rw [shape'.id, shown']; exact own'
    have same : (none : Option IndexChange).map IndexChange.timeless = Option.map IndexChange.timeless none := rfl
    have taken := congrArg (fun d : Container => { d with pending := [] }) alike
    exact agrees_commit_publish record alike id id' (shape.valid sound.valid) (shape'.valid sound'.valid) same taken

/-! ### Listing the members -/

theorem agrees_indexReadError (error : IndexError) :
    (indexReadError c error).Agrees status c (indexReadError c error) (· = ·) := by
  cases error with
  | partitionNotFound missing =>
    simp only [indexReadError]
    apply agrees_store_bind
    intro h h' alike
    refine ⟨alike, ?_⟩
    have shown : ∀ h : Holdings, (h.store.perform (.exists c)).1 = .ok (h.store.contents.shape c).isSome :=
      fun h => congrArg Except.ok (MemoryStore.contains_eq_shape h.store c)
    rw [shown, shown, alike.shape]
    split
    · exact agrees_pure rfl
    · exact agrees_pure rfl
    · exact agrees_pure rfl
  | partitionExists | duplicateEntry | database | corrupt | backend => exact agrees_pure rfl

/-- A question to the index on behalf of a reader. -/
theorem agrees_askIndex (call : IndexCall) {β : Type} (g : call.Answer → β)
    (alike : ∀ (held held' : Catalogue) (last last' : Nat), held.outline c = held'.outline c →
      (held.perform last call).1.map g = (held'.perform last' call).1.map g)
    (question : ∀ (held : Catalogue) (last : Nat), (held.perform last call).2 = held) :
    (askIndex c (tryIndex call)).Agrees status c (askIndex c (tryIndex call)) fun a a' => g a = g a' := by
  simp only [askIndex]
  apply agrees_index_bind
  intro held held' last last' rows
  have answers := alike held held' last last' rows
  rw [question, question]
  refine ⟨rows, ?_⟩
  revert answers
  rcases (held.perform last call).1 with e | a
  · rcases (held'.perform last' call).1 with e' | a'
    · intro same
      cases same
      apply (agrees_indexReadError e).bind
      rintro reason _ rfl
      exact agrees_throw reason
    · intro impossible
      cases impossible
  · rcases (held'.perform last' call).1 with e' | a'
    · intro impossible
      cases impossible
    · intro same
      exact agrees_pure (Except.ok.inj same)

/-- A page of members in the order of insertion or of identifiers. -/
theorem agrees_listMembers {limits : Limits} {options : ListOptions} (untimed : options.sort ≠ .newestFirst) :
    (listMembers limits c options).Agrees status c (listMembers limits c options) fun page page' =>
      (Reply.page page).timeless = (Reply.page page').timeless := by
  apply Agrees.withLock
  have counted : ∀ (held held' : Catalogue) (last last' : Nat), held.outline c = held'.outline c →
      (held.perform last (.count c options.memberType)).1.map id =
        (held'.perform last' (.count c options.memberType)).1.map id := by
    intro held held' last last' same
    rw [Catalogue.count_alike same]
  apply (agrees_askIndex (.count c options.memberType) id counted fun held last => rfl).bind
  rintro total total' (rfl : total = total')
  have paged : ∀ entries entries' : List IndexEntry,
      entries.map IndexEntry.timeless = entries'.map IndexEntry.timeless →
      (pure ⟨entries, total, options.offset, limits.pageLimit options.limit⟩ : Action MemberPage).Agrees status c
        (pure ⟨entries', total, options.offset, limits.pageLimit options.limit⟩) fun page page' =>
          (Reply.page page).timeless = (Reply.page page').timeless := by
    intro entries entries' same
    apply agrees_pure
    simp only [Reply.timeless, same]
  simp only
  split
  · have none : (pure [] : Action (List IndexEntry)).Agrees status c (pure []) fun entries entries' =>
        entries.map IndexEntry.timeless = entries'.map IndexEntry.timeless := agrees_pure rfl
    exact none.bind paged
  · apply Agrees.bind _ paged
    apply agrees_askIndex (.select c _) (List.map IndexEntry.timeless)
    · exact fun held held' last last' same => Catalogue.select_alike same untimed
    · exact fun held last => rfl

end Repository

/-- The container that a call changes by itself, of the calls that change the members or the properties of one. -/
def Call.changed? : Call → Option String
  | .addMember container _ | .removeMember container _ | .updateMetadata container _ => some container
  | _ => none

/-- Calls that change one container end alike in worlds that show the same of it, and leave them so. -/
theorem Call.agrees {settings : Settings} {call : Call} {c : String} (about : call.changed? = some c)
    (status : Option Cancellation) : (call.action settings).Agrees status c (call.action settings)
      fun reply reply' => reply.timeless = reply'.timeless := by
  cases call with
  | addMember container member =>
    cases about
    apply Agrees.map
    apply (agrees_classify settings.classifier).bind
    rintro type _ rfl
    exact (agrees_addMemberHeld type).withLock.mono fun _ _ alike => congrArg Reply.member alike
  | removeMember container member =>
    cases about
    apply Agrees.map
    exact agrees_removeMemberHeld.withLock.mono fun _ _ alike => congrArg Reply.member alike
  | updateMetadata container changes =>
    cases about
    apply Agrees.map
    exact (agrees_updateMetadataHeld changes).withLock.mono fun _ _ alike => congrArg Reply.container alike
  | create | get | contains | delete | addMembers | listMembers | countMembers | drain | nextBatch | children |
    parent | path | find | move | rebuild | rebuildAll | verify => cases about

end Containment
