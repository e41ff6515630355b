/-
Module: Containment.Proofs.Repository.Relocation
Purpose: What a move changes and what it leaves alone. Three records are written at most and one row goes from one
  partition to another. The paths of what is moved and of all below it change in front of it, and no others.
Main exports: MemoryStore.Relocated, Catalogue.Relocated, yields_move, Shape.Repathed, World.Repathed,
  World.Relocated, Holdings.ArisesCleanly.move_exact
-/
import Containment.Proofs.Repository.Navigation
import Containment.Proofs.Repository.RowChanges

namespace Containment

open Containment.Action Repository
open Function (update update_self update_of_ne)
open Time

/-- The next record of a container: its lasting state is this one, with the time of the change noted in it. -/
def Record.revised (r : Record) (s : Snapshot) (time : Instant) : Record :=
  { revision := r.revision + 1, container := s.touched time }

theorem Record.next_eq_revised {r : Record} {c : Container} {s : Snapshot} {time : Instant}
    (same : c.toSnapshot = s.touched time) : r.next c = r.revised s time := by
  rw [next, revised, same]

/-- What a move makes of the records. Revisions and times of change apart, the old parent loses the entry of the
container, the new one gets an entry at the end, and the container names another parent; nothing else changes. -/
structure MemoryStore.Relocated (S : MemoryStore) (id : String) (r : Record) (target : String) (time : Instant)
    (S' : MemoryStore) : Prop where
  own : S'.records[id]? = some (r.revised { r.container with parentId := target } time)
  left : r.parentId ≠ "" → ∃ p front entry back, S.records[r.parentId]? = some p ∧
    p.container.members = front ++ entry :: back ∧ entry.id = id ∧ entry.type = .container ∧
    S'.records[r.parentId]? = some (p.revised { p.container with members := front ++ back } time)
  joined : target ≠ "" → ∃ p, S.records[target]? = some p ∧ S'.records[target]? = some
    (p.revised { p.container with members := p.container.members ++ [⟨id, .container, time⟩] } time)
  others : ∀ x, x ≠ id → (x ≠ r.parentId ∨ r.parentId = "") → (x ≠ target ∨ target = "") →
    S'.records[x]? = S.records[x]?
  retired : S'.retired = S.retired

/-- What a move makes of the rows. The partition of the old parent loses the row of the container, that of the new one
gets a row at the end, and all others stay as they are. -/
structure Catalogue.Relocated (held : Catalogue) (id source target : String) (time : Instant) (held' : Catalogue) :
    Prop where
  left : source ≠ "" → ∃ rows, held[source]? = some rows ∧
    held'[source]? = some (rows.filter fun row => !(row.memberId == id))
  joined : target ≠ "" → ∃ rows n, held[target]? = some rows ∧
    held'[target]? = some (rows ++ [.ofMember target ⟨id, .container, time⟩ n])
  others : ∀ x, (x ≠ source ∨ source = "") → (x ≠ target ∨ target = "") → held'[x]? = held[x]?

/-! ### The records of the parents -/

section

variable {S S' : MemoryStore} {id source target : String} {time : Instant} {events : List Event}

theorem Attached.others (sane : S.contents.Sane) (attached : Attached S id target time events S') {x : String}
    (aside : x ≠ target ∨ target = "") : S'.records[x]? = S.records[x]? := by
  rcases aside with ne | top
  · exact (attached.edits sane).others x ne
  · cases attached with
    | root => rfl
    | below proper => exact absurd top proper

theorem Detached.others (sane : S.contents.Sane) (detached : Detached S id source time events S') {x : String}
    (aside : x ≠ source ∨ source = "") : S'.records[x]? = S.records[x]? := by
  rcases aside with ne | top
  · exact (detached.edits sane).others x ne
  · cases detached with
    | unlisted => rfl
    | listed proper => exact absurd top proper

/-- The new parent's record. -/
theorem Attached.joined (sane : S.contents.Sane) (attached : Attached S id target time events S')
    (proper : target ≠ "") : ∃ p, S.records[target]? = some p ∧ S'.records[target]? = some
      (p.revised { p.container with members := p.container.members ++ [⟨id, .container, time⟩] } time) := by
  cases attached with
  | root top => exact absurd top proper
  | @below r p p' _ found hydrated added =>
    refine ⟨r, found, ?_⟩
    have own : (r.next p').id = target := (Record.of_add hydrated added).1.trans (sane.record found).1
    have same := Container.addMember_toSnapshot added
    rw [(Record.sound_of_hydrate hydrated).2.1] at same
    rw [← own, MemoryStore.records_put_self, Record.next_eq_revised same]

/-- Taking an entry out of a list without repeated identifiers leaves what stands before and behind it. -/
theorem exists_filter_eq_append {members : List Member} (nodup : (members.map Member.id).Nodup) {m : Member}
    (mem : m ∈ members) :
    ∃ front back, members = front ++ m :: back ∧ members.filter (·.id ≠ m.id) = front ++ back := by
  obtain ⟨n, front, back, -, same, whole, erased⟩ :=
    List.exists_of_eraseP (p := fun n : Member => n.id == m.id) mem (beq_self_eq_true m.id)
  have entry : n = m := List.inj_on_of_nodup_map nodup (whole ▸ by simp) mem (beq_iff_eq.1 same)
  rw [Container.eraseP_eq_filter nodup] at erased
  exact ⟨front, back, entry ▸ whole, erased⟩

/-- A record that has an entry is that of a container with this member. -/
theorem Record.exists_listing {p : Record} (valid : p.container.Valid) {m : Member} (mem : m ∈ p.container.members) :
    ∃ c, p.hydrate = .ok c ∧ c.containsMember m.id = true := by
  obtain ⟨c, hydrated⟩ := Record.exists_hydrate valid
  obtain ⟨sound, same, -⟩ := Record.sound_of_hydrate hydrated
  exact ⟨c, hydrated, (Container.containsMember_iff sound).2 ⟨m, same ▸ mem, rfl⟩⟩

/-- The old parent's record. -/
theorem Detached.left (sane : S.contents.Sane) (detached : Detached S id source time events S') {p : Record}
    (found : S.records[source]? = some p) {m : Member} (mem : m ∈ p.container.members) (named : m.id = id) :
    ∃ front back, p.container.members = front ++ m :: back ∧
      S'.records[source]? = some (p.revised { p.container with members := front ++ back } time) := by
  obtain ⟨key, valid⟩ := sane.record found
  obtain ⟨front, back, whole, rest⟩ := exists_filter_eq_append valid.nodup mem
  refine ⟨front, back, whole, ?_⟩
  cases detached with
  | unlisted none =>
    exfalso
    rcases none with top | unlisted
    · exact valid.id_ne_empty (key.trans top)
    · obtain ⟨c, hydrated, listed⟩ := Record.exists_listing valid mem
      rw [named, unlisted p c found hydrated] at listed
      cases listed
  | @listed r c c' gone proper found' hydrated removed =>
    rw [found] at found'
    cases found'
    have own : (p.next c').id = source := (Record.of_remove hydrated removed).1.trans key
    obtain ⟨sound, same, -⟩ := Record.sound_of_hydrate hydrated
    have lasting := sound.removeMember_toSnapshot removed
    rw [same, ← named, rest] at lasting
    rw [← own, MemoryStore.records_put_self, Record.next_eq_revised lasting]

/-- Both parents are written, the new one first, and then the container. -/
theorem MemoryStore.relocated_of_writes {r : Record} {c moved : Container} {S₁ S₂ : MemoryStore}
    {events₁ events₂ : List Event} (sane : S.contents.Sane) (linked : S.contents.Linked)
    (found : S.records[id]? = some r) (hydrated : r.hydrate = .ok c) (done : c.reparent target time = .ok moved)
    (elsewhere : r.parentId ≠ target) (apart : target ≠ id) (attached : Attached S id target time events₁ S₁)
    (detached : Detached S₁ id r.parentId time events₂ S₂) :
    S.Relocated id r target time (S₂.put (r.next moved)) := by
  obtain ⟨key, valid⟩ := sane.record found
  obtain ⟨sound, same, -⟩ := Record.sound_of_hydrate hydrated
  have lasting := Container.reparent_toSnapshot done
  rw [same] at lasting
  have own : (r.next moved).id = id := (congrArg Snapshot.id lasting).trans key
  have notSource : r.parentId ≠ id := key ▸ valid.parent_ne
  have sane₁ := attached.sane sane
  have after : ∀ x, x ≠ id → (S₂.put (r.next moved)).records[x]? = S₂.records[x]? :=
    fun x ne => MemoryStore.records_put_of_ne (own ▸ Ne.symm ne)
  constructor
  · rw [← own, MemoryStore.records_put_self, Record.next_eq_revised lasting]
  · intro proper
    obtain ⟨p, stored, m, mem, named, type⟩ := linked.exists_parent found proper
    have stored₁ : S₁.records[r.parentId]? = some p := (attached.others sane (.inl elsewhere)).trans stored
    obtain ⟨front, back, whole, written⟩ := detached.left sane₁ stored₁ mem named
    exact ⟨p, front, m, back, stored, whole, named, type, (after r.parentId notSource).trans written⟩
  · intro proper
    obtain ⟨p, stored, written⟩ := attached.joined sane proper
    refine ⟨p, stored, ?_⟩
    rw [after target apart, detached.others sane₁ (.inl (Ne.symm elsewhere)), written]
  · intro x notOwn notLeft notJoined
    rw [after x notOwn, detached.others sane₁ notLeft, attached.others sane notJoined]
  · exact (detached.edits sane₁).retired.trans (attached.edits sane).retired

/-- A row is added to the new parent, then one is left out of the old one. -/
theorem Catalogue.relocated_of_turns {held held₁ held' : Catalogue} (distinct : source ≠ target)
    (new : target = "" ∧ held₁ = held ∨
      target ≠ "" ∧ (IndexChange.insert ⟨id, .container, time⟩).Turns target held held₁)
    (old : source = "" ∧ held' = held₁ ∨ source ≠ "" ∧ (IndexChange.remove id).Turns source held₁ held') :
    held.Relocated id source target time held' := by
  have first : ∀ x, (x ≠ target ∨ target = "") → held₁[x]? = held[x]? := by
    intro x aside
    rcases new with ⟨-, rfl⟩ | ⟨proper, turns⟩
    · rfl
    · exact turns.others (aside.resolve_right proper)
  have second : ∀ x, (x ≠ source ∨ source = "") → held'[x]? = held₁[x]? := by
    intro x aside
    rcases old with ⟨-, rfl⟩ | ⟨proper, turns⟩
    · rfl
    · exact turns.others (aside.resolve_right proper)
  constructor
  · intro proper
    cases (old.resolve_left fun none => proper none.1).2 with
    | @remove rows _ found =>
      exact ⟨rows, (first source (.inl distinct)).symm.trans found, Std.ExtTreeMap.getElem?_insert_self⟩
  · intro proper
    cases (new.resolve_left fun none => proper none.1).2 with
    | @insert rows _ n found =>
      refine ⟨rows, n, found, ?_⟩
      rw [second target (.inl (Ne.symm distinct))]
      exact Std.ExtTreeMap.getElem?_insert_self
  · exact fun x notLeft notJoined => (second x notLeft).trans (first x notJoined)

end

/-- Only the container that moves has another parent than before. -/
theorem MemoryStore.Relocated.shape_eq {S S' : MemoryStore} {id target : String} {r : Record} {time : Instant}
    (relocated : S.Relocated id r target time S') : S'.contents.shape =
      Function.update S.contents.shape id (some target) := by
  funext x
  by_cases own : x = id
  · subst own
    rw [update_self, MemoryStore.shape_eq_some relocated.own]
    rfl
  rw [update_of_ne own]
  by_cases left : x = r.parentId ∧ r.parentId ≠ ""
  · obtain ⟨rfl, proper⟩ := left
    obtain ⟨p, front, entry, back, before, -, -, -, after⟩ := relocated.left proper
    rw [MemoryStore.shape_eq_some after, MemoryStore.shape_eq_some before]
    rfl
  by_cases joined : x = target ∧ target ≠ ""
  · obtain ⟨rfl, proper⟩ := joined
    obtain ⟨p, before, after⟩ := relocated.joined proper
    rw [MemoryStore.shape_eq_some after, MemoryStore.shape_eq_some before]
    rfl
  have same := relocated.others x own (by tauto) (by tauto)
  rw [Contents.shape, Contents.shape, MemoryStore.contents, MemoryStore.contents, same]

namespace Repository

variable {h : Holdings} {limits : Limits} {id target : String} {time : Instant} {held held' : Catalogue}
  {parent : Option (Record × Container)} {S : MemoryStore}

/-! ### The move itself -/

theorem AttachReady.turned (ready : AttachReady S id target time parent) (sane : S.contents.Sane)
    (turned : ParentTurned (.insert ⟨id, .container, time⟩) held held' parent) :
    target = "" ∧ held' = held ∨
      target ≠ "" ∧ (IndexChange.insert ⟨id, .container, time⟩).Turns target held held' := by
  cases parent with
  | none => exact .inl ⟨ready, turned⟩
  | some parent => exact .inr ⟨ready.1, (ready.prepared sane).2 ▸ turned⟩

theorem DetachReady.turned {source : String} (ready : DetachReady S id source time parent) (sane : S.contents.Sane)
    (listed : source ≠ "" → ∃ p, S.records[source]? = some p ∧ ∃ m ∈ p.container.members, m.id = id)
    (turned : ParentTurned (.remove id) held held' parent) :
    source = "" ∧ held' = held ∨ source ≠ "" ∧ (IndexChange.remove id).Turns source held held' := by
  cases parent with
  | some parent => exact .inr ⟨ready.1, (ready.prepared sane).2 ▸ turned⟩
  | none =>
    refine .inl ⟨?_, turned⟩
    rcases ready with top | unlisted
    · exact top
    · by_contra proper
      obtain ⟨p, found, m, mem, named⟩ := listed proper
      obtain ⟨c, hydrated, contained⟩ := Record.exists_listing (sane.record found).2 mem
      rw [named, unlisted p c found hydrated] at contained
      cases contained

theorem yields_moveWrites {r : Record} {c moved : Container} {newParent oldParent : Option (Record × Container)}
    (sane : h.store.contents.Sane) (linked : h.store.contents.Linked) (known : h.index.Catalogued held)
    (found : h.store.records[id]? = some r) (hydrated : r.hydrate = .ok c) (done : c.reparent target time = .ok moved)
    (elsewhere : r.parentId ≠ target) (apart : target ≠ id) (attach : AttachReady h.store id target time newParent)
    (detach : DetachReady h.store id r.parentId time oldParent) :
    (commitParent (.insert { id, type := .container, addedAt := time }) [] [] newParent >>= fun given =>
      commitParent (.remove id) given.1 given.2 oldParent >>= fun given =>
        commitMoved r moved given.1 given.2).Yields h fun _ h' =>
      h.store.Relocated id r target time h'.store ∧
        ∃ held', held.Relocated id r.parentId target time held' ∧ h'.index.Catalogued held' := by
  obtain ⟨key, valid⟩ := sane.record found
  have own : moved.id = id := (congrArg Snapshot.id (Container.reparent_toSnapshot done)).trans
    ((congrArg Snapshot.id (Record.sound_of_hydrate hydrated).2.1).trans key)
  have notSource : id ≠ r.parentId := key ▸ Ne.symm valid.parent_ne
  refine (yields_commitParent known ?_).bind ?_
  · rintro p p' rfl
    exact (attach.prepared sane).1
  rintro ⟨writes₁, events₁⟩ h₁ ⟨written₁, held₁, turned₁, known₁⟩
  have attached := attach.attached written₁
  have sane₁ := attached.sane sane
  have source₁ := attached.others sane (.inl elsewhere)
  have detach₁ : DetachReady h₁.store id r.parentId time oldParent := detach.congr fun _ => source₁
  refine (yields_commitParent known₁ ?_).bind ?_
  · rintro p p' rfl
    exact (detach₁.prepared sane₁).1
  rintro ⟨writes₂, events₂⟩ h₂ ⟨written₂, held₂, turned₂, known₂⟩
  obtain ⟨more, detached, -⟩ := detach₁.detached written₂
  have current : h₂.store.records[moved.id]? = some r := by
    rw [own, detached.others sane₁ (.inl notSource), attached.others sane (.inl (Ne.symm apart)), found]
  refine (yields_commitMoved current).mono fun fails out h' ended answer is => ?_
  obtain ⟨store, index⟩ := ended answer is
  constructor
  · rw [store]
    exact MemoryStore.relocated_of_writes sane linked found hydrated done elsewhere apart attached detached
  · refine ⟨held₂, ?_, index ▸ known₂⟩
    apply Catalogue.relocated_of_turns elsewhere (attach.turned sane turned₁) (detach.turned sane _ turned₂)
    intro proper
    obtain ⟨p, stored, m, mem, named, -⟩ := linked.exists_parent found proper
    exact ⟨p, stored, m, mem, named⟩

/-- A move that succeeds goes to a place that admits it, and makes these changes and no others. -/
theorem yields_move {r : Record} (sane : h.store.contents.Sane) (linked : h.store.contents.Linked)
    (known : h.index.Catalogued held) (found : h.store.records[id]? = some r) (elsewhere : r.parentId ≠ target) :
    (move limits id target).Yields h fun _ h' =>
      (∀ depth, h.store.contents.Forest depth → h.store.contents.shape.Admits limits.maxDepth id target) ∧
        ∃ time, h.store.Relocated id r target time h'.store ∧
          ∃ held', held.Relocated id r.parentId target time held' ∧ h'.index.Catalogued held' := by
  have stored : (h.store.contents id).isSome := MemoryStore.isSome_contents found
  apply Yields.withLock
  simp only [moveWithin]
  refine reads_load.yields_bind ?_
  rintro ⟨r', c⟩ ⟨found', -⟩
  obtain rfl : r = r' := Option.some.inj (found.symm.trans found')
  refine (reads_checkMove sane stored).yields_bind ?_
  rintro _ ⟨apart, admits⟩
  apply Yields.withContainers
  simp only [moveHeld]
  refine reads_load.yields_bind ?_
  rintro ⟨r', c⟩ ⟨found', hydrated⟩
  obtain rfl : r = r' := Option.some.inj (found.symm.trans found')
  simp only [if_neg elsewhere]
  refine reads_now.yields_bind ?_
  intro time _
  refine reads_ofContainer.yields_bind ?_
  intro moved done
  refine reads_attached.yields_bind ?_
  intro newParent attach
  refine reads_detached.yields_bind ?_
  intro oldParent detach
  refine reads_checkContext.yields_bind ?_
  intro _ _
  have written := yields_moveWrites sane linked known found hydrated done elsewhere apart attach detach
  exact Ensures.mono written fun fails out h' given answer is => ⟨admits, time, given answer is⟩

end Repository

/-! ### The paths -/

/-- What a move of the container `id` makes of the path of `x`, if `way` is the path of the new parent: from `id` on it
is as it was, and elsewhere it does not change. -/
structure Shape.Repathed (f : Shape) (id : String) (way : List String) (x : String) (old new : List String) : Prop where
  aside : (∀ j, ¬ f.Below j id x) → new = old
  below : ∀ j, f.Below j id x → ∃ above rest, old = above ++ id :: rest ∧ new = way ++ id :: rest

/-- Chains are told from below, and paths from above. -/
theorem Shape.Chain.repathed {f : Shape} {id x : String} {chain own upper : List String} {given : Option String}
    (nameless : f "" = none) (walk : f.Chain x chain) (stored : f.Chain id own)
    (turned : Chain (update f id given) id (id :: upper)) :
    ∃ chain', Chain (update f id given) x chain' ∧ f.Repathed id upper.reverse x chain.reverse chain'.reverse := by
  by_cases passes : id ∈ chain
  · obtain ⟨front, above, rfl, apart⟩ := List.eq_append_cons_of_mem passes
    refine ⟨front ++ id :: upper, walk.reroute apart (fun y ne => update_of_ne ne _ _) turned, ?_, ?_⟩
    · exact fun elsewhere => absurd walk.sits_below (elsewhere front.length)
    · exact fun _ _ => ⟨above.reverse, front.reverse, by simp, by simp⟩
  · refine ⟨chain, walk.aside passes given, fun _ => rfl, fun j path => ?_⟩
    exact absurd ((walk.mem_iff_below nameless stored).2 ⟨j, path⟩) passes

/-- What a move makes of all paths there are, from one world to another. -/
def World.Repathed (limits : Limits) (w : World) (S : MemoryStore) (id target : String) (w' : World) : Prop :=
  ∃ way, (target = "" ∧ way = [] ∨ target ≠ "" ∧ (path limits target).outcome w = .ok way) ∧
    ∀ x, (S.contents x).isSome → ∃ old new, (path limits x).outcome w = .ok old ∧ (path limits x).outcome w' = .ok new ∧
      S.contents.shape.Repathed id way x old new

/-- What a move makes of all that is held, and of what the worlds that hold it answer. -/
structure World.Relocated (limits : Limits) (w : World) (h : Holdings) (id : String) (r : Record) (target : String)
    (time : Instant) (w' : World) (h' : Holdings) : Prop where
  serves : w'.Serves h'
  records : h.store.Relocated id r target time h'.store
  rows : ∃ held held', h.index.Catalogued held ∧ h'.index.Catalogued held' ∧
    held.Relocated id r.parentId target time held'
  paths : w.Repathed limits h.store id target w'

namespace Repository

variable {w w' : World} {h h' : Holdings} {limits : Limits} {id target : String}

theorem repathed_of_shape_eq (serves : w.Serves h) (serves' : w'.Serves h') (sane : h.store.contents.Sane)
    (sane' : h'.store.contents.Sane) (bounded : h.store.contents.shape.Bounded (max limits.maxDepth 1))
    (stored : (h.store.contents.shape id).isSome)
    (admits : h.store.contents.shape.Admits (max limits.maxDepth 1) id target)
    (turned : h'.store.contents.shape = update h.store.contents.shape id (some target)) :
    w.Repathed limits h.store id target w' := by
  obtain ⟨parent, link⟩ := Option.isSome_iff_exists.1 stored
  have bounded' : h'.store.contents.shape.Bounded (max limits.maxDepth 1) := turned ▸ bounded.move link admits
  obtain ⟨own, walk, -⟩ := bounded id stored
  obtain ⟨upper, above, hung, -⟩ := admits.turned
  refine ⟨upper.reverse, above.imp ?_ ?_, fun x there => ?_⟩
  · rintro ⟨top, rfl⟩
    exact ⟨top, rfl⟩
  · rintro ⟨proper, above⟩
    exact ⟨proper, outcome_path serves sane bounded above⟩
  · obtain ⟨chain, up, -⟩ := bounded x (Contents.isSome_shape.2 there)
    obtain ⟨chain', up', repathed⟩ := up.repathed sane.nameless walk hung
    rw [← turned] at up'
    exact ⟨chain.reverse, chain'.reverse, outcome_path serves sane bounded up, outcome_path serves' sane' bounded' up',
      repathed⟩

/-- A container that is where it is to go stays there, and so does all else. -/
theorem eq_of_move_to_parent {settings : Settings} {c : Container} (arises : h.ArisesCleanly settings)
    (serves : w.Serves h) (stays : h.store.contents.shape id = some target)
    (moved : (move settings.limits id target).run.run none w = (.ok c, w')) : w' = w := by
  have tended := arises.tended
  have bounded : target ≠ "" → h.store.contents.Forest settings.limits.maxDepth := by
    intro proper
    -- the container and its parent are two levels already
    obtain ⟨-, within⟩ := arises.forest_max
    obtain ⟨chain, walk, short⟩ := within.exists_chain stays
    obtain ⟨rest, rfl⟩ := walk.exists_cons
    have more : rest ≠ [] := by
      rintro rfl
      exact proper (Option.some.inj (stays.symm.trans walk.top_eq))
    have deep : 2 ≤ (id :: rest).length := Nat.succ_le_succ (List.length_pos_iff.2 more)
    exact arises.forest (by omega)
  have judges : (move settings.limits id target).Judges w _ _ := judges_move serves tended bounded
  obtain ⟨c', w'', ended, same⟩ := judges.passes (judges.outcome_ok_iff.1 ⟨c, congrArg Prod.fst moved⟩)
  rw [moved] at ended
  cases ended
  exact same stays

/-- A container that goes elsewhere is moved in the records and the rows, and so are the paths. -/
theorem exists_relocated {settings : Settings} {c : Container} {r : Record} (arises : h.ArisesCleanly settings)
    (serves : w.Serves h) (found : h.store.records[id]? = some r) (elsewhere : r.parentId ≠ target)
    (moved : (move settings.limits id target).run.run none w = (.ok c, w')) :
    ∃ time h', w.Relocated settings.limits h id r target time w' h' := by
  have tended := arises.tended
  have sane := tended.sane
  have forest := arises.forest_max
  obtain ⟨lists, ⟨m, same, wf, -⟩, -⟩ := tended.covered
  have known : h.index.Catalogued m.catalogue := ⟨m, same, wf, rfl⟩
  obtain ⟨h', run, holds, clean⟩ :=
    Program.run_undisturbed none (move settings.limits id target).run serves.holds serves.clean
  rw [moved] at run holds clean
  have serves' : w'.Serves h' := ⟨holds, clean⟩
  have sane' : h'.store.contents.Sane := (tended_move tended _ _ _ run rfl).sane
  obtain ⟨admits, time, records, held', rows, known'⟩ :=
    yields_move sane forest.linked known found elsewhere _ _ _ run c rfl
  have stored : (h.store.contents.shape id).isSome :=
    Contents.isSome_shape.2 (MemoryStore.isSome_contents found)
  have room := (admits _ forest).mono (le_max_left settings.limits.maxDepth 1)
  have repathed := repathed_of_shape_eq serves serves' sane sane' forest.bounded stored room records.shape_eq
  exact ⟨time, h', serves', records, ⟨m.catalogue, held', known, known', rows⟩, repathed⟩

end Repository

/-! ### Exactness -/

/-- **A move does just what it is for.** Take any state that calls of any kind lead to, as long as no request of theirs
failed, and a move, in whatever context, that goes on to its end and succeeds. If the container is where it is to go,
nothing at all changes. Otherwise the records and the rows change as told, and no others do; and from the container on,
the paths of all that is below it are what they were, behind the path of the new parent, while no other path changes. -/
theorem Holdings.ArisesCleanly.move_exact {settings : Settings} {h : Holdings} {w w' : World}
    {status : Option Cancellation} {id target : String} {c : Container} (arises : h.ArisesCleanly settings)
    (serves : w.Serves h) (moved : (move settings.limits id target).run.run status w = (.ok c, w')) :
    ∃ r, h.store.records[id]? = some r ∧ (r.parentId = target → w' = w) ∧
      (r.parentId ≠ target → ∃ time h', w.Relocated settings.limits h id r target time w' h') := by
  cases status with
  | some reason =>
    -- the context is looked at before anything else
    have stopped : (move settings.limits id target).run.run (some reason) w = (.error (.canceled reason), w) := rfl
    rw [stopped] at moved
    cases moved
  | none =>
    by_cases missing : h.store.records[id]? = none
    · have refused : (move settings.limits id target).Fails w (.notFound id) :=
        (fails_load serves missing).bind.withLock
      obtain ⟨w'', ended⟩ := refused
      rw [moved] at ended
      cases ended
    · obtain ⟨r, found⟩ := Option.ne_none_iff_exists'.1 missing
      refine ⟨r, found, fun stays => ?_, fun elsewhere => exists_relocated arises serves found elsewhere moved⟩
      have link := MemoryStore.shape_eq_some found
      exact eq_of_move_to_parent arises serves (link.trans (congrArg some stays)) moved

/-- A repository of three levels. -/
def threeLevels : Settings :=
  { limits := { maxDepth := 3 } }

/-- A root with a container below it and one more below that, another root, and one that lists both the upper of these
containers and that root. -/
def threeLevelCalls : List (Option Cancellation × Call) :=
  [(none, .create (.new "a" "" .basic none)), (none, .create (.new "b" "a" .basic none)),
    (none, .create (.new "c" "b" .basic none)), (none, .create (.new "d" "" .basic none)),
    (none, .create (.new "e" "" .basic none)), (none, .addMembers "e" ["b", "d"])]

/-- The world after these calls. -/
def threeLevelWorld : World :=
  World.after threeLevels default threeLevelCalls

/-- What is moved to the other root takes along what is below it. What lists both stays as it is, and moving the
container to where it is changes nothing. -/
theorem threeLevels_move :
    ∃ (h h' : Holdings) (r : Record) (time : Instant), threeLevelWorld.Serves h ∧ h.ArisesCleanly threeLevels ∧
      r.parentId = "a" ∧ threeLevelWorld.Relocated threeLevels.limits h "b" r "d" time
        ((move threeLevels.limits "b" "d").run.run none threeLevelWorld).2 h' ∧
      h'.store.records["e"]? = h.store.records["e"]? ∧
      (path threeLevels.limits "c").outcome threeLevelWorld = .ok ["a", "b", "c"] ∧
      (path threeLevels.limits "c").outcome
        ((move threeLevels.limits "b" "d").run.run none threeLevelWorld).2 = .ok ["d", "b", "c"] ∧
      ((move threeLevels.limits "b" "a").run.run none threeLevelWorld).2 = threeLevelWorld := by
  have start : (default : World).Holds {} := ⟨rfl, rfl⟩
  obtain ⟨h, holds, clean, arises⟩ := start.arisesCleanly_after threeLevelCalls rfl .empty
  have serves : threeLevelWorld.Serves h := ⟨holds, clean⟩
  have parent : (threeLevelWorld.store.perform (.read "b")).1.map (fun r => r.map Record.parentId) =
      .ok (some "a") := by decide +kernel
  have goes : ((move threeLevels.limits "b" "d").outcome threeLevelWorld).map (fun c => c.parentId) = .ok "d" := by
    decide +kernel
  have stays : ((move threeLevels.limits "b" "a").outcome threeLevelWorld).map (fun c => c.parentId) = .ok "a" := by
    decide +kernel
  have before : (path threeLevels.limits "c").outcome threeLevelWorld = .ok ["a", "b", "c"] := by decide +kernel
  have after : (path threeLevels.limits "c").outcome
      ((move threeLevels.limits "b" "d").run.run none threeLevelWorld).2 = .ok ["d", "b", "c"] := by decide +kernel
  obtain ⟨c, gone, -⟩ := exists_ok_of_map goes
  obtain ⟨d, stayed, -⟩ := exists_ok_of_map stays
  obtain ⟨r, found, -, relocates⟩ := arises.move_exact serves (Prod.ext gone rfl)
  obtain ⟨r', found', unchanged, -⟩ := arises.move_exact serves (Prod.ext stayed rfl)
  have above : r.parentId = "a" := by
    rw [serves.holds.store] at parent
    change Except.ok (h.store.records["b"]?.map Record.parentId) = _ at parent
    rw [found] at parent
    exact Option.some.inj (Except.ok.inj parent)
  obtain rfl : r = r' := Option.some.inj (found.symm.trans found')
  have elsewhere : r.parentId ≠ "d" := by
    rw [above]
    decide
  obtain ⟨time, h', relocated⟩ := relocates elsewhere
  refine ⟨h, h', r, time, serves, arises, above, relocated, ?_, before, after, unchanged above⟩
  apply relocated.records.others "e" (by decide)
  · rw [above]
    exact .inl (by decide)
  · exact .inl (by decide)

end Containment
