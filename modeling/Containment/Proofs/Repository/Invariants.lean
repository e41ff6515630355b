/-
Module: Containment.Proofs.Repository.Invariants
Purpose: What every effect keeps: the rules of each container, the forest with its links in both directions, and
  the way in which records follow each other.
Main exports: RecordStep, MemoryStore.Evolves, Call.Effects.sane, Call.Effects.evolves, Created.forest,
  Deleted.forest, Moved.forest
-/
import Containment.Proofs.Hierarchy.Links
import Containment.Proofs.Repository.Effects

namespace Containment

open Function (update update_self update_of_ne)
open Time

variable {S S' : MemoryStore} {id target source : String} {time : Instant} {events : List Event} {depth : Nat}

/-! ### A step of a container and its record -/

/-- The record of a container that has one more member. -/
theorem Record.of_add {r : Record} {p p' : Container} {member : String} {type : MemberType}
    (hydrated : r.hydrate = .ok p) (added : p.addMember member type time = .ok p') :
    p'.id = r.id ∧ p'.parentId = r.container.parentId ∧ p'.toSnapshot.Valid ∧
      p'.members = r.container.members ++ [{ id := member, type, addedAt := time }] := by
  obtain ⟨sound, same, -⟩ := Record.sound_of_hydrate hydrated
  obtain ⟨-, -, ownId, parentId, -, members, -, valid⟩ := sound.addMember added
  rw [same] at ownId parentId members
  exact ⟨ownId, parentId, valid, members⟩

/-- The record of a container that has one member less. -/
theorem Record.of_remove {r : Record} {p p' : Container} {member : String} {m : Member}
    (hydrated : r.hydrate = .ok p) (removed : p.removeMember member time = .ok (m, p')) :
    p'.id = r.id ∧ p'.parentId = r.container.parentId ∧ p'.toSnapshot.Valid ∧
      p'.members = r.container.members.filter (·.id ≠ member) := by
  obtain ⟨sound, same, -⟩ := Record.sound_of_hydrate hydrated
  obtain ⟨-, -, ownId, parentId, -, members, -, valid⟩ := sound.removeMember removed
  rw [same] at ownId parentId members
  exact ⟨ownId, parentId, valid, members⟩

/-! ### Edits of one container -/

/-- At most the container `x` has been written, and then once. -/
structure MemoryStore.Edits (S : MemoryStore) (x : String) (S' : MemoryStore) : Prop where
  others : ∀ y, y ≠ x → S'.records[y]? = S.records[y]?
  retired : S'.retired = S.retired
  own : S'.records[x]? = S.records[x]? ∨ ∃ r c, S.records[x]? = some r ∧ S'.records[x]? = some (r.next c)

theorem MemoryStore.edits_refl (S : MemoryStore) (x : String) : S.Edits x S :=
  ⟨fun _ _ => rfl, rfl, .inl rfl⟩

theorem MemoryStore.edits_put {x : String} {r : Record} {c : Container} (found : S.records[x]? = some r)
    (own : c.id = x) : S.Edits x (S.put (r.next c)) := by
  have key : (r.next c).id = x := own
  refine ⟨fun y ne => ?_, rfl, .inr ⟨r, c, found, ?_⟩⟩
  · apply MemoryStore.records_put_of_ne
    rw [key]
    exact Ne.symm ne
  · rw [← key]
    exact MemoryStore.records_put_self _

theorem Attached.edits (sane : S.contents.Sane) (attached : Attached S id target time events S') :
    S.Edits target S' := by
  cases attached with
  | root => exact MemoryStore.edits_refl S target
  | below proper found hydrated added =>
    exact MemoryStore.edits_put found ((Record.of_add hydrated added).1.trans (sane.record found).1)

theorem Detached.edits (sane : S.contents.Sane) (detached : Detached S id source time events S') :
    S.Edits source S' := by
  cases detached with
  | unlisted => exact MemoryStore.edits_refl S source
  | listed proper found hydrated removed =>
    exact MemoryStore.edits_put found ((Record.of_remove hydrated removed).1.trans (sane.record found).1)

/-- What attaching makes of the contents. -/
theorem Attached.contents (sane : S.contents.Sane) (attached : Attached S id target time events S') :
    target = "" ∧ S'.contents = S.contents ∨
      ∃ p p' entry, S.contents target = some p ∧ S'.contents = update S.contents target (some p') ∧
        p'.parentId = p.parentId ∧ p'.members = p.members ++ [entry] ∧ entry.id = id ∧
        entry.type = .container := by
  cases attached with
  | root top => exact .inl ⟨top, rfl⟩
  | @below r p p' proper found hydrated added =>
    obtain ⟨ownId, parentId, -, members⟩ := Record.of_add hydrated added
    refine .inr ⟨r.container, p'.toSnapshot, _, MemoryStore.contents_eq_some found, ?_, parentId, members, rfl,
      rfl⟩
    rw [MemoryStore.contents_put]
    change update _ p'.id _ = _
    rw [ownId, (sane.record found).1]
    rfl

/-- What detaching makes of the contents. -/
theorem Detached.contents (sane : S.contents.Sane) (detached : Detached S id source time events S') :
    S'.contents = S.contents ∨
      ∃ q q', S.contents source = some q ∧ S'.contents = update S.contents source (some q') ∧ source ≠ "" ∧
        q'.parentId = q.parentId ∧ q'.members = q.members.filter (·.id ≠ id) := by
  cases detached with
  | unlisted => exact .inl rfl
  | @listed r p p' m proper found hydrated removed =>
    obtain ⟨ownId, parentId, -, members⟩ := Record.of_remove hydrated removed
    refine .inr ⟨r.container, p'.toSnapshot, MemoryStore.contents_eq_some found, ?_, proper, parentId, members⟩
    rw [MemoryStore.contents_put]
    change update _ p'.id _ = _
    rw [ownId, (sane.record found).1]
    rfl

theorem Attached.sane (sane : S.contents.Sane) (attached : Attached S id target time events S') :
    S'.contents.Sane := by
  cases attached with
  | root => exact sane
  | below proper found hydrated added =>
    rw [MemoryStore.contents_put]
    exact sane.put (Record.of_add hydrated added).2.2.1

theorem Detached.sane (sane : S.contents.Sane) (detached : Detached S id source time events S') :
    S'.contents.Sane := by
  cases detached with
  | unlisted => exact sane
  | listed proper found hydrated removed =>
    rw [MemoryStore.contents_put]
    exact sane.put (Record.of_remove hydrated removed).2.2.1

/-! ### The rules of each container -/

theorem Created.sane {c : Container} (sane : S.contents.Sane) (created : Created S c events S') :
    S'.contents.Sane := by
  obtain ⟨time, parentEvents, attached, -⟩ := created.attached
  apply attached.sane
  rw [MemoryStore.contents_put]
  exact sane.put created.valid

theorem Deleted.sane (sane : S.contents.Sane) (deleted : Deleted S id events S') : S'.contents.Sane := by
  obtain ⟨r, c, time, parentEvents, S₁, -, -, -, detached, rfl, -⟩ := deleted
  rw [MemoryStore.contents_retiring]
  exact (detached.sane sane).drop id

theorem Amended.sane {update : MetadataUpdate} {answer : Container} (sane : S.contents.Sane)
    (amended : Amended S id update answer events S') : S'.contents.Sane := by
  obtain ⟨r, c, time, found, hydrated, -, -, rfl⟩ := amended
  split
  · exact sane
  · rw [MemoryStore.contents_put]
    have same := Repository.sameShape_applyUpdate c update time
    exact sane.put (Prepared.of_sameShape sane found hydrated same).valid

theorem Grown.sane {classifier : Classifier} {member : String} {added : Member} (sane : S.contents.Sane)
    (grown : Grown classifier S id member added events S') : S'.contents.Sane := by
  obtain ⟨r, c, c', -, hydrated, -, -, added, -, rfl⟩ := grown
  rw [MemoryStore.contents_put]
  exact sane.put (Record.of_add hydrated added).2.2.1

theorem Shrunk.sane {member : String} {removed : Member} (sane : S.contents.Sane)
    (shrunk : Shrunk S id member removed events S') : S'.contents.Sane := by
  obtain ⟨r, c, time, c', -, hydrated, -, removed, -, rfl⟩ := shrunk
  rw [MemoryStore.contents_put]
  exact sane.put (Record.of_remove hydrated removed).2.2.1

theorem Moved.sane {answer : Container} (sane : S.contents.Sane) (moved : Moved S id target answer events S') :
    S'.contents.Sane := by
  cases moved with
  | stay => exact sane
  | go _ hydrated _ _ done attached detached =>
    rw [MemoryStore.contents_put]
    obtain ⟨sound, -, -⟩ := Record.sound_of_hydrate hydrated
    obtain ⟨-, -, -, -, -, valid⟩ := sound.reparent done
    exact (detached.sane (attached.sane sane)).put valid

theorem Call.Effects.sane {settings : Settings} {call : Call} {reply : Reply} (sane : S.contents.Sane)
    (effects : call.Effects settings S reply events S') : S'.contents.Sane := by
  cases call with
  | create draft =>
    obtain ⟨c, -, -, created⟩ := effects
    exact created.sane sane
  | delete id => exact effects.2.sane sane
  | updateMetadata id update =>
    obtain ⟨c, -, amended⟩ := effects
    exact amended.sane sane
  | addMember container member =>
    obtain ⟨m, -, grown⟩ := effects
    exact grown.sane sane
  | removeMember container member =>
    obtain ⟨m, -, shrunk⟩ := effects
    exact shrunk.sane sane
  | move id target =>
    obtain ⟨c, -, moved⟩ := effects
    exact moved.sane sane
  | addMembers container members => exact effects.elim
  | get | contains | listMembers | countMembers | drain | nextBatch | children | parent | path | find | rebuild
  | rebuildAll | verify =>
    rw [effects.2]
    exact sane

/-! ### The forest -/

/-- A stored container is named, and it is not its own parent. -/
theorem Contents.Sane.proper {C : Contents} (sane : C.Sane) {s : Snapshot} (found : C id = some s) :
    id ≠ "" ∧ s.parentId ≠ id := by
  obtain ⟨own, valid⟩ := sane id s found
  exact ⟨own ▸ valid.id_ne_empty, own ▸ valid.parent_ne⟩

theorem Created.forest {c : Container} (sane : S.contents.Sane) (forest : S.contents.Forest depth)
    (positive : 1 ≤ depth) (created : Created S c events S')
    (room : S.contents.shape.HasRoom depth c.parentId) : S'.contents.Forest depth := by
  obtain ⟨time, parentEvents, attached, -⟩ := created.attached
  have absent : S.contents c.id = none := MemoryStore.contents_eq_none created.absent
  have proper : c.id ≠ "" := created.valid.id_ne_empty
  have first : (S.put (.first c)).contents = update S.contents c.id (some c.toSnapshot) :=
    MemoryStore.contents_put _
  have sane₁ : (S.put (.first c)).contents.Sane := by
    rw [first]
    exact sane.put created.valid
  rcases attached.contents sane₁ with ⟨top, same⟩ | ⟨p, p', entry, stored, written, parentId, members, named, type⟩
  · rw [same, first]
    exact forest.create_root positive absent proper top
  · obtain ⟨up, other⟩ := sane₁.proper stored
    rw [first, update_of_ne created.valid.parent_ne] at stored
    obtain ⟨chain, above, short⟩ := room up
    rw [written, first]
    exact forest.create_below absent proper up stored other parentId members named type above short

theorem Deleted.forest (sane : S.contents.Sane) (forest : S.contents.Forest depth)
    (deleted : Deleted S id events S') : S'.contents.Forest depth := by
  obtain ⟨r, c, time, parentEvents, S₁, found, hydrated, empty, detached, rfl, -⟩ := deleted
  obtain ⟨-, same, -⟩ := Record.sound_of_hydrate hydrated
  have stored := MemoryStore.contents_eq_some found
  obtain ⟨proper, ne⟩ := sane.proper stored
  have noMembers : r.container.members = [] := by
    rw [← same]
    exact empty
  have childless := forest.linked.childless stored proper noMembers
  rw [MemoryStore.contents_retiring]
  rcases detached.contents sane with unchanged | ⟨q, q', parent, written, up, parentId, members⟩
  · rw [unchanged]
    exact forest.drop childless
  · rw [written]
    exact forest.drop_below childless ne up parent (sane.proper parent).2 parentId members

/-- A container that keeps its parent and all its members, and perhaps gets more. -/
theorem Contents.Forest.put_grown (sane : S.contents.Sane) (forest : S.contents.Forest depth) {r : Record}
    {c : Container} {more : List Member} (found : S.records[id]? = some r) (own : c.id = r.id)
    (parentId : c.parentId = r.container.parentId) (members : c.members = r.container.members ++ more) :
    (S.put (r.next c)).contents.Forest depth := by
  have stored := MemoryStore.contents_eq_some found
  obtain ⟨proper, ne⟩ := sane.proper stored
  rw [MemoryStore.contents_put]
  change Contents.Forest (update _ c.id (some c.toSnapshot)) depth
  rw [own, (sane.record found).1]
  exact forest.amend stored proper ne parentId (forest.listed_append stored proper members)

theorem Amended.forest {update : MetadataUpdate} {answer : Container} (sane : S.contents.Sane)
    (forest : S.contents.Forest depth) (amended : Amended S id update answer events S') :
    S'.contents.Forest depth := by
  obtain ⟨r, c, time, found, hydrated, -, -, rfl⟩ := amended
  split
  · exact forest
  · obtain ⟨-, same, -⟩ := Record.sound_of_hydrate hydrated
    obtain ⟨ownId, parentId, -, members⟩ := Repository.sameShape_applyUpdate c update time
    rw [same] at ownId parentId members
    exact Contents.Forest.put_grown sane forest found ownId parentId (members.trans (List.append_nil _).symm)

theorem Grown.forest {classifier : Classifier} {member : String} {added : Member} (sane : S.contents.Sane)
    (forest : S.contents.Forest depth) (grown : Grown classifier S id member added events S') :
    S'.contents.Forest depth := by
  obtain ⟨r, c, c', found, hydrated, -, -, added, -, rfl⟩ := grown
  obtain ⟨ownId, parentId, -, members⟩ := Record.of_add hydrated added
  exact Contents.Forest.put_grown sane forest found ownId parentId members

theorem Shrunk.forest {member : String} {removed : Member} (sane : S.contents.Sane)
    (forest : S.contents.Forest depth) (shrunk : Shrunk S id member removed events S') :
    S'.contents.Forest depth := by
  obtain ⟨r, c, time, c', found, hydrated, noChild, removed, -, rfl⟩ := shrunk
  obtain ⟨ownId, parentId, -, members⟩ := Record.of_remove hydrated removed
  have stored := MemoryStore.contents_eq_some found
  obtain ⟨proper, ne⟩ := sane.proper stored
  rw [MemoryStore.contents_put]
  change Contents.Forest (update _ c'.id (some c'.toSnapshot)) depth
  rw [ownId, (sane.record found).1]
  apply forest.amend stored proper ne parentId (forest.listed_filter stored proper members _)
  intro t child
  obtain ⟨r', found', rfl⟩ := MemoryStore.contents_eq_some_iff.1 child
  exact noChild r' found'

theorem Moved.forest {answer : Container} (sane : S.contents.Sane) (forest : S.contents.Forest depth)
    (moved : Moved S id target answer events S') (admits : S.contents.shape.Admits depth id target) :
    S'.contents.Forest depth := by
  cases moved with
  | stay => exact forest
  | @go r c c' time _ _ S₁ S₂ found hydrated elsewhere apart done attached detached =>
    obtain ⟨sound, same, -⟩ := Record.sound_of_hydrate hydrated
    obtain ⟨-, ownId, parentId, -, members, -⟩ := sound.reparent done
    rw [same] at ownId members
    have stored := MemoryStore.contents_eq_some found
    have sane₁ := attached.sane sane
    have source₁ : S₁.contents r.parentId = S.contents r.parentId := by
      rw [MemoryStore.contents, (attached.edits sane).others _ elsewhere]
      rfl
    have detachedFrom : S₂.contents = S₁.contents ∨ ∃ q q', S.contents r.parentId = some q ∧
        S₂.contents = update S₁.contents r.parentId (some q') ∧ r.parentId ≠ "" ∧
        q'.parentId = q.parentId ∧ q'.members = q.members.filter (·.id ≠ id) := by
      rw [← source₁]
      exact detached.contents sane₁
    rw [MemoryStore.contents_put]
    change Contents.Forest (update _ c'.id (some c'.toSnapshot)) depth
    rw [ownId, (sane id r.container stored).1]
    exact forest.move stored (sane.proper stored).1 sane parentId members admits elsewhere _ _
      (attached.contents sane) detachedFrom

/-! ### The shape of the hierarchy -/

/-- Only creations, deletions and moves change who is whose parent. -/
theorem MemoryStore.shape_put (sane : S.contents.Sane) {r : Record} {c : Container}
    (found : S.records[id]? = some r) (own : c.id = r.id) (parentId : c.parentId = r.container.parentId) :
    (S.put (r.next c)).contents.shape = S.contents.shape := by
  have key : (r.next c).id = id := own.trans (sane.record found).1
  have link := MemoryStore.shape_eq_some found
  rw [← parentId] at link
  rw [MemoryStore.contents_put, Contents.shape_update, key]
  change Function.update S.contents.shape id (some c.parentId) = S.contents.shape
  rw [← link, Function.update_eq_self]

theorem Amended.shape {update : MetadataUpdate} {answer : Container} (sane : S.contents.Sane)
    (amended : Amended S id update answer events S') : S'.contents.shape = S.contents.shape := by
  obtain ⟨r, c, time, found, hydrated, -, -, rfl⟩ := amended
  split
  · rfl
  · obtain ⟨-, same, -⟩ := Record.sound_of_hydrate hydrated
    obtain ⟨ownId, parentId, -, -⟩ := Repository.sameShape_applyUpdate c update time
    rw [same] at ownId parentId
    exact MemoryStore.shape_put sane found ownId parentId

theorem Grown.shape {classifier : Classifier} {member : String} {added : Member} (sane : S.contents.Sane)
    (grown : Grown classifier S id member added events S') : S'.contents.shape = S.contents.shape := by
  obtain ⟨r, c, c', found, hydrated, -, -, added, -, rfl⟩ := grown
  obtain ⟨ownId, parentId, -, -⟩ := Record.of_add hydrated added
  exact MemoryStore.shape_put sane found ownId parentId

theorem Shrunk.shape {member : String} {removed : Member} (sane : S.contents.Sane)
    (shrunk : Shrunk S id member removed events S') : S'.contents.shape = S.contents.shape := by
  obtain ⟨r, c, time, c', found, hydrated, -, removed, -, rfl⟩ := shrunk
  obtain ⟨ownId, parentId, -, -⟩ := Record.of_remove hydrated removed
  exact MemoryStore.shape_put sane found ownId parentId

/-! ### How records follow each other -/

/-- What may happen to the record of an identifier in one change: nothing, the next revision, a first record of
an identifier never used, or the end. -/
inductive RecordStep (S : MemoryStore) (x : String) (S' : MemoryStore) : Prop
  | same : S'.records[x]? = S.records[x]? → S'.retired.contains x = S.retired.contains x → RecordStep S x S'
  | next {r : Record} {c : Container} : S.records[x]? = some r → S'.records[x]? = some (r.next c) →
      RecordStep S x S'
  | first {c : Container} : S.records[x]? = none → S.retired.contains x = false →
      S'.records[x]? = some (.first c) → RecordStep S x S'
  | gone : S'.records[x]? = none → S'.retired.contains x = true → RecordStep S x S'

/-- Every record takes one such step. -/
def MemoryStore.Evolves (S S' : MemoryStore) : Prop :=
  ∀ x, RecordStep S x S'

theorem MemoryStore.evolves_refl (S : MemoryStore) : S.Evolves S :=
  fun _ => .same rfl rfl

theorem MemoryStore.Edits.step {x : String} (edits : S.Edits x S') (y : String) : RecordStep S y S' := by
  by_cases at_x : y = x
  · subst at_x
    rcases edits.own with same | ⟨r, c, before, after⟩
    · exact .same same (by rw [edits.retired])
    · exact .next before after
  · exact .same (edits.others y at_x) (by rw [edits.retired])

theorem MemoryStore.Edits.evolves {x : String} (edits : S.Edits x S') : S.Evolves S' :=
  fun y => edits.step y

theorem Created.evolves {c : Container} (sane : S.contents.Sane) (created : Created S c events S') :
    S.Evolves S' := by
  obtain ⟨time, parentEvents, attached, -⟩ := created.attached
  have sane₁ : (S.put (.first c)).contents.Sane := by
    rw [MemoryStore.contents_put]
    exact sane.put created.valid
  have edits := attached.edits sane₁
  have others : ∀ y, c.id ≠ y → (S.put (.first c)).records[y]? = S.records[y]? :=
    fun y ne => MemoryStore.records_put_of_ne ne
  intro x
  by_cases new : c.id = x
  · subst new
    refine .first created.absent created.unused (c := c) ?_
    rw [edits.others _ (Ne.symm created.valid.parent_ne)]
    exact MemoryStore.records_put_self (.first c)
  · have same := others x new
    cases edits.step x with
    | same unchanged retired => exact .same (unchanged.trans same) retired
    | next before after => exact .next (same ▸ before) after
    | first absent unused after => exact .first (same ▸ absent) unused after
    | gone after retired => exact .gone after retired

theorem Deleted.evolves (sane : S.contents.Sane) (deleted : Deleted S id events S') : S.Evolves S' := by
  obtain ⟨r, c, time, parentEvents, S₁, -, -, -, detached, rfl, -⟩ := deleted
  have edits := detached.edits sane
  intro x
  by_cases here : id = x
  · subst here
    apply RecordStep.gone
    · rw [MemoryStore.records_retiring, if_pos rfl]
    · change (S₁.retired.insert id).contains id = true
      exact Std.ExtTreeSet.contains_insert_self
  · have rest : (S₁.retiring id).records[x]? = S₁.records[x]? := by
      rw [MemoryStore.records_retiring, if_neg here]
    have reserved : (S₁.retiring id).retired.contains x = S₁.retired.contains x := by
      change (S₁.retired.insert id).contains x = _
      rw [Std.ExtTreeSet.contains_insert]
      simp [here]
    cases edits.step x with
    | same unchanged retired => exact .same (rest.trans unchanged) (reserved.trans retired)
    | next before after => exact .next before (rest.trans after)
    | first absent unused after => exact .first absent unused (rest.trans after)
    | gone after retired => exact .gone (rest.trans after) (reserved.trans retired)

theorem Moved.evolves {answer : Container} (sane : S.contents.Sane)
    (moved : Moved S id target answer events S') : S.Evolves S' := by
  cases moved with
  | stay => exact S.evolves_refl
  | @go r c c' time _ _ S₁ S₂ found hydrated elsewhere apart done attached detached =>
    obtain ⟨sound, same, -⟩ := Record.sound_of_hydrate hydrated
    obtain ⟨-, ownId, -⟩ := sound.reparent done
    have key : c'.id = id := by
      rw [ownId, same]
      exact (sane.record found).1
    have notSource : r.parentId ≠ id := (sane.proper (MemoryStore.contents_eq_some found)).2
    have first := attached.edits sane
    have second := detached.edits (attached.sane sane)
    have other : ∀ y, y ≠ id → (S₂.put (r.next c')).records[y]? = S₂.records[y]? := by
      intro y ne
      apply MemoryStore.records_put_of_ne
      change c'.id ≠ y
      rw [key]
      exact Ne.symm ne
    have retired : (S₂.put (r.next c')).retired = S.retired := second.retired.trans first.retired
    intro x
    by_cases own : x = id
    · subst own
      refine .next found (c := c') ?_
      rw [← key]
      exact MemoryStore.records_put_self (r.next c')
    by_cases new : x = target
    · -- The new parent is not the old one, so it is written once.
      have unchanged : (S₂.put (r.next c')).records[x]? = S₁.records[x]? := by
        rw [other x own, second.others x (new ▸ Ne.symm elsewhere)]
      cases first.step x with
      | same same _ => exact .same (unchanged.trans same) (by rw [retired])
      | next before after => exact .next before (unchanged.trans after)
      | first absent unused after => exact .first absent unused (unchanged.trans after)
      | gone after reserved =>
        refine .gone (unchanged.trans after) ?_
        rw [retired, ← first.retired]
        exact reserved
    · have before₁ := first.others x new
      cases second.step x with
      | same same _ => exact .same ((other x own).trans (same.trans before₁)) (by rw [retired])
      | next before after => exact .next (before₁ ▸ before) ((other x own).trans after)
      | first absent unused after =>
        exact .first (before₁ ▸ absent) (first.retired ▸ unused) ((other x own).trans after)
      | gone after reserved =>
        refine .gone ((other x own).trans after) ?_
        rw [retired, ← first.retired, ← second.retired]
        exact reserved

theorem Call.Effects.evolves {settings : Settings} {call : Call} {reply : Reply} (sane : S.contents.Sane)
    (effects : call.Effects settings S reply events S') : S.Evolves S' := by
  cases call with
  | create draft =>
    obtain ⟨c, -, -, created⟩ := effects
    exact created.evolves sane
  | delete id => exact effects.2.evolves sane
  | updateMetadata id update =>
    obtain ⟨answer, -, r, c, time, found, hydrated, -, -, rfl⟩ := effects
    split
    · exact S.evolves_refl
    · have ready := Prepared.of_sameShape sane found hydrated (Repository.sameShape_applyUpdate c update time)
      exact (MemoryStore.edits_put found (ready.own.trans (sane.record found).1)).evolves
  | addMember container member =>
    obtain ⟨m, -, r, c, c', found, hydrated, -, -, added, -, rfl⟩ := effects
    exact (MemoryStore.edits_put found ((Record.of_add hydrated added).1.trans (sane.record found).1)).evolves
  | removeMember container member =>
    obtain ⟨m, -, r, c, time, c', found, hydrated, -, removed, -, rfl⟩ := effects
    exact (MemoryStore.edits_put found ((Record.of_remove hydrated removed).1.trans (sane.record found).1)).evolves
  | move id target =>
    obtain ⟨c, -, moved⟩ := effects
    exact moved.evolves sane
  | addMembers container members => exact effects.elim
  | get | contains | listMembers | countMembers | drain | nextBatch | children | parent | path | find | rebuild
  | rebuildAll | verify =>
    rw [effects.2]
    exact S.evolves_refl

end Containment
