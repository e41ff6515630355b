/-
Module: Containment.Proofs.Container.Rules
Purpose: The rules that a container keeps, said without the order in which they are checked, and what each
  change of a container that keeps them makes of its lasting state.
Main exports: ContainerId.check_eq_ok_iff, Snapshot.Valid, Snapshot.touched, Container.Sound,
  Container.validate_eq_ok_iff, Container.create_eq_ok_iff, Record.hydrate_eq_ok_iff, Container.Sound.addMember,
  Container.Sound.removeMember, Container.Sound.reparent, Container.Sound.exists_addMember,
  Container.Sound.addMember_again, Container.Sound.exists_removeMember
-/
import Containment.Store.Error
import Mathlib.Data.List.Nodup

namespace Containment

open Time

/-- The check of an identifier accepts just those that are valid. -/
theorem ContainerId.check_eq_ok_iff {id : String} : ContainerId.check id = .ok () ↔ ContainerId.Valid id := by
  simp only [check, Valid, List.isEmpty_iff, String.toList_eq_nil_iff, List.contains_iff_mem, List.any_eq_true]
  by_cases empty : id = ""
  · simp [empty]
  by_cases slash : '/' ∈ id.toList
  · simp [empty, slash]
  · simp [empty, slash]

/-- The rules of containers that need no other container. -/
structure Snapshot.Valid (s : Snapshot) : Prop where
  id_ok : ContainerId.check s.id = .ok ()
  parent_ne : s.parentId ≠ s.id
  member_ne : ∀ m ∈ s.members, m.id ≠ s.id
  nodup : (s.members.map Member.id).Nodup

theorem Snapshot.Valid.id_ne_empty {s : Snapshot} (valid : s.Valid) : s.id ≠ "" := by
  intro empty
  have ok := valid.id_ok
  rw [empty] at ok
  cases ok

/-- A member that is not listed yet may come last. -/
theorem Snapshot.Valid.append {s : Snapshot} (valid : s.Valid) {m : Member} (absent : ∀ n ∈ s.members, n.id ≠ m.id)
    (other : m.id ≠ s.id) : Snapshot.Valid { s with members := s.members ++ [m] } := by
  refine ⟨valid.id_ok, valid.parent_ne, ?_, ?_⟩
  · intro n mem
    rcases List.mem_append.1 mem with old | new
    · exact valid.member_ne n old
    · rw [List.mem_singleton.1 new]
      exact other
  · change ((s.members ++ [m]).map Member.id).Nodup
    rw [List.map_append, List.nodup_append]
    refine ⟨valid.nodup, List.nodup_singleton _, ?_⟩
    intro a listed b single same
    obtain ⟨n, mem, rfl⟩ := List.mem_map.1 listed
    rw [List.map_singleton, List.mem_singleton] at single
    exact absent n mem (same.trans single)

/-- Members may be left out. -/
theorem Snapshot.Valid.sublist {s : Snapshot} (valid : s.Valid) {members : List Member}
    (sublist : members.Sublist s.members) : Snapshot.Valid { s with members } :=
  ⟨valid.id_ok, valid.parent_ne, fun m mem => valid.member_ne m (sublist.subset mem),
    valid.nodup.sublist (sublist.map Member.id)⟩

/-- A lasting state with the time of a change noted in it. -/
def Snapshot.touched (s : Snapshot) (now : Instant) : Snapshot :=
  { s with updatedAt := now, metadata := s.metadata.insert Container.modifiedKey now.toOffsetText }

namespace Container

theorem isReserved_eq_false_iff {key : String} :
    isReserved key = false ↔ key ≠ createdKey ∧ key ≠ modifiedKey := by
  rw [isReserved, Bool.or_eq_false_iff, beq_eq_false_iff_ne, beq_eq_false_iff_ne]

theorem contains_idsOf_aux {members : List Member} {seen : Std.ExtTreeSet String} {id : String} :
    id ∈ members.foldl (fun ids m => ids.insert m.id) seen ↔ id ∈ seen ∨ ∃ m ∈ members, m.id = id := by
  induction members generalizing seen with
  | nil => simp
  | cons m rest ih =>
    rw [List.foldl_cons, ih, Std.ExtTreeSet.mem_insert]
    simp only [Std.LawfulEqCmp.compare_eq_iff_eq, List.mem_cons, exists_eq_or_imp]
    tauto

/-- The look-up set of a membership list holds just the identifiers in it. -/
theorem mem_idsOf {members : List Member} {id : String} :
    id ∈ idsOf members ↔ ∃ m ∈ members, m.id = id := by
  rw [idsOf, contains_idsOf_aux]
  simp

theorem checkMembers_eq_ok_iff {id : String} {members : List Member} {seen : Std.ExtTreeSet String} :
    checkMembers id members seen = .ok () ↔
      (∀ m ∈ members, m.id ≠ id ∧ m.id ∉ seen) ∧ (members.map Member.id).Nodup := by
  induction members generalizing seen with
  | nil => simp [checkMembers]
  | cons m rest ih =>
    rw [checkMembers]
    split
    · rename_i own
      simp [own]
    · rename_i other
      split
      · rename_i known
        have known : m.id ∈ seen := known
        simp [known]
      · rename_i fresh
        have fresh : m.id ∉ seen := fresh
        rw [ih]
        simp only [Std.ExtTreeSet.mem_insert, Std.LawfulEqCmp.compare_eq_iff_eq, List.mem_cons,
          forall_eq_or_imp, List.map_cons, List.nodup_cons, List.mem_map]
        grind

/-- Validation accepts just what keeps the rules. -/
theorem validate_eq_ok_iff {s : Snapshot} : validate s = .ok () ↔ s.Valid := by
  simp only [validate, checkId]
  constructor
  · intro accepted
    cases check : ContainerId.check s.id with
    | error fault => rw [check] at accepted; cases accepted
    | ok u =>
      rw [check] at accepted
      by_cases own : s.parentId = s.id
      · rw [if_pos own] at accepted
        cases accepted
      · rw [if_neg own] at accepted
        have members := checkMembers_eq_ok_iff.1 (show checkMembers s.id s.members ∅ = .ok () from accepted)
        exact ⟨check, own, fun m mem => (members.1 m mem).1, members.2⟩
  · intro valid
    rw [valid.id_ok, if_neg valid.parent_ne]
    exact checkMembers_eq_ok_iff.2 ⟨fun m mem => ⟨valid.member_ne m mem, by simp⟩, valid.nodup⟩

/-- A container that keeps the rules, and whose look-up set fits its membership list. -/
structure Sound (c : Container) : Prop where
  valid : c.toSnapshot.Valid
  mem_memberIds : ∀ id, id ∈ c.memberIds ↔ ∃ m ∈ c.members, m.id = id

theorem restore_eq_ok_iff {s : Snapshot} {c : Container} :
    restore s = .ok c ↔ s.Valid ∧ c = { s with memberIds := idsOf s.members, pending := [] } := by
  simp only [restore]
  constructor
  · intro made
    cases check : validate s with
    | error fault => rw [check] at made; cases made
    | ok u =>
      rw [check] at made
      cases made
      exact ⟨validate_eq_ok_iff.1 check, rfl⟩
  · intro given
    rcases given with ⟨valid, rfl⟩
    rw [validate_eq_ok_iff.2 valid]
    rfl

theorem Sound.of_restore {s : Snapshot} {c : Container} (restored : restore s = .ok c) :
    c.Sound ∧ c.toSnapshot = s ∧ c.pending = [] := by
  obtain ⟨valid, rfl⟩ := restore_eq_ok_iff.1 restored
  exact ⟨⟨valid, fun id => mem_idsOf⟩, rfl, rfl⟩

/-- A container just made: it is empty, its two times are the same, and its making is the one report queued. -/
def fresh (id parentId : String) (type : ContainerType) (now : Instant) : Container :=
  let created : Event := { kind := .containerCreated, containerId := id, timestamp := now }
  { id, parentId, type, members := []
    metadata := ((∅ : Metadata).insert createdKey now.toOffsetText).insert modifiedKey now.toOffsetText
    createdAt := now, updatedAt := now, memberIds := ∅
    pending := [(created.withProperty "container_type" type.name).withProperty "parent_id" parentId] }

/-- A container can be made of every valid identifier, under every other name. -/
theorem create_eq_ok_iff {id parentId : String} {type : ContainerType} {now : Instant} {c : Container} :
    create id parentId type now = .ok c ↔
      ContainerId.check id = .ok () ∧ parentId ≠ id ∧ c = fresh id parentId type now := by
  rw [create, checkId]
  constructor
  · intro made
    cases checked : ContainerId.check id with
    | error fault =>
      rw [checked] at made
      cases made
    | ok u =>
      rw [checked] at made
      by_cases own : parentId = id
      · rw [if_pos own] at made
        cases made
      · rw [if_neg own] at made
        cases made
        exact ⟨rfl, own, rfl⟩
  · rintro ⟨named, other, rfl⟩
    rw [named, if_neg other]
    rfl

theorem containsMember_iff {c : Container} (sound : c.Sound) {id : String} :
    c.containsMember id = true ↔ ∃ m ∈ c.members, m.id = id :=
  sound.mem_memberIds id

/-- What adding a member makes of a container. -/
theorem of_addMember {c grown : Container} {id : String} {type : MemberType} {now : Instant}
    (added : c.addMember id type now = .ok grown) :
    id ≠ c.id ∧ ¬ c.memberIds.contains id = true ∧
      grown = (Container.touch
        { c with memberIds := c.memberIds.insert id, members := c.members ++ [{ id, type, addedAt := now }] }
          now).queue (.ofMember .memberAdded c.id id type now) := by
  unfold Container.addMember at added
  by_cases bad : (id.isEmpty || id.toList.any Text.isControl) = true
  · rw [if_pos bad] at added
    cases added
  rw [if_neg bad] at added
  by_cases own : id = c.id
  · simp only [if_pos own] at added
    cases added
  by_cases known : c.memberIds.contains id = true
  · simp only [if_neg own, if_pos known] at added
    cases added
  simp only [if_neg own, if_neg known] at added
  cases added
  exact ⟨own, known, rfl⟩

/-- Adding a member puts it at the end and changes nothing else but the time of the change. -/
theorem Sound.addMember {c grown : Container} (sound : c.Sound) {id : String} {type : MemberType}
    {now : Instant} (added : c.addMember id type now = .ok grown) :
    (∀ m ∈ c.members, m.id ≠ id) ∧ id ≠ c.id ∧
      grown.id = c.id ∧ grown.parentId = c.parentId ∧ grown.type = c.type ∧
      grown.members = c.members ++ [{ id, type, addedAt := now }] ∧
      grown.pending = c.pending ++ [.ofMember .memberAdded c.id id type now] ∧
      grown.toSnapshot.Valid := by
  obtain ⟨own, known, rfl⟩ := of_addMember added
  have absent : ∀ m ∈ c.members, m.id ≠ id :=
    fun m mem same => known ((sound.mem_memberIds id).2 ⟨m, mem, same⟩)
  have grown : Snapshot.Valid { c.toSnapshot with members := c.members ++ [{ id, type, addedAt := now }] } :=
    sound.valid.append absent own
  exact ⟨absent, own, rfl, rfl, rfl, rfl, rfl, grown.id_ok, grown.parent_ne, grown.member_ne, grown.nodup⟩

/-- Of members with distinct identifiers, taking out the first one with an identifier takes out all. -/
theorem eraseP_eq_filter {members : List Member} (nodup : (members.map Member.id).Nodup) (id : String) :
    members.eraseP (·.id == id) = members.filter (·.id ≠ id) := by
  induction members with
  | nil => rfl
  | cons m rest ih =>
    rw [List.map_cons, List.nodup_cons] at nodup
    by_cases same : m.id = id
    · have others : rest.filter (·.id ≠ id) = rest := by
        apply List.filter_eq_self.2
        intro n mem
        simp only [ne_eq, decide_not, Bool.not_eq_eq_eq_not, Bool.not_true, decide_eq_false_iff_not]
        intro repeated
        exact nodup.1 (List.mem_map.2 ⟨n, mem, repeated.trans same.symm⟩)
      rw [List.eraseP_cons_of_pos (by simpa using same), List.filter_cons_of_neg (by simpa using same), others]
    · rw [List.eraseP_cons_of_neg (by simpa using same), List.filter_cons_of_pos (by simpa using same),
        ih nodup.2]

/-- What removing a member makes of a container. -/
theorem of_removeMember {c shrunk : Container} {id : String} {now : Instant} {removed : Member}
    (done : c.removeMember id now = .ok (removed, shrunk)) :
    c.members.find? (·.id == id) = some removed ∧
      shrunk = (Container.touch
        { c with memberIds := c.memberIds.erase id, members := c.members.eraseP (·.id == id) } now).queue
          (.ofMember .memberRemoved c.id removed.id removed.type now) := by
  unfold Container.removeMember at done
  by_cases unknown : (!c.memberIds.contains id) = true
  · rw [if_pos unknown] at done
    cases done
  rw [if_neg unknown] at done
  cases found : c.members.find? (·.id == id) with
  | none =>
    simp only [found] at done
    cases done
  | some m =>
    simp only [found] at done
    cases done
    exact ⟨rfl, rfl⟩

/-- Removing a member takes its entry out and changes nothing else but the time of the change. -/
theorem Sound.removeMember {c shrunk : Container} (sound : c.Sound) {id : String} {now : Instant}
    {removed : Member} (done : c.removeMember id now = .ok (removed, shrunk)) :
    removed ∈ c.members ∧ removed.id = id ∧
      shrunk.id = c.id ∧ shrunk.parentId = c.parentId ∧ shrunk.type = c.type ∧
      shrunk.members = c.members.filter (·.id ≠ id) ∧
      shrunk.pending = c.pending ++ [.ofMember .memberRemoved c.id id removed.type now] ∧
      shrunk.toSnapshot.Valid := by
  obtain ⟨found, rfl⟩ := of_removeMember done
  have same : removed.id = id := by simpa using List.find?_some found
  have shape : c.members.eraseP (·.id == id) = c.members.filter (·.id ≠ id) :=
    eraseP_eq_filter sound.valid.nodup id
  have shrunk := sound.valid.sublist (List.eraseP_sublist (p := fun m : Member => m.id == id))
  refine ⟨List.mem_of_find?_eq_some found, same, rfl, rfl, rfl, shape, ?_, shrunk.id_ok, shrunk.parent_ne,
    shrunk.member_ne, shrunk.nodup⟩
  rw [← same]
  rfl

/-- What pointing a container at another parent makes of it. -/
theorem of_reparent {c moved : Container} {parentId : String} {now : Instant}
    (done : c.reparent parentId now = .ok moved) :
    parentId ≠ c.id ∧ moved = (Container.touch { c with parentId } now).queue
      (((c.updated now).withProperty "previous_parent_id" c.parentId).withProperty "parent_id" parentId) := by
  unfold Container.reparent at done
  by_cases own : parentId = c.id
  · rw [if_pos own] at done
    cases done
  rw [if_neg own] at done
  cases done
  exact ⟨own, rfl⟩

/-- Pointing a container at another parent changes the parent and the time of the change only. -/
theorem Sound.reparent {c moved : Container} (sound : c.Sound) {parentId : String} {now : Instant}
    (done : c.reparent parentId now = .ok moved) :
    parentId ≠ c.id ∧ moved.id = c.id ∧ moved.parentId = parentId ∧ moved.type = c.type ∧
      moved.members = c.members ∧ moved.toSnapshot.Valid := by
  obtain ⟨own, rfl⟩ := of_reparent done
  exact ⟨own, rfl, rfl, rfl, rfl, sound.valid.id_ok, own, sound.valid.member_ne, sound.valid.nodup⟩

/-! ### What is lasting of a change

Beside what it is about, a change leaves its time in two places. -/

theorem addMember_toSnapshot {c grown : Container} {id : String} {type : MemberType} {now : Instant}
    (added : c.addMember id type now = .ok grown) :
    grown.toSnapshot =
      Snapshot.touched { c.toSnapshot with members := c.members ++ [{ id, type, addedAt := now }] } now := by
  obtain ⟨-, -, rfl⟩ := of_addMember added
  rfl

theorem Sound.removeMember_toSnapshot {c shrunk : Container} (sound : c.Sound) {id : String} {now : Instant}
    {removed : Member} (done : c.removeMember id now = .ok (removed, shrunk)) :
    shrunk.toSnapshot =
      Snapshot.touched { c.toSnapshot with members := c.members.filter (·.id ≠ id) } now := by
  obtain ⟨-, rfl⟩ := of_removeMember done
  rw [← eraseP_eq_filter sound.valid.nodup id]
  rfl

theorem reparent_toSnapshot {c moved : Container} {parentId : String} {now : Instant}
    (done : c.reparent parentId now = .ok moved) :
    moved.toSnapshot = Snapshot.touched { c.toSnapshot with parentId } now := by
  obtain ⟨-, rfl⟩ := of_reparent done
  rfl

/-! ### Changes that are not refused -/

/-- A name that identifies a container can also name a member. -/
theorem plain_of_check {x : String} (named : ContainerId.check x = .ok ()) :
    (x.isEmpty || x.toList.any Text.isControl) = false := by
  obtain ⟨nonempty, -, uncontrolled⟩ := ContainerId.check_eq_ok_iff.1 named
  have filled : x.isEmpty = false := by
    rw [Bool.eq_false_iff, ne_eq, String.isEmpty_iff]
    exact nonempty
  rw [filled, Bool.false_or, List.any_eq_false]
  exact fun c mem => Bool.eq_false_iff.1 (uncontrolled c mem)

/-- A name that identifies a container can be listed in another one that does not list it yet. -/
theorem Sound.exists_addMember {p : Container} (sound : p.Sound) {x : String} (named : ContainerId.check x = .ok ())
    (other : x ≠ p.id) (absent : ∀ m ∈ p.members, m.id ≠ x) (type : MemberType) (time : Instant) :
    ∃ grown, p.addMember x type time = .ok grown := by
  have unlisted : p.memberIds.contains x = false := by
    apply Bool.eq_false_iff.2
    intro listed
    obtain ⟨m, mem, same⟩ := (sound.mem_memberIds x).1 listed
    exact absent m mem same
  unfold Container.addMember
  rw [if_neg (Bool.not_eq_true _ ▸ plain_of_check named)]
  simp only [if_neg other, unlisted, Bool.false_eq_true, if_false]
  exact ⟨_, rfl⟩

/-- Nothing is listed twice. -/
theorem Sound.addMember_again {p : Container} (sound : p.Sound) {x : String} (named : ContainerId.check x = .ok ())
    (other : x ≠ p.id) (listed : ∃ m ∈ p.members, m.id = x) (type : MemberType) (time : Instant) :
    p.addMember x type time = .error (.duplicateMember p.id x) := by
  have known : p.memberIds.contains x = true := (sound.mem_memberIds x).2 listed
  unfold Container.addMember
  rw [if_neg (Bool.not_eq_true _ ▸ plain_of_check named)]
  simp only [if_neg other, if_pos known]
  rfl

theorem Sound.exists_removeMember {p : Container} (sound : p.Sound) {x : String} (listed : p.containsMember x = true)
    (time : Instant) : ∃ removed shrunk, p.removeMember x time = .ok (removed, shrunk) := by
  have known : (!p.memberIds.contains x) = false := congrArg (!·) listed
  obtain ⟨m, mem, same⟩ := (containsMember_iff sound).1 listed
  obtain ⟨removed, found⟩ : ∃ removed, p.members.find? (·.id == x) = some removed := by
    rw [← Option.isSome_iff_exists, List.find?_isSome]
    exact ⟨m, mem, beq_iff_eq.2 same⟩
  unfold Container.removeMember
  rw [if_neg (Bool.eq_false_iff.1 known)]
  simp only [found]
  exact ⟨removed, _, rfl⟩

theorem exists_reparent {c : Container} {target : String} (other : target ≠ c.id) (time : Instant) :
    ∃ moved, c.reparent target time = .ok moved := by
  unfold Container.reparent
  rw [if_neg other]
  exact ⟨_, rfl⟩

end Container

/-- Two containers that differ in their properties, times and queues at most. -/
structure Container.SameShape (c d : Container) : Prop where
  id : d.id = c.id
  parentId : d.parentId = c.parentId
  type : d.type = c.type
  members : d.members = c.members

namespace Container

theorem SameShape.valid {c d : Container} (same : c.SameShape d) (valid : c.toSnapshot.Valid) :
    d.toSnapshot.Valid := by
  obtain ⟨idEq, parentEq, -, membersEq⟩ := same
  obtain ⟨id_ok, parent_ne, member_ne, nodup⟩ := valid
  constructor
  · rw [idEq]; exact id_ok
  · rw [idEq, parentEq]; exact parent_ne
  · rw [idEq, membersEq]; exact member_ne
  · rw [membersEq]; exact nodup

theorem SameShape.trans {c d e : Container} (one : c.SameShape d) (two : d.SameShape e) : c.SameShape e :=
  ⟨two.id.trans one.id, two.parentId.trans one.parentId, two.type.trans one.type,
    two.members.trans one.members⟩

/-- One step after another, each of which keeps the shape. -/
theorem sameShape_foldl {α : Type} {step : Container → α → Container}
    (keeps : ∀ (c : Container) (a : α), c.SameShape (step c a)) (items : List α) (c : Container) :
    c.SameShape (items.foldl step c) := by
  induction items generalizing c with
  | nil => exact ⟨rfl, rfl, rfl, rfl⟩
  | cons a rest ih => exact (keeps c a).trans (ih (step c a))

theorem sameShape_setProperty (c : Container) (key value : String) (now : Instant) :
    c.SameShape (c.setProperty key value now) := by
  simp only [setProperty]
  split <;> exact ⟨rfl, rfl, rfl, rfl⟩

theorem sameShape_removeProperty (c : Container) (key : String) (now : Instant) :
    c.SameShape (c.removeProperty key now).2 := by
  simp only [removeProperty]
  split
  · exact ⟨rfl, rfl, rfl, rfl⟩
  · split <;> exact ⟨rfl, rfl, rfl, rfl⟩

end Container

theorem Record.hydrate_eq_ok_iff {r : Record} {c : Container} :
    r.hydrate = .ok c ↔ Container.restore r.container = .ok c := by
  rw [Record.hydrate, Record.toContainer]
  cases Container.restore r.container with
  | ok d =>
    constructor <;> intro same <;> cases same <;> rfl
  | error e =>
    constructor <;> intro same <;> cases same

/-- The container of a record keeps the rules, and nothing is queued in it. -/
theorem Record.sound_of_hydrate {r : Record} {c : Container} (hydrated : r.hydrate = .ok c) :
    c.Sound ∧ c.toSnapshot = r.container ∧ c.pending = [] :=
  Container.Sound.of_restore (Record.hydrate_eq_ok_iff.1 hydrated)

/-- A record whose container keeps the rules can always be read as a container. -/
theorem Record.exists_hydrate {r : Record} (valid : r.container.Valid) : ∃ c, r.hydrate = .ok c :=
  ⟨_, Record.hydrate_eq_ok_iff.2 (Container.restore_eq_ok_iff.2 ⟨valid, rfl⟩)⟩

end Containment
