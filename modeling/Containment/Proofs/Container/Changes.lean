/-
Module: Containment.Proofs.Container.Changes
Purpose: What each request makes of a container that keeps the rules. Either it takes effect, which is noted with its time
  and reported once, or it leaves the container as it is. Striking off in place is the same as striking off by the list.
Main exports: Container.IsMemberName, Container.Admits, Container.noted, Container.Undergoes,
  Container.removeMember_eq_strike, Container.Sound.perform_undergoes, Container.Undergoes.sound
-/
import Containment.Container.Change
import Containment.Proofs.Container.Rules

namespace Containment

open Time

namespace Container

/-- A name that can stand in a membership list. -/
def IsMemberName (id : String) : Prop :=
  id ≠ "" ∧ ∀ ch ∈ id.toList, Text.isControl ch = false

theorem isMemberName_iff {id : String} : IsMemberName id ↔ ¬ (id.isEmpty || id.toList.any Text.isControl) = true := by
  rw [Bool.or_eq_true, String.isEmpty_iff, List.any_eq_true, not_or]
  simp [IsMemberName]

instance (id : String) : Decidable (IsMemberName id) :=
  decidable_of_iff _ isMemberName_iff.symm

/-- The container can list a member of this name: the name is one, it is not its own, and it is not listed yet. -/
def Admits (c : Container) (id : String) : Prop :=
  IsMemberName id ∧ id ≠ c.id ∧ ∀ m ∈ c.members, m.id ≠ id

/-- The container with a change noted and reported: it has the time of the report, and the report is queued. -/
def noted (c : Container) (event : Event) : Container :=
  (c.touch event.timestamp).queue event

/-- What a request can make of a container, and what is answered. -/
inductive Undergoes (c : Container) : Change → Change.Answer → Container → Prop
  | add {id : String} {type : MemberType} {now : Instant} : c.Admits id →
      Undergoes c (.addMember id type now) .done
        (noted { c with
            memberIds := c.memberIds.insert id
            members := c.members ++ [{ id, type, addedAt := now }] } (.ofMember .memberAdded c.id id type now))
  | notAdd {id : String} {type : MemberType} {now : Instant} {e : ContainerError} : ¬ c.Admits id →
      Undergoes c (.addMember id type now) (.refused e) c
  | remove {m : Member} {now : Instant} : m ∈ c.members →
      Undergoes c (.removeMember m.id now) (.removed m)
        (noted { c with memberIds := c.memberIds.erase m.id, members := c.members.filter (·.id ≠ m.id) }
          (.ofMember .memberRemoved c.id m.id m.type now))
  | notRemove {id : String} {now : Instant} : (∀ m ∈ c.members, m.id ≠ id) →
      Undergoes c (.removeMember id now) (.refused (.memberNotFound c.id id)) c
  | set {key value : String} {now : Instant} : isReserved key = false →
      Undergoes c (.setProperty key value now) .done
        (noted { c with metadata := c.metadata.insert key value } ((c.updated now).withProperty "set" key))
  | notSet {key value : String} {now : Instant} : isReserved key = true →
      Undergoes c (.setProperty key value now) .done c
  | erase {key value : String} {now : Instant} : isReserved key = false → c.metadata[key]? = some value →
      Undergoes c (.removeProperty key now) (.taken (some value))
        (noted { c with metadata := c.metadata.erase key } ((c.updated now).withProperty "removed" key))
  | notErase {key : String} {now : Instant} : isReserved key = true ∨ c.metadata[key]? = none →
      Undergoes c (.removeProperty key now) (.taken none) c
  | title {title : String} {now : Instant} {answer : Change.Answer} {c' : Container} :
      Undergoes c (.setProperty "title" title now) answer c' → Undergoes c (.setTitle title now) answer c'
  | description {text : String} {now : Instant} {answer : Change.Answer} {c' : Container} :
      Undergoes c (.setProperty "description" text now) answer c' → Undergoes c (.setDescription text now) answer c'
  | reparent {parentId : String} {now : Instant} : parentId ≠ c.id →
      Undergoes c (.reparent parentId now) .done
        (noted { c with parentId }
          (((c.updated now).withProperty "previous_parent_id" c.parentId).withProperty "parent_id" parentId))
  | notReparent {now : Instant} : Undergoes c (.reparent c.id now) (.refused (.circularReference c.id c.id)) c
  | markDeleted {now : Instant} : Undergoes c (.markDeleted now) .done (c.markDeleted now)
  | takeEvents : Undergoes c .takeEvents (.events c.pending) { c with pending := [] }

variable {c c' : Container} {id : String} {type : MemberType} {now : Instant} {change : Change}
  {answer : Change.Answer}

/-! ### Each request in its turn -/

/-- A member can be listed just if the checks let it pass. -/
theorem Sound.admits_iff (sound : c.Sound) : c.Admits id ↔
    ¬ (id.isEmpty || id.toList.any Text.isControl) = true ∧ id ≠ c.id ∧ ¬ c.memberIds.contains id = true := by
  have unlisted : (∀ m ∈ c.members, m.id ≠ id) ↔ ¬ c.memberIds.contains id = true := by
    rw [← Std.ExtTreeSet.mem_iff_contains, sound.mem_memberIds]
    simp
  rw [Admits, isMemberName_iff, unlisted]

theorem Sound.undergoes_addMember (sound : c.Sound) :
    c.Undergoes (.addMember id type now) (c.perform (.addMember id type now)).1
      (c.perform (.addMember id type now)).2 := by
  have refused : ∀ e, c.addMember id type now = .error e → ¬ c.Admits id →
      c.Undergoes (.addMember id type now) (c.perform (.addMember id type now)).1
        (c.perform (.addMember id type now)).2 := by
    intro e failed unfit
    rw [perform, failed]
    exact .notAdd unfit
  rw [sound.admits_iff] at refused
  by_cases bad : (id.isEmpty || id.toList.any Text.isControl) = true
  · refine refused (.invalidMemberId c.id id) ?_ (fun fit => fit.1 bad)
    rw [Container.addMember, if_pos bad]
    rfl
  by_cases own : id = c.id
  · refine refused (.selfMembership id) ?_ (fun fit => fit.2.1 own)
    rw [Container.addMember, if_neg bad, if_pos own]
    rfl
  by_cases known : c.memberIds.contains id = true
  · refine refused (.duplicateMember c.id id) ?_ (fun fit => fit.2.2 known)
    rw [Container.addMember, if_neg bad, if_neg own, if_pos known]
    rfl
  · rw [perform, Container.addMember, if_neg bad, if_neg own, if_neg known]
    exact .add (sound.admits_iff.2 ⟨bad, own, known⟩)

/-- What is found in the look-up set is found in the list. -/
theorem Sound.exists_find? (sound : c.Sound) (known : id ∈ c.memberIds) :
    ∃ m, c.members.find? (·.id == id) = some m ∧ m ∈ c.members ∧ m.id = id := by
  obtain ⟨m, mem, same⟩ := (sound.mem_memberIds id).1 known
  obtain ⟨found, is⟩ : ∃ found, c.members.find? (·.id == id) = some found := by
    rw [← Option.isSome_iff_exists, List.find?_isSome]
    exact ⟨m, mem, beq_iff_eq.2 same⟩
  exact ⟨found, is, List.mem_of_find?_eq_some is, by simpa using List.find?_some is⟩

/-- Striking off in place gives what striking off gives, wherever that succeeds and whatever it fails with. -/
theorem removeMember_eq_strike (c : Container) (id : String) (now : Instant) :
    c.removeMember id now = match c.strike id now with
      | (.ok removed, shrunk) => .ok (removed, shrunk)
      | (.error e, _) => .error e := by
  rw [Container.removeMember, strike]
  by_cases unknown : (!c.memberIds.contains id) = true
  · rw [if_pos unknown, if_pos unknown]
    rfl
  · rw [if_neg unknown, if_neg unknown]
    cases found : c.members.find? (·.id == id) with
    | none =>
      simp only [found]
      rfl
    | some removed =>
      simp only [found]
      rfl

theorem Sound.undergoes_removeMember (sound : c.Sound) :
    c.Undergoes (.removeMember id now) (c.perform (.removeMember id now)).1
      (c.perform (.removeMember id now)).2 := by
  by_cases known : id ∈ c.memberIds
  · obtain ⟨m, found, mem, rfl⟩ := sound.exists_find? known
    have passes : ¬ (!c.memberIds.contains m.id) = true := by
      rw [Std.ExtTreeSet.mem_iff_contains.1 known]
      decide
    rw [perform, strike, if_neg passes]
    simp only [found, eraseP_eq_filter sound.valid.nodup m.id]
    exact .remove mem
  · have fails : (!c.memberIds.contains id) = true := by
      rw [Std.ExtTreeSet.mem_iff_contains, Bool.not_eq_true] at known
      rw [known]
      rfl
    rw [perform, strike, if_pos fails]
    rw [sound.mem_memberIds] at known
    exact .notRemove fun m mem same => known ⟨m, mem, same⟩

theorem undergoes_setProperty (c : Container) (key value : String) (now : Instant) :
    c.Undergoes (.setProperty key value now) .done (c.setProperty key value now) := by
  rw [Container.setProperty]
  split
  · rename_i reserved
    exact .notSet reserved
  · rename_i plain
    exact .set (Bool.eq_false_iff.2 plain)

theorem undergoes_removeProperty (c : Container) (key : String) (now : Instant) :
    c.Undergoes (.removeProperty key now) (.taken (c.removeProperty key now).1) (c.removeProperty key now).2 := by
  rw [Container.removeProperty]
  split
  · rename_i reserved
    exact .notErase (.inl reserved)
  · rename_i plain
    cases found : c.metadata[key]? with
    | none => exact .notErase (.inr found)
    | some value => exact .erase (Bool.eq_false_iff.2 plain) found

theorem undergoes_reparent (c : Container) (parentId : String) (now : Instant) :
    c.Undergoes (.reparent parentId now) (c.perform (.reparent parentId now)).1
      (c.perform (.reparent parentId now)).2 := by
  by_cases own : parentId = c.id
  · subst own
    rw [perform, Container.reparent, if_pos rfl]
    exact .notReparent
  · rw [perform, Container.reparent, if_neg own]
    exact .reparent own

/-- A container that keeps the rules undergoes what is asked of it. -/
theorem Sound.perform_undergoes (sound : c.Sound) (change : Change) :
    c.Undergoes change (c.perform change).1 (c.perform change).2 := by
  cases change with
  | addMember id type now => exact sound.undergoes_addMember
  | removeMember id now => exact sound.undergoes_removeMember
  | setProperty key value now => exact undergoes_setProperty c key value now
  | removeProperty key now => exact undergoes_removeProperty c key now
  | setTitle title now => exact .title (undergoes_setProperty c "title" title now)
  | setDescription text now => exact .description (undergoes_setProperty c "description" text now)
  | reparent parentId now => exact undergoes_reparent c parentId now
  | markDeleted now => exact .markDeleted
  | takeEvents => exact .takeEvents

/-! ### The rules are kept -/

/-- Only shape and look-up set matter for the rules. -/
theorem Sound.congr (sound : c.Sound) (shape : c.SameShape c') (memberIds : c'.memberIds = c.memberIds) : c'.Sound := by
  refine ⟨shape.valid sound.valid, fun id => ?_⟩
  rw [memberIds, shape.members]
  exact sound.mem_memberIds id

theorem Sound.insert (sound : c.Sound) (admits : c.Admits id) (type : MemberType) (now : Instant) :
    Sound { c with memberIds := c.memberIds.insert id, members := c.members ++ [{ id, type, addedAt := now }] } := by
  obtain ⟨-, other, absent⟩ := admits
  refine ⟨sound.valid.append absent other, fun x => ?_⟩
  change x ∈ c.memberIds.insert id ↔ ∃ m ∈ c.members ++ [_], m.id = x
  rw [Std.ExtTreeSet.mem_insert, Std.LawfulEqCmp.compare_eq_iff_eq, sound.mem_memberIds]
  simp only [List.mem_append, List.mem_singleton, or_and_right, exists_or, exists_eq_left]
  exact or_comm

theorem Sound.erase (sound : c.Sound) (id : String) :
    Sound { c with memberIds := c.memberIds.erase id, members := c.members.filter (·.id ≠ id) } := by
  refine ⟨sound.valid.sublist List.filter_sublist, fun x => ?_⟩
  change x ∈ c.memberIds.erase id ↔ ∃ m ∈ c.members.filter _, m.id = x
  rw [Std.ExtTreeSet.mem_erase, ne_eq, Std.LawfulEqCmp.compare_eq_iff_eq, sound.mem_memberIds]
  simp only [List.mem_filter, decide_eq_true_eq]
  grind

theorem Undergoes.sound (step : c.Undergoes change answer c') (sound : c.Sound) : c'.Sound := by
  induction step with
  | @add id type now admits => exact (sound.insert admits type now).congr ⟨rfl, rfl, rfl, rfl⟩ rfl
  | @remove m now mem => exact (sound.erase m.id).congr ⟨rfl, rfl, rfl, rfl⟩ rfl
  | reparent other =>
    obtain ⟨⟨id_ok, -, member_ne, nodup⟩, mem_memberIds⟩ := sound
    exact ⟨⟨id_ok, other, member_ne, nodup⟩, mem_memberIds⟩
  | set | erase | markDeleted | takeEvents => exact sound.congr ⟨rfl, rfl, rfl, rfl⟩ rfl
  | title _ ih | description _ ih => exact ih
  | notAdd | notRemove | notSet | notErase | notReparent => exact sound

theorem Sound.of_create {parentId : String} {type : ContainerType} (made : create id parentId type now = .ok c) :
    c.Sound := by
  obtain ⟨named, other, rfl⟩ := create_eq_ok_iff.1 made
  exact ⟨⟨named, other, fun m impossible => absurd impossible List.not_mem_nil, List.nodup_nil⟩, by simp [fresh]⟩

end Container

end Containment
