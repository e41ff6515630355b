/-
Module: Containment.Proofs.Hierarchy.Links
Purpose: The hierarchy as parents and members see it together. Every container that names a parent is listed
  there as a container, and every chain of parents ends at a root within the bound.
Main exports: Snapshot.Lists, Contents.Linked, Contents.Forest, Contents.Forest.create_below,
  Contents.Forest.drop_below, Contents.Forest.amend, Contents.Forest.rehang, Contents.Forest.move
-/
import Containment.Proofs.Hierarchy.Forest

namespace Containment

open Function (update update_apply update_self update_of_ne)

/-- A container is listed as one. -/
def Snapshot.Lists (s : Snapshot) (child : String) : Prop :=
  ∃ m ∈ s.members, m.id = child ∧ m.type = .container

namespace Contents

/-- Every stored container that names a parent is listed there. -/
def Linked (C : Contents) : Prop :=
  ∀ id s, C id = some s → s.parentId ≠ "" → ∃ p, C s.parentId = some p ∧ p.Lists id

/-- A forest of bounded depth whose links agree in both directions. -/
structure Forest (C : Contents) (depth : Nat) : Prop where
  linked : C.Linked
  bounded : C.shape.Bounded depth

variable {C : Contents} {id : String} {s : Snapshot} {depth : Nat}

theorem shape_eq_some_iff {parent : String} :
    C.shape id = some parent ↔ ∃ s, C id = some s ∧ s.parentId = parent :=
  Option.map_eq_some_iff

theorem isSome_shape : (C.shape id).isSome ↔ (C id).isSome := by
  rw [shape, Option.isSome_map]

theorem shape_of_eq (found : C id = some s) : C.shape id = some s.parentId :=
  shape_eq_some_iff.2 ⟨s, found, rfl⟩

theorem linked_empty : Linked fun _ => none := by
  intro id s found
  cases found

theorem forest_empty : Forest (fun _ => none) depth := by
  refine ⟨linked_empty, fun id stored => ?_⟩
  cases stored

/-- The parent's record lists the container. -/
theorem Linked.exists_parent {S : MemoryStore} {r : Record} (linked : S.contents.Linked)
    (found : S.records[id]? = some r) (proper : r.parentId ≠ "") :
    ∃ p, S.records[r.parentId]? = some p ∧ ∃ m ∈ p.container.members, m.id = id ∧ m.type = .container := by
  obtain ⟨s, above, listed⟩ := linked id r.container (MemoryStore.contents_eq_some found) proper
  obtain ⟨p, stored, rfl⟩ := MemoryStore.contents_eq_some_iff.1 above
  exact ⟨p, stored, listed⟩

/-- A container without members is nobody's parent. -/
theorem Linked.childless (linked : C.Linked) (found : C id = some s) (proper : id ≠ "") (empty : s.members = []) :
    ∀ child t, C child = some t → t.parentId ≠ id := by
  intro child t stored same
  subst same
  obtain ⟨p, parent, m, mem, -⟩ := linked child t stored proper
  rw [found] at parent
  cases parent
  rw [empty] at mem
  cases mem

/-- An identifier that is not in use is nobody's parent. -/
theorem Linked.childless_of_absent (linked : C.Linked) (absent : C id = none) (proper : id ≠ "") :
    ∀ child t, C child = some t → t.parentId ≠ id := by
  intro child t stored same
  subst same
  obtain ⟨p, parent, -⟩ := linked child t stored proper
  rw [absent] at parent
  cases parent

/-- Storing a container that lists all its children and is listed in its parent keeps all links. -/
theorem Linked.put (linked : C.Linked) (children : ∀ child t, C child = some t → t.parentId = id → s.Lists child)
    (parent : s.parentId ≠ "" → ∃ p, C s.parentId = some p ∧ p.Lists id) (proper : id ≠ "")
    (other : s.parentId ≠ id) : Linked (update C id (some s)) := by
  intro x t stored up
  by_cases own : x = id
  · subst own
    rw [update_self] at stored
    cases stored
    obtain ⟨p, found, listed⟩ := parent up
    exact ⟨p, by rw [update_of_ne other]; exact found, listed⟩
  · rw [update_of_ne own] at stored
    by_cases below : t.parentId = id
    · exact ⟨s, by rw [below, update_self], children x t stored below⟩
    · obtain ⟨p, found, listed⟩ := linked x t stored up
      exact ⟨p, by rw [update_of_ne below]; exact found, listed⟩

/-- Removing a container that is nobody's parent keeps all links. -/
theorem Linked.drop (linked : C.Linked) (childless : ∀ child t, C child = some t → t.parentId ≠ id) :
    Linked (update C id none) := by
  intro x t stored up
  by_cases gone : x = id
  · subst gone
    rw [update_self] at stored
    cases stored
  · rw [update_of_ne gone] at stored
    obtain ⟨p, found, listed⟩ := linked x t stored up
    exact ⟨p, by rw [update_of_ne (childless x t stored)]; exact found, listed⟩

/-! ### The changes that calls make -/

/-- A container changes, keeps its parent, and still lists all its children. -/
theorem Forest.amend (forest : C.Forest depth) {s' : Snapshot} (found : C id = some s) (proper : id ≠ "")
    (other : s.parentId ≠ id) (parentId : s'.parentId = s.parentId)
    (children : ∀ child t, C child = some t → t.parentId = id → s'.Lists child) :
    Forest (update C id (some s')) depth := by
  constructor
  · apply forest.linked.put children _ proper
    · rw [parentId]
      exact other
    · rw [parentId]
      exact forest.linked id s found
  · have same : shape (update C id (some s')) = C.shape := by
      rw [shape_update, Option.map_some, parentId, ← shape_of_eq found, Function.update_eq_self]
    rw [same]
    exact forest.bounded

/-- A container is still listed after more members have been put behind it. -/
theorem Forest.listed_append (forest : C.Forest depth) (found : C id = some s) (proper : id ≠ "") {s' : Snapshot}
    {more : List Member} (members : s'.members = s.members ++ more) :
    ∀ child t, C child = some t → t.parentId = id → s'.Lists child := by
  intro child t stored same
  subst same
  obtain ⟨p, parent, m, mem, named⟩ := forest.linked child t stored proper
  rw [found] at parent
  cases parent
  exact ⟨m, members ▸ List.mem_append_left _ mem, named⟩

/-- A container is still listed after another one has been struck off. -/
theorem Forest.listed_filter (forest : C.Forest depth) (found : C id = some s) (proper : id ≠ "") {s' : Snapshot}
    {gone : String} (members : s'.members = s.members.filter (·.id ≠ gone))
    (stays : ∀ t, C gone = some t → t.parentId ≠ id) :
    ∀ child t, C child = some t → t.parentId = id → s'.Lists child := by
  intro child t stored same
  subst same
  obtain ⟨p, parent, m, mem, named, type⟩ := forest.linked child t stored proper
  rw [found] at parent
  cases parent
  refine ⟨m, ?_, named, type⟩
  rw [members, List.mem_filter, decide_eq_true_eq]
  refine ⟨mem, ?_⟩
  intro same
  subst same
  exact stays t (named ▸ stored) rfl

/-- A new root. -/
theorem Forest.create_root (forest : C.Forest depth) (positive : 1 ≤ depth) (absent : C id = none)
    (proper : id ≠ "") (top : s.parentId = "") : Forest (update C id (some s)) depth := by
  constructor
  · apply forest.linked.put _ _ proper
    · rw [top]
      exact Ne.symm proper
    · intro child t stored below
      exact absurd below (forest.linked.childless_of_absent absent proper child t stored)
    · intro up
      exact absurd top up
  · rw [shape_update, Option.map_some, top]
    apply forest.bounded.attach_root positive
    rw [shape, absent]
    rfl

/-- A new container below one that lists it and whose chain of parents has room. -/
theorem Forest.create_below (forest : C.Forest depth) {p p' : Snapshot} {entry : Member} {chain : List String}
    (absent : C id = none) (proper : id ≠ "") (up : s.parentId ≠ "") (found : C s.parentId = some p)
    (other : p.parentId ≠ s.parentId) (parentId : p'.parentId = p.parentId)
    (members : p'.members = p.members ++ [entry]) (named : entry.id = id) (type : entry.type = .container)
    (above : C.shape.Chain s.parentId chain) (room : chain.length < depth) :
    Forest (update (update C id (some s)) s.parentId (some p')) depth := by
  have ne : s.parentId ≠ id := by
    intro same
    rw [same, absent] at found
    cases found
  rw [Function.update_comm (Ne.symm ne)]
  have grown : Forest (update C s.parentId (some p')) depth :=
    forest.amend found up other parentId (forest.listed_append found up members)
  have sameShape : shape (update C s.parentId (some p')) = C.shape := by
    rw [shape_update, Option.map_some, parentId, ← shape_of_eq found, Function.update_eq_self]
  have absent' : update C s.parentId (some p') id = none := by
    rw [update_of_ne (Ne.symm ne)]
    exact absent
  constructor
  · apply grown.linked.put _ _ proper ne
    · intro child t stored below
      exact absurd below (grown.linked.childless_of_absent absent' proper child t stored)
    · intro _
      refine ⟨p', update_self .., entry, ?_, named, type⟩
      rw [members]
      exact List.mem_append_right _ List.mem_cons_self
  · rw [shape_update, sameShape]
    apply forest.bounded.attach _ up above room
    rw [shape, absent]
    rfl

/-- A container that is nobody's parent goes. -/
theorem Forest.drop (forest : C.Forest depth) (childless : ∀ child t, C child = some t → t.parentId ≠ id) :
    Forest (update C id none) depth := by
  refine ⟨forest.linked.drop childless, ?_⟩
  rw [shape_update]
  apply forest.bounded.detach
  intro child link
  obtain ⟨t, stored, below⟩ := shape_eq_some_iff.1 link
  exact childless child t stored below

/-- A container that is nobody's parent goes, and its parent strikes it off. -/
theorem Forest.drop_below (forest : C.Forest depth) {parent : String} {p p' : Snapshot}
    (childless : ∀ child t, C child = some t → t.parentId ≠ id) (ne : parent ≠ id) (up : parent ≠ "")
    (found : C parent = some p) (other : p.parentId ≠ parent) (parentId : p'.parentId = p.parentId)
    (members : p'.members = p.members.filter (·.id ≠ id)) :
    Forest (update (update C parent (some p')) id none) depth := by
  rw [Function.update_comm ne]
  have rest := forest.drop childless
  have found' : update C id none parent = some p := by
    rw [update_of_ne ne]
    exact found
  apply rest.amend found' up other parentId (rest.listed_filter found' up members _)
  intro t stored
  rw [update_self] at stored
  cases stored

/-- A container that is stored keeps its members and names another parent that lists it already. -/
theorem Forest.rehang (forest : C.Forest depth) {s' : Snapshot} (found : C id = some s) (proper : id ≠ "")
    (members : s'.members = s.members) (admits : C.shape.Admits depth id s'.parentId)
    (listed : s'.parentId ≠ "" → ∃ p, C s'.parentId = some p ∧ p.Lists id) :
    Forest (update C id (some s')) depth := by
  constructor
  · apply forest.linked.put _ listed proper admits.1
    intro child t stored below
    subst below
    obtain ⟨p, parent, m, mem, named⟩ := forest.linked child t stored proper
    rw [found] at parent
    cases parent
    exact ⟨m, members ▸ mem, named⟩
  · rw [shape_update, Option.map_some]
    exact forest.bounded.move (shape_of_eq found) admits

/-- A container is listed in another parent while it still names its own. -/
theorem Forest.attach (forest : C.Forest depth) {target : String} {C₁ : Contents} (found : C id = some s)
    (sane : C.Sane) (notTarget : target ≠ id) (elsewhere : s.parentId ≠ target)
    (attached : target = "" ∧ C₁ = C ∨ ∃ p p' entry, C target = some p ∧ C₁ = update C target (some p') ∧
      p'.parentId = p.parentId ∧ p'.members = p.members ++ [entry] ∧ entry.id = id ∧ entry.type = .container) :
    Forest C₁ depth ∧ C₁.shape = C.shape ∧ C₁ id = some s ∧ C₁ s.parentId = C s.parentId ∧
      (target ≠ "" → ∃ p, C₁ target = some p ∧ p.Lists id) := by
  rcases attached with ⟨rfl, rfl⟩ | ⟨p, p', entry, stored, rfl, up, grown, named, type⟩
  · exact ⟨forest, rfl, found, rfl, fun ne => absurd rfl ne⟩
  · have own := sane target p stored
    have top : target ≠ "" := own.1 ▸ own.2.id_ne_empty
    have other : p.parentId ≠ target := own.1 ▸ own.2.parent_ne
    refine ⟨forest.amend stored top other up (forest.listed_append stored top grown), ?_, ?_, ?_, ?_⟩
    · rw [shape_update, Option.map_some, up, ← shape_of_eq stored, Function.update_eq_self]
    · rw [update_of_ne (Ne.symm notTarget)]
      exact found
    · rw [update_of_ne elsewhere]
    · intro _
      refine ⟨p', update_self .., entry, ?_, named, type⟩
      rw [grown]
      exact List.mem_append_right _ List.mem_cons_self

/-- A container moves to a place that admits it: it is listed in the new parent, if there is one, and struck off
the old one, if it is listed there. -/
theorem Forest.move (forest : C.Forest depth) {s' : Snapshot} {target : String} (found : C id = some s)
    (proper : id ≠ "") (sane : C.Sane) (parentId : s'.parentId = target) (members : s'.members = s.members)
    (admits : C.shape.Admits depth id target) (elsewhere : s.parentId ≠ target)
    (C₁ C₂ : Contents)
    (attached : target = "" ∧ C₁ = C ∨ ∃ p p' entry, C target = some p ∧ C₁ = update C target (some p') ∧
      p'.parentId = p.parentId ∧ p'.members = p.members ++ [entry] ∧ entry.id = id ∧ entry.type = .container)
    (detached : C₂ = C₁ ∨ ∃ q q', C s.parentId = some q ∧ C₂ = update C₁ s.parentId (some q') ∧
      s.parentId ≠ "" ∧ q'.parentId = q.parentId ∧ q'.members = q.members.filter (·.id ≠ id)) :
    Forest (update C₂ id (some s')) depth := by
  have ownParent : s.parentId ≠ id := by
    have own := sane id s found
    rw [← own.1]
    exact own.2.parent_ne
  -- The new parent lists the container while the container still names the old one.
  obtain ⟨forest₁, shape₁, found₁, source₁, listed₁⟩ := forest.attach found sane admits.1 elsewhere attached
  -- The container names the new parent while the old one still lists it.
  have second : Forest (update C₁ id (some s')) depth := by
    apply forest₁.rehang found₁ proper members
    · rw [shape₁, parentId]
      exact admits
    · rw [parentId]
      exact listed₁
  rcases detached with rfl | ⟨q, q', stored, rfl, up, sameParent, shrunk⟩
  · exact second
  · rw [Function.update_comm ownParent]
    have stored₂ : update C₁ id (some s') s.parentId = some q := by
      rw [update_of_ne ownParent, source₁]
      exact stored
    have own := sane s.parentId q stored
    have other : q.parentId ≠ s.parentId := by
      have ne := own.2.parent_ne
      rw [own.1] at ne
      exact ne
    apply second.amend stored₂ up other sameParent (second.listed_filter stored₂ up shrunk _)
    intro t moved
    rw [update_self] at moved
    cases moved
    rw [parentId]
    exact Ne.symm elsewhere

end Contents

end Containment
