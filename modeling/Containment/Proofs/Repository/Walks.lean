/-
Module: Containment.Proofs.Repository.Walks
Purpose: What the reading steps find: the record of a container, the chain of parents above it, and the height of
  the subtree below it, which bounds how deep anything in it can sit.
Main exports: reads_load, reads_ancestors, reads_childRecords_eq, reads_childRecords, Level, reads_subtreeHeight,
  reads_checkMove
-/
import Containment.Proofs.Hierarchy.Depth
import Containment.Proofs.Hierarchy.Links
import Containment.Proofs.Outcome
import Containment.Repository.Hierarchy

namespace Containment.Repository

open Containment.Action

variable {h : Holdings} {limits : Limits} {id : String}

theorem reads_read? : (read? id).Reads h (· = h.store.records[id]?) :=
  reads_store rfl

theorem reads_isStored : (isStored id).Reads h (· = (h.store.contents id).isSome) := by
  rw [← MemoryStore.contains_records]
  exact reads_store rfl

theorem reads_isRetired : (store (.isRetired id)).Reads h (· = h.store.retired.contains id) :=
  reads_store rfl

/-- Loading finds the stored record and its container. -/
theorem reads_load : (load id).Reads h fun loaded =>
    h.store.records[id]? = some loaded.1 ∧ loaded.1.hydrate = .ok loaded.2 := by
  simp only [load]
  apply reads_read?.bind
  intro found same
  subst same
  cases stored : h.store.records[id]? with
  | none => exact reads_throw not_false
  | some record => exact reads_hydrate.bind fun c hydrated => reads_pure ⟨rfl, hydrated⟩

/-- Climbing goes on from the end of the chain to a root. -/
theorem reads_climb (start : String) (remaining : Nat) (chain : List String) (current : String) :
    (climb limits start remaining chain current).Reads h fun walked =>
      ∃ rest, walked = chain ++ rest ∧ h.store.contents.shape.Chain current (current :: rest) := by
  unfold climb
  apply reads_load.bind
  intro answer given
  rcases answer with ⟨record, c⟩
  rcases given with ⟨found, -⟩
  have link : h.store.contents.shape current = some record.parentId := MemoryStore.shape_eq_some found
  by_cases top : record.parentId.isEmpty
  · simp only [if_pos top]
    have top : record.parentId = "" := String.isEmpty_iff.1 top
    exact reads_pure ⟨[], (List.append_nil _).symm, .root (top ▸ link)⟩
  simp only [if_neg top]
  by_cases known : chain.contains record.parentId
  · simp only [if_pos known]
    exact reads_throw not_false
  simp only [if_neg known]
  match remaining with
  | 0 => exact reads_throw not_false
  | remaining + 1 =>
    have proper : record.parentId ≠ "" := fun empty => top (String.isEmpty_iff.2 empty)
    apply (reads_climb start remaining (chain ++ [record.parentId]) record.parentId).mono
    intro walked given
    rcases given with ⟨rest, rfl, above⟩
    exact ⟨record.parentId :: rest, List.append_assoc .., .step link proper above⟩

/-- The chain of parents above a container. -/
theorem reads_ancestors :
    (ancestors limits id).Reads h fun chain => h.store.contents.shape.Chain id chain := by
  apply (reads_climb id (limits.maxDepth - 1) [id] id).mono
  intro chain given
  rcases given with ⟨rest, rfl, above⟩
  exact above

theorem reads_readAll (ids : List String) :
    (readAll ids).Reads h fun records => records = ids.map fun id => h.store.records[id]? := by
  induction ids with
  | nil => exact reads_pure rfl
  | cons id rest ih =>
    simp only [readAll]
    apply reads_read?.bind
    intro record same
    subst same
    apply ih.bind
    intro records same
    subst same
    exact reads_pure rfl

/-- The records below a container are those of its members that are listed as containers and name it as their
parent. -/
theorem reads_childRecords_eq :
    (childRecords id).Reads h fun records => ∃ r, h.store.records[id]? = some r ∧
      records = ((childCandidates r.container).filterMap fun child => h.store.records[child]?).filter
        (·.parentId == id) := by
  simp only [childRecords]
  apply reads_load.bind
  intro answer given
  rcases answer with ⟨record, c⟩
  rcases given with ⟨found, hydrated⟩
  apply (reads_readAll _).bind
  intro records equal
  subst equal
  obtain ⟨-, same, -⟩ := Record.sound_of_hydrate hydrated
  apply reads_pure
  refine ⟨record, found, ?_⟩
  rw [same, List.filterMap_map]
  rfl

/-- The records below a container name it as their parent, and with links that agree none is missing. -/
theorem reads_childRecords (sane : h.store.contents.Sane) :
    (childRecords id).Reads h fun records =>
      (∀ r ∈ records, h.store.contents.shape r.id = some id) ∧
        (h.store.contents.Linked → id ≠ "" →
          ∀ child, h.store.contents.shape child = some id → ∃ r ∈ records, r.id = child) := by
  apply reads_childRecords_eq.mono
  rintro records ⟨record, found, rfl⟩
  constructor
  · intro r mem
    obtain ⟨mem, own⟩ := List.mem_filter.1 mem
    obtain ⟨child, -, stored⟩ := List.mem_filterMap.1 mem
    have key : r.id = child := (sane.record stored).1
    rw [key, MemoryStore.shape_eq_some stored]
    exact congrArg some (beq_iff_eq.1 own)
  · intro linked proper child below
    obtain ⟨s, stored, rfl⟩ := Contents.shape_eq_some_iff.1 below
    obtain ⟨r, stored', rfl⟩ := MemoryStore.contents_eq_some_iff.1 stored
    obtain ⟨p, parent, m, mem, rfl, type⟩ := linked child r.container stored proper
    rw [MemoryStore.contents_eq_some found] at parent
    cases parent
    have candidate : m.id ∈ childCandidates record.container :=
      List.mem_map.2 ⟨m, List.mem_filter.2 ⟨mem, by simp [Member.isContainer, type]⟩, rfl⟩
    refine ⟨r, List.mem_filter.2 ⟨List.mem_filterMap.2 ⟨m.id, candidate, stored'⟩, ?_⟩, (sane.record stored').1⟩
    exact beq_self_eq_true _

/-! ### The levels below a container -/

/-- Collecting the identifiers of some records that were not seen before. -/
theorem collect_spec (records : List Record) (fresh : List String) (seen : Std.ExtTreeSet String) :
    let collected := records.foldl
      (fun (fresh, seen) r =>
        if seen.contains r.id then (fresh, seen) else (fresh ++ [r.id], seen.insert r.id)) (fresh, seen)
    (∀ x, x ∈ collected.2 ↔ x ∈ seen ∨ ∃ r ∈ records, r.id = x) ∧
      ∀ x, x ∈ collected.1 ↔ x ∈ fresh ∨ x ∉ seen ∧ ∃ r ∈ records, r.id = x := by
  induction records generalizing fresh seen with
  | nil => simp
  | cons r rest ih =>
    simp only [List.foldl_cons]
    by_cases known : r.id ∈ seen
    · have known' : seen.contains r.id = true := known
      rw [if_pos known']
      obtain ⟨allSeen, allFresh⟩ := ih fresh seen
      constructor
      · intro x
        rw [allSeen, List.exists_mem_cons_iff]
        grind
      · intro x
        rw [allFresh, List.exists_mem_cons_iff]
        grind
    · have unknown : ¬ seen.contains r.id = true := known
      rw [if_neg unknown]
      obtain ⟨allSeen, allFresh⟩ := ih (fresh ++ [r.id]) (seen.insert r.id)
      have inserted : ∀ x, x ∈ seen.insert r.id ↔ r.id = x ∨ x ∈ seen := by
        intro x
        rw [Std.ExtTreeSet.mem_insert, Std.LawfulEqCmp.compare_eq_iff_eq]
      constructor
      · intro x
        rw [allSeen, List.exists_mem_cons_iff, inserted]
        tauto
      · intro x
        rw [allFresh, List.exists_mem_cons_iff, inserted, List.mem_append, List.mem_singleton]
        grind

/-- The next level: what was not seen before of the children of a level. -/
theorem reads_nextLevel (sane : h.store.contents.Sane) (level : List String) (seen : Std.ExtTreeSet String) :
    (nextLevel level seen).Reads h fun next =>
      (∀ x, x ∈ next.2 ↔ x ∈ seen ∨ x ∈ next.1) ∧
        (∀ x ∈ next.1, ∃ above ∈ level, h.store.contents.shape x = some above) ∧
        (h.store.contents.Linked → ∀ above ∈ level, above ≠ "" →
          ∀ child, h.store.contents.shape child = some above → child ∈ next.2) := by
  induction level generalizing seen with
  | nil =>
    apply reads_pure
    refine ⟨fun x => by simp, fun x mem => absurd mem List.not_mem_nil, ?_⟩
    exact fun _ above mem => absurd mem List.not_mem_nil
  | cons id rest ih =>
    simp only [nextLevel]
    apply (reads_childRecords sane).bind
    intro records given
    rcases given with ⟨below, complete⟩
    have collected := collect_spec records [] seen
    rcases gathered : records.foldl (fun (fresh, seen) r =>
      if seen.contains r.id then (fresh, seen) else (fresh ++ [r.id], seen.insert r.id))
        (([] : List String), seen) with ⟨fresh, seen₁⟩
    simp only [gathered] at collected ⊢
    obtain ⟨allSeen, allFresh⟩ := collected
    apply (ih seen₁).bind
    intro answer given
    rcases answer with ⟨others, seen₂⟩
    rcases given with ⟨grown, placed, children⟩
    apply reads_pure
    refine ⟨?_, ?_, ?_⟩
    · intro x
      rw [grown, allSeen, List.mem_append, allFresh]
      by_cases old : x ∈ seen
      · simp [old]
      · simp [old]
    · intro x mem
      rcases List.mem_append.1 mem with new | later
      · obtain ⟨-, r, listed, rfl⟩ := ((allFresh x).1 new).resolve_left List.not_mem_nil
        exact ⟨id, List.mem_cons_self, below r listed⟩
      · obtain ⟨above, mem, link⟩ := placed x later
        exact ⟨above, List.mem_cons_of_mem _ mem, link⟩
    · intro linked above mem proper child link
      rcases List.mem_cons.1 mem with rfl | mem
      · obtain ⟨r, listed, rfl⟩ := complete linked proper child link
        exact (grown r.id).2 (.inl ((allSeen r.id).2 (.inr ⟨r, listed, rfl⟩)))
      · exact children linked above mem proper child link

/-- All containers of a level have chains of one length, and what was seen before has no longer ones. -/
structure Level (f : Shape) (depth : Nat) (level : List String) (seen : Std.ExtTreeSet String) : Prop where
  same : ∀ x ∈ level, ∃ chain, f.Chain x chain ∧ chain.length = depth
  before : ∀ x ∈ seen, ∃ chain, f.Chain x chain ∧ chain.length ≤ depth

section

variable {f : Shape} {depth : Nat} {level next : List String} {seen seen' : Std.ExtTreeSet String}

/-- What names a container of the level as its parent has a chain that is longer by one. -/
theorem Level.longer (here : Level f depth level seen) (named : ∀ x ∈ level, x ≠ "") {above x : String}
    (mem : above ∈ level) (link : f x = some above) : ∃ chain, f.Chain x chain ∧ chain.length = depth + 1 := by
  obtain ⟨chain, walk, length⟩ := here.same above mem
  exact ⟨x :: chain, .step link (named above mem) walk, congrArg (· + 1) length⟩

theorem Level.descend (here : Level f depth level seen) (named : ∀ x ∈ level, x ≠ "")
    (placed : ∀ x ∈ next, ∃ above ∈ level, f x = some above)
    (grown : ∀ x, x ∈ seen' ↔ x ∈ seen ∨ x ∈ next) : Level f (depth + 1) next seen' := by
  have same : ∀ x ∈ next, ∃ chain, f.Chain x chain ∧ chain.length = depth + 1 := by
    intro x mem
    obtain ⟨above, there, link⟩ := placed x mem
    exact here.longer named there link
  refine ⟨same, fun x mem => ?_⟩
  rcases (grown x).1 mem with old | new
  · obtain ⟨chain, walk, le⟩ := here.before x old
    exact ⟨chain, walk, le.trans (Nat.le_succ depth)⟩
  · obtain ⟨chain, walk, length⟩ := same x new
    exact ⟨chain, walk, length.le⟩

/-- What was seen before cannot sit one level below. -/
theorem Level.unseen (here : Level f depth level seen) (named : ∀ x ∈ level, x ≠ "") {above x : String}
    (mem : above ∈ level) (link : f x = some above) : x ∉ seen := by
  intro old
  obtain ⟨chain, walk, le⟩ := here.before x old
  obtain ⟨chain', walk', length⟩ := here.longer named mem link
  rw [walk.unique walk', length] at le
  omega

end

/-- What is on a level is stored, so it has a name. -/
theorem Level.named {C : Contents} {depth : Nat} {level : List String} {seen : Std.ExtTreeSet String}
    (here : Level C.shape depth level seen) (sane : C.Sane) : ∀ x ∈ level, x ≠ "" := by
  intro x mem empty
  obtain ⟨chain, walk, -⟩ := here.same x mem
  have stored := walk.stored x walk.head_mem
  rw [empty, sane.nameless] at stored
  cases stored

/-- A container is a level of its own. -/
theorem level_single {f : Shape} {chain : List String} (walk : f.Chain id chain) :
    Level f chain.length [id] ((∅ : Std.ExtTreeSet String).insert id) := by
  constructor
  · intro x mem
    rw [List.mem_singleton.1 mem]
    exact ⟨chain, walk, rfl⟩
  · intro x mem
    rw [Std.ExtTreeSet.mem_insert, Std.LawfulEqCmp.compare_eq_iff_eq] at mem
    obtain rfl : id = x := mem.resolve_right Std.ExtTreeSet.not_mem_empty
    exact ⟨chain, walk, le_rfl⟩

/-- The number of levels from `level` on is that of something below. With links that agree, it is more than the
distance of anything below. -/
theorem reads_levelsBelow (sane : h.store.contents.Sane) (top : String) (remaining : Nat) (level : List String)
    (seen : Std.ExtTreeSet String) :
    (levelsBelow limits top remaining level seen).Reads h fun levels =>
      (level = [] ∧ levels = 0 ∨
        ∃ above ∈ level, ∃ j x, h.store.contents.shape.Below j above x ∧ levels = j + 1) ∧
      (h.store.contents.Linked → ∀ depth, Level h.store.contents.shape depth level seen →
        ∀ above ∈ level, ∀ j x, h.store.contents.shape.Below j above x → j < levels) := by
  induction remaining generalizing level seen with
  | zero =>
    cases level with
    | nil => exact reads_pure ⟨.inl ⟨rfl, rfl⟩, fun _ depth _ above mem => absurd mem List.not_mem_nil⟩
    | cons id rest => exact reads_throw not_false
  | succ remaining ih =>
    cases level with
    | nil => exact reads_pure ⟨.inl ⟨rfl, rfl⟩, fun _ depth _ above mem => absurd mem List.not_mem_nil⟩
    | cons id rest =>
      simp only [levelsBelow]
      apply (reads_nextLevel sane (id :: rest) seen).bind
      intro answer given
      rcases answer with ⟨next, seen₁⟩
      rcases given with ⟨grown, placed, children⟩
      apply (ih next seen₁).bind
      intro levels given
      rcases given with ⟨deepest, bound⟩
      apply reads_pure
      constructor
      · right
        rcases deepest with ⟨-, rfl⟩ | ⟨child, new, j, x, path, rfl⟩
        · exact ⟨id, List.mem_cons_self, 0, id, rfl, rfl⟩
        · obtain ⟨above, mem, link⟩ := placed child new
          exact ⟨above, mem, j + 1, x, ⟨child, link, path⟩, rfl⟩
      · intro linked depth here above mem j x path
        have named := here.named sane
        cases j with
        | zero => exact Nat.succ_pos levels
        | succ j =>
          obtain ⟨child, link, path⟩ := path
          have found := children linked above mem (named above mem) child link
          have new := ((grown child).1 found).resolve_left (here.unseen named mem link)
          exact Nat.succ_lt_succ (bound linked (depth + 1) (here.descend named placed grown) child new j x path)

/-- With links that agree, the levels of a subtree are its height. -/
theorem reads_subtreeHeight (sane : h.store.contents.Sane) :
    (subtreeHeight limits id).Reads h fun levels =>
      h.store.contents.Linked → ∀ chain, h.store.contents.shape.Chain id chain →
        h.store.contents.shape.Height id levels := by
  simp only [subtreeHeight]
  apply (reads_levelsBelow sane id _ [id] _).mono
  intro levels given linked chain walk
  rcases given with ⟨deepest, bound⟩
  constructor
  · obtain ⟨none, -⟩ | ⟨above, mem, rest⟩ := deepest
    · cases none
    · rw [List.mem_singleton.1 mem] at rest
      exact rest
  · exact bound linked chain.length (level_single walk) id (List.mem_singleton.2 rfl)

/-- A move that passes the checks goes to a place that admits it. -/
theorem reads_checkMove {target : String} (sane : h.store.contents.Sane) (stored : (h.store.contents id).isSome) :
    (checkMove limits id target).Reads h fun _ =>
      target ≠ id ∧
        ∀ depth, h.store.contents.Forest depth → h.store.contents.shape.Admits limits.maxDepth id target := by
  simp only [checkMove]
  by_cases own : target = id
  · simp only [if_pos own]
    exact reads_throw not_false
  simp only [if_neg own]
  by_cases top : target.isEmpty
  · simp only [top, Bool.not_true, Bool.false_eq_true, if_false]
    apply reads_pure
    exact ⟨own, fun _ _ => ⟨own, fun ne => absurd (String.isEmpty_iff.1 top) ne⟩⟩
  simp only [top, Bool.not_false, if_true]
  apply reads_isStored.bind
  intro there _
  by_cases missing : (!there) = true
  · simp only [if_pos missing]
    exact reads_throw not_false
  simp only [if_neg missing]
  apply reads_ancestors.bind
  intro chain above
  by_cases cyclic : chain.contains id = true
  · simp only [if_pos cyclic]
    exact reads_throw not_false
  simp only [if_neg cyclic]
  apply (reads_subtreeHeight sane).bind
  intro levels bound
  by_cases deep : limits.maxDepth < chain.length + levels
  · simp only [if_pos deep]
    exact reads_throw not_false
  simp only [if_neg deep]
  apply reads_pure
  refine ⟨own, fun depth forest => ⟨own, fun _ => ⟨chain, above, ?_, fun j x path => ?_⟩⟩⟩
  · simpa using cyclic
  · obtain ⟨s, found⟩ := Option.isSome_iff_exists.1 stored
    obtain ⟨walked, walk, -⟩ := forest.bounded.exists_chain (Contents.shape_of_eq found)
    have under := (bound forest.linked walked walk).bound j x path
    omega

end Containment.Repository
