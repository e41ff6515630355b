/-
Module: Containment.Proofs.Repository.Descent
Purpose: Searching downwards through whatever is stored, in order or not. The search goes from level to level and opens
  each container once, so it comes to an end within the bound, with one of three outcomes. In a forest whose links
  agree it finds the height of the subtree, or that this is more than the bound.
Main exports: MemoryStore.HasChild, MemoryStore.Layers, MemoryStore.Surveyed, MemoryStore.Surveyed.eq_of_forest,
  Repository.Searched, Repository.exists_inquires_subtreeHeight, Repository.subtreeHeight_exact
-/
import Containment.Proofs.Repository.Ascent
import Containment.Proofs.Repository.Clean

namespace Containment

namespace MemoryStore

/-- A container lists another one, whose record names it as the parent and `x` as its own identifier. -/
def HasChild (S : MemoryStore) (above x : String) : Prop :=
  ∃ p key r, S.records[above]? = some p ∧ p.container.Lists key ∧ S.records[key]? = some r ∧
    r.parentId = above ∧ r.id = x

/-- Levels of containers, `top` alone on the first: those of each further level are children of the one before and were
not met until then. -/
inductive Layers (S : MemoryStore) (top : String) : List (List String) → Prop
  | first : S.Layers top [[top]]
  | next {levels : List (List String)} {upper lower : List String} :
      S.Layers top (levels ++ [upper]) → lower ≠ [] → lower.Nodup →
        (∀ x ∈ lower, x ∉ (levels ++ [upper]).flatten) → (∀ x ∈ lower, ∃ above ∈ upper, S.HasChild above x) →
          S.Layers top (levels ++ [upper] ++ [lower])

/-- What a search for the levels below `top` ends in, if there is room for `depth` of them: it has met every child of what
it met, or there is one level more than there is room for, or a container is missing. -/
inductive Surveyed (S : MemoryStore) (top : String) (depth : Nat) :
    List (List String) → Except RepositoryError Nat → Prop
  | all {levels : List (List String)} :
      S.Layers top levels → levels.length ≤ depth →
        (∀ above ∈ levels.flatten, ∀ x, S.HasChild above x → x ∈ levels.flatten) →
          S.Surveyed top depth levels (.ok levels.length)
  | deep {levels : List (List String)} {next : List String} :
      S.Layers top (levels ++ [next]) → levels.length = depth →
        S.Surveyed top depth levels (.error (.depthExceeded top depth))
  | missing {levels : List (List String)} {id : String} :
      S.Layers top levels → levels.length ≤ depth → id ∈ levels.flatten → S.records[id]? = none →
        S.Surveyed top depth levels (.error (.notFound id))

variable {S : MemoryStore} {top above x : String} {depth : Nat} {levels : List (List String)}
  {level front back : List String} {outcome : Except RepositoryError Nat}

theorem mem_flatten_concat : x ∈ (levels ++ [level]).flatten ↔ x ∈ levels.flatten ∨ x ∈ level := by
  rw [List.flatten_concat, List.mem_append]

namespace Layers

theorem nodup (layers : S.Layers top levels) : levels.flatten.Nodup := by
  induction layers with
  | first => exact List.nodup_singleton top
  | next _ _ distinct fresh _ ih =>
    rw [List.flatten_concat]
    refine List.nodup_append.2 ⟨ih, distinct, ?_⟩
    rintro x old _ new rfl
    exact fresh x new old

theorem ne_nil_of_mem (layers : S.Layers top levels) (mem : level ∈ levels) : level ≠ [] := by
  induction layers with
  | first => exact List.mem_singleton.1 mem ▸ List.cons_ne_nil top []
  | next _ nonempty _ _ _ ih =>
    rcases List.mem_append.1 mem with old | new
    · exact ih old
    · exact List.mem_singleton.1 new ▸ nonempty

theorem top_mem (layers : S.Layers top levels) : top ∈ levels.flatten := by
  induction layers with
  | first => exact List.mem_cons_self
  | next _ _ _ _ _ ih => exact mem_flatten_concat.2 (.inl ih)

/-- Everything but the top is somebody's child. -/
theorem eq_or_hasChild (layers : S.Layers top levels) (mem : x ∈ levels.flatten) :
    x = top ∨ ∃ above, S.HasChild above x := by
  induction layers with
  | first => exact .inl (List.mem_singleton.1 mem)
  | next _ _ _ _ listed ih =>
    rcases mem_flatten_concat.1 mem with old | new
    · exact ih old
    · obtain ⟨above, -, child⟩ := listed x new
      exact .inr ⟨above, child⟩

/-- The last level may be left off in the middle. -/
theorem cut (layers : S.Layers top (levels ++ [front ++ back])) (begun : front ≠ []) :
    S.Layers top (levels ++ [front]) := by
  generalize whole : levels ++ [front ++ back] = all at layers
  cases layers with
  | first =>
    obtain ⟨rfl, last⟩ := List.append_inj' (whole.trans (List.nil_append _).symm) rfl
    have single : front ++ back = [top] := List.singleton_inj.1 last
    obtain ⟨x, rest, rfl⟩ := List.exists_cons_of_ne_nil begun
    obtain ⟨rfl, empty⟩ := List.cons.inj single
    rw [(List.append_eq_nil_iff.1 empty).1]
    exact .first
  | next earlier _ distinct fresh listed =>
    obtain ⟨rfl, last⟩ := List.append_inj' whole rfl
    obtain rfl : front ++ back = _ := List.singleton_inj.1 last
    refine .next earlier begun (List.nodup_append.1 distinct).1 (fun x mem => ?_) fun x mem => ?_
    · exact fresh x (List.mem_append_left back mem)
    · exact listed x (List.mem_append_left back mem)

end Layers

namespace Surveyed

theorem nodup (surveyed : S.Surveyed top depth levels outcome) : levels.flatten.Nodup := by
  cases surveyed with
  | all layers _ _ => exact layers.nodup
  | deep layers _ =>
    have whole := layers.nodup
    rw [List.flatten_concat] at whole
    exact (List.nodup_append.1 whole).1
  | missing layers _ _ _ => exact layers.nodup

theorem length_le (surveyed : S.Surveyed top depth levels outcome) : levels.length ≤ depth := by
  cases surveyed with
  | all _ within _ => exact within
  | deep _ full => exact full.le
  | missing _ within _ _ => exact within

end Surveyed

/-- Only a record that is stored under a name that is not its own can make something missing. -/
theorem Surveyed.exists_misplaced {missing : String} {r : Record} (stored : S.records[top]? = some r)
    (surveyed : S.Surveyed top depth levels (.error (.notFound missing))) :
    ∃ (key : String) (r : Record), S.records[key]? = some r ∧ r.id = missing ∧ r.id ≠ key := by
  cases surveyed with
  | missing layers _ mem absent =>
    rcases layers.eq_or_hasChild mem with rfl | ⟨_, _, key, r, _, _, found, _, rfl⟩
    · rw [stored] at absent
      cases absent
    · refine ⟨key, r, found, rfl, fun own => ?_⟩
      rw [own, found] at absent
      cases absent

/-! ### In a forest -/

/-- Children name their parent, and are stored under their own names. -/
theorem HasChild.shape_eq (sane : S.contents.Sane) (child : S.HasChild above x) : S.contents.shape x = some above := by
  obtain ⟨p, key, r, -, -, stored, rfl, rfl⟩ := child
  have own : r.id = key := (sane.record stored).1
  rw [own]
  exact shape_eq_some stored

/-- Links that agree lead down as they lead up. -/
theorem hasChild_of_shape (linked : S.contents.Linked) (sane : S.contents.Sane) (proper : above ≠ "")
    (link : S.contents.shape x = some above) : S.HasChild above x := by
  obtain ⟨s, stored, rfl⟩ := Contents.shape_eq_some_iff.1 link
  obtain ⟨r, found, rfl⟩ := contents_eq_some_iff.1 stored
  obtain ⟨s, there, listed⟩ := linked x r.container stored proper
  obtain ⟨p, found', rfl⟩ := contents_eq_some_iff.1 there
  exact ⟨p, x, r, found', listed, found, rfl, (sane.record found).1⟩

/-- What is met on a level is as far below the top as the level is. -/
theorem Layers.below_of_mem (sane : S.contents.Sane) (layers : S.Layers top (levels ++ [level])) (mem : x ∈ level) :
    S.contents.shape.Below levels.length top x := by
  generalize whole : levels ++ [level] = all at layers
  induction layers generalizing levels level x with
  | first =>
    obtain ⟨rfl, last⟩ := List.append_inj' (whole.trans (List.nil_append _).symm) rfl
    obtain rfl := List.singleton_inj.1 last
    exact List.mem_singleton.1 mem
  | next _ _ _ _ listed ih =>
    obtain ⟨rfl, last⟩ := List.append_inj' whole rfl
    obtain rfl := List.singleton_inj.1 last
    obtain ⟨above, there, child⟩ := listed x mem
    rw [List.length_append, List.length_singleton]
    exact (ih there rfl).succ (child.shape_eq sane)

theorem Layers.exists_below (sane : S.contents.Sane) (layers : S.Layers top levels) (mem : x ∈ levels.flatten) :
    ∃ n < levels.length, S.contents.shape.Below n top x := by
  induction layers with
  | first => exact ⟨0, Nat.zero_lt_one, List.mem_singleton.1 mem⟩
  | @next levels upper lower earlier nonempty distinct fresh listed ih =>
    have whole : S.Layers top (levels ++ [upper] ++ [lower]) := .next earlier nonempty distinct fresh listed
    rw [List.length_append, List.length_singleton]
    rcases mem_flatten_concat.1 mem with old | new
    · obtain ⟨n, within, path⟩ := ih old
      exact ⟨n, Nat.lt_succ_of_lt within, path⟩
    · exact ⟨_, Nat.lt_succ_self _, whole.below_of_mem sane new⟩

/-- There is something on the last level. -/
theorem Layers.exists_deepest (sane : S.contents.Sane) (layers : S.Layers top levels) :
    ∃ n x, S.contents.shape.Below n top x ∧ levels.length = n + 1 := by
  obtain ⟨above, last, rfl⟩ : ∃ above last, levels = above ++ [last] := by
    cases layers with
    | first => exact ⟨[], [top], rfl⟩
    | next => exact ⟨_, _, rfl⟩
  obtain ⟨x, rest, rfl⟩ := List.exists_cons_of_ne_nil
    (layers.ne_nil_of_mem (List.mem_append_right above List.mem_cons_self))
  refine ⟨above.length, x, layers.below_of_mem sane List.mem_cons_self, ?_⟩
  rw [List.length_append, List.length_singleton]

/-- If no child is left out, nothing that is below something met is left out. -/
theorem mem_flatten_of_below {n : Nat} (linked : S.contents.Linked) (sane : S.contents.Sane)
    (closed : ∀ above ∈ levels.flatten, ∀ x, S.HasChild above x → x ∈ levels.flatten)
    (stored : (S.contents.shape above).isSome) (met : above ∈ levels.flatten) (path : S.contents.shape.Below n above x) :
    x ∈ levels.flatten := by
  induction n generalizing above with
  | zero =>
    obtain rfl : x = above := path
    exact met
  | succ n ih =>
    obtain ⟨child, link, path⟩ := path
    have proper : above ≠ "" := by
      rintro rfl
      rw [sane.nameless] at stored
      cases stored
    exact ih (Option.isSome_of_mem link) (closed above met child (hasChild_of_shape linked sane proper link)) path

/-- Within a forest the search finds the height of the subtree if there is room for it, and else that there is none. -/
theorem Surveyed.eq_of_forest {bound : Nat} {r : Record} (surveyed : S.Surveyed top depth levels outcome)
    (sane : S.contents.Sane) (forest : S.contents.Forest bound) (stored : S.records[top]? = some r) :
    ∃ n, S.contents.shape.Height top n ∧
      outcome = if n ≤ depth then .ok n else .error (.depthExceeded top depth) := by
  have link := shape_eq_some stored
  obtain ⟨chain, walk, -⟩ := forest.bounded.exists_chain link
  cases surveyed with
  | all layers within closed =>
    have height : S.contents.shape.Height top levels.length := by
      refine ⟨layers.exists_deepest sane, fun j x path => ?_⟩
      have met : x ∈ levels.flatten :=
        mem_flatten_of_below forest.linked sane closed (Option.isSome_of_mem link) layers.top_mem path
      obtain ⟨n, within, path'⟩ := layers.exists_below sane met
      -- Both distances are told by the one chain above `x`.
      obtain ⟨lower, deeper, length, -⟩ := walk.extend_below sane.nameless path
      obtain ⟨lower', deeper', length', -⟩ := walk.extend_below sane.nameless path'
      rw [deeper.unique deeper', length'] at length
      omega
    exact ⟨levels.length, height, (if_pos within).symm⟩
  | @deep next layers full =>
    obtain ⟨n, height⟩ := forest.bounded.exists_height sane.nameless (Option.isSome_of_mem link)
    obtain ⟨j, x, path, length⟩ := layers.exists_deepest sane
    rw [List.length_append, List.length_singleton] at length
    have deeper := height.bound j x path
    exact ⟨n, height, (if_neg (by omega)).symm⟩
  | missing layers within mem absent =>
    obtain ⟨key, r, found, -, misplaced⟩ := exists_misplaced stored (.missing layers within mem absent)
    exact absurd (sane.record found).1 misplaced

end MemoryStore

namespace Repository

open Containment.Action

variable {w : World} {S : MemoryStore} {limits : Limits} {id : String}

/-- What is asked to open a container: its own record, and then those of what it lists as containers. -/
def expansion (S : MemoryStore) (id : String) : List Effect :=
  match S.records[id]? with
  | none => [recordRequest id]
  | some r => recordRequest id :: (childCandidates r.container).map recordRequest

theorem mem_childCandidates {s : Snapshot} {key : String} : key ∈ childCandidates s ↔ s.Lists key := by
  constructor
  · intro mem
    obtain ⟨m, listed, rfl⟩ := List.mem_map.1 mem
    obtain ⟨mem, kind⟩ := List.mem_filter.1 listed
    exact ⟨m, mem, rfl, by simpa [Member.isContainer] using kind⟩
  · rintro ⟨m, mem, rfl, kind⟩
    exact List.mem_map.2 ⟨m, List.mem_filter.2 ⟨mem, by simp [Member.isContainer, kind]⟩, rfl⟩

/-- What was not seen before is collected once. -/
theorem nodup_collect (records : List Record) (fresh : List String) (seen : Std.ExtTreeSet String)
    (distinct : fresh.Nodup) (known : ∀ x ∈ fresh, x ∈ seen) :
    (records.foldl
      (fun (fresh, seen) r =>
        if seen.contains r.id then (fresh, seen) else (fresh ++ [r.id], seen.insert r.id)) (fresh, seen)).1.Nodup := by
  induction records generalizing fresh seen with
  | nil => exact distinct
  | cons r rest ih =>
    simp only [List.foldl_cons]
    by_cases old : seen.contains r.id = true
    · rw [if_pos old]
      exact ih fresh seen distinct known
    · rw [if_neg old]
      apply ih
      · refine List.nodup_append.2 ⟨distinct, List.nodup_singleton _, ?_⟩
        rintro x mem _ same rfl
        exact old (List.mem_singleton.1 same ▸ known x mem)
      · intro x mem
        rw [Std.ExtTreeSet.mem_insert, Std.LawfulEqCmp.compare_eq_iff_eq]
        exact (List.mem_append.1 mem).elim (fun mem => .inr (known x mem)) fun new => .inl (List.mem_singleton.1 new).symm

/-- The children of a level that were not seen before, and all that is seen with them. -/
structure Opens (S : MemoryStore) (level : List String) (seen : Std.ExtTreeSet String) (next : List String)
    (seen' : Std.ExtTreeSet String) : Prop where
  distinct : next.Nodup
  fresh : ∀ x ∈ next, x ∉ seen
  listed : ∀ x ∈ next, ∃ above ∈ level, S.HasChild above x
  grown : ∀ x, x ∈ seen' ↔ x ∈ seen ∨ x ∈ next
  complete : ∀ above ∈ level, ∀ x, S.HasChild above x → x ∈ seen'

/-- The children of one container that were not seen before, and then those of the others that are still not seen, are
the children of them all. -/
theorem Opens.cons {rest fresh others : List String} {seen seen₁ seen₂ : Std.ExtTreeSet String}
    (distinct : fresh.Nodup) (new : ∀ x, x ∈ fresh ↔ x ∉ seen ∧ S.HasChild id x)
    (grown : ∀ x, x ∈ seen₁ ↔ x ∈ seen ∨ S.HasChild id x) (opens : Opens S rest seen₁ others seen₂) :
    Opens S (id :: rest) seen (fresh ++ others) seen₂ := by
  constructor
  case distinct =>
    refine List.nodup_append.2 ⟨distinct, opens.distinct, ?_⟩
    rintro x mem _ later rfl
    exact opens.fresh x later ((grown x).2 (.inr ((new x).1 mem).2))
  case fresh =>
    intro x mem
    rcases List.mem_append.1 mem with first | later
    · exact ((new x).1 first).1
    · exact fun old => opens.fresh x later ((grown x).2 (.inl old))
  case listed =>
    intro x mem
    rcases List.mem_append.1 mem with first | later
    · exact ⟨id, List.mem_cons_self, ((new x).1 first).2⟩
    · obtain ⟨above, there, child⟩ := opens.listed x later
      exact ⟨above, List.mem_cons_of_mem id there, child⟩
  case grown =>
    intro x
    rw [opens.grown, grown, List.mem_append, new]
    by_cases old : x ∈ seen <;> simp [old]
  case complete =>
    intro above mem x child
    rcases List.mem_cons.1 mem with rfl | mem
    · exact (opens.grown x).2 (.inl ((grown x).2 (.inr child)))
    · exact opens.complete above mem x child

/-- What the search knows when it comes to a level: the levels down to this one, everything on them and nothing else is
seen, and no child of what is above this level is left out. -/
structure Searched (S : MemoryStore) (top : String) (levels : List (List String)) (level : List String)
    (seen : Std.ExtTreeSet String) : Prop where
  layers : S.Layers top (levels ++ [level])
  known : ∀ x, x ∈ seen ↔ x ∈ (levels ++ [level]).flatten
  closed : ∀ above ∈ levels.flatten, ∀ x, S.HasChild above x → x ∈ seen

namespace Searched

variable {top : String} {levels : List (List String)} {level next : List String} {seen seen' : Std.ExtTreeSet String}

theorem start (S : MemoryStore) (top : String) :
    Searched S top [] [top] ((∅ : Std.ExtTreeSet String).insert top) where
  layers := .first
  known x := by
    rw [Std.ExtTreeSet.mem_insert, Std.LawfulEqCmp.compare_eq_iff_eq]
    simp [eq_comm]
  closed _ mem := nomatch mem

theorem exists_cons (searched : Searched S top levels level seen) : ∃ id rest, level = id :: rest :=
  List.exists_cons_of_ne_nil (searched.layers.ne_nil_of_mem (List.mem_append_right levels List.mem_cons_self))

theorem closed_opens (searched : Searched S top levels level seen) (opens : Opens S level seen next seen') :
    ∀ above ∈ (levels ++ [level]).flatten, ∀ x, S.HasChild above x → x ∈ seen' := by
  intro above mem x child
  rcases MemoryStore.mem_flatten_concat.1 mem with old | here
  · exact (opens.grown x).2 (.inl (searched.closed above old x child))
  · exact opens.complete above here x child

/-- The search goes on with what this level opens. -/
theorem descend (searched : Searched S top levels level seen) (opens : Opens S level seen next seen')
    (more : next ≠ []) : Searched S top (levels ++ [level]) next seen' where
  layers := .next searched.layers more opens.distinct
    (fun x mem old => opens.fresh x mem ((searched.known x).2 old)) opens.listed
  known x := by
    rw [opens.grown, searched.known]
    exact MemoryStore.mem_flatten_concat.symm
  closed := searched.closed_opens opens

/-- If this level opens nothing, then everything was met. -/
theorem surveyed_all {depth : Nat} (searched : Searched S top levels level seen) (opens : Opens S level seen [] seen')
    (room : levels.length < depth) : S.Surveyed top depth (levels ++ [level]) (.ok (levels.length + 1)) := by
  have length : (levels ++ [level]).length = levels.length + 1 := by
    rw [List.length_append, List.length_singleton]
  rw [← length]
  refine .all searched.layers (length ▸ room) fun above mem x child => ?_
  exact (searched.known x).1
    (((opens.grown x).1 (searched.closed_opens opens above mem x child)).resolve_right List.not_mem_nil)

/-- If a container on this level is missing, then the search has met what is up to it. -/
theorem surveyed_missing {depth : Nat} {front back : List String} {missing : String}
    (searched : Searched S top levels (front ++ missing :: back) seen) (room : levels.length < depth)
    (absent : S.records[missing]? = none) :
    S.Surveyed top depth (levels ++ [front ++ [missing]]) (.error (.notFound missing)) := by
  have parted : front ++ missing :: back = (front ++ [missing]) ++ back := List.append_cons ..
  have layers := searched.layers
  rw [parted] at layers
  refine .missing (layers.cut (List.append_ne_nil_of_right_ne_nil front (List.cons_ne_nil _ _))) ?_ ?_ absent
  · rw [List.length_append, List.length_singleton]
    exact room
  · exact MemoryStore.mem_flatten_concat.2 (.inr (List.mem_append_right front List.mem_cons_self))

end Searched

theorem inquires_childRecords_missing (readable : w.store.ReadsAs S) (clean : w.faults = [])
    (absent : S.records[id]? = none) : (childRecords id).Inquires w (expansion S id) (.error (.notFound id)) := by
  have missing : S.contents.shape id = none := by
    rw [Contents.shape, MemoryStore.contents, absent]
    rfl
  rw [expansion, absent]
  exact (inquires_load_missing readable clean missing).stops

theorem inquires_readAll (readable : w.store.ReadsAs S) (clean : w.faults = []) (ids : List String) :
    (readAll ids).Inquires w (ids.map recordRequest) (.ok (ids.map fun id => S.records[id]?)) := by
  induction ids with
  | nil => exact inquires_pure []
  | cons id rest ih =>
    have rest : (readAll rest >>= fun records => pure (S.records[id]? :: records)).Inquires w
        (rest.map recordRequest) (.ok (S.records[id]? :: rest.map fun id => S.records[id]?)) := by
      rw [← map_eq_pure_bind]
      exact ih.map
    exact (inquires_store clean (readable.read id)).bind rest

section Searching

variable (readable : w.store.ReadsAs S) (clean : w.faults = [])
  (valid : ∀ (id : String) (r : Record), S.records[id]? = some r → r.container.Valid)
include readable clean valid

/-- Opening a container finds its children. -/
theorem exists_inquires_childRecords {p : Record} (found : S.records[id]? = some p) :
    ∃ records, (childRecords id).Inquires w (expansion S id) (.ok records) ∧
      ∀ x, (∃ r ∈ records, r.id = x) ↔ S.HasChild id x := by
  obtain ⟨c, told, same⟩ := exists_inquires_load readable clean valid found
  have children : (readAll (childCandidates c.toSnapshot) >>= fun records =>
      pure ((records.filterMap fun r => r).filter (·.parentId == id))).Inquires w
        ((childCandidates p.container).map recordRequest)
        (.ok ((((childCandidates p.container).map fun key => S.records[key]?).filterMap fun r => r).filter
          (·.parentId == id))) := by
    rw [← map_eq_pure_bind, same]
    exact (inquires_readAll readable clean _).map
  refine ⟨_, by rw [expansion, found]; exact told.bind children, fun x => ?_⟩
  rw [List.filterMap_map]
  constructor
  · rintro ⟨r, mem, own⟩
    obtain ⟨mem, below⟩ := List.mem_filter.1 mem
    obtain ⟨key, listed, stored⟩ := List.mem_filterMap.1 mem
    exact ⟨p, key, r, found, mem_childCandidates.1 listed, stored, beq_iff_eq.1 below, own⟩
  · rintro ⟨p', key, r, found', listed, stored, below, own⟩
    rw [found] at found'
    cases found'
    refine ⟨r, List.mem_filter.2 ⟨List.mem_filterMap.2 ⟨key, ?_, stored⟩, beq_iff_eq.2 below⟩, own⟩
    exact mem_childCandidates.2 listed

/-- The next level is found, or a container of this level is missing. -/
theorem inquires_nextLevel (level : List String) (seen : Std.ExtTreeSet String) :
    (∃ next seen', (nextLevel level seen).Inquires w (level.flatMap (expansion S)) (.ok (next, seen')) ∧
        Opens S level seen next seen') ∨
      ∃ front missing back, level = front ++ missing :: back ∧ S.records[missing]? = none ∧
        (nextLevel level seen).Inquires w ((front ++ [missing]).flatMap (expansion S)) (.error (.notFound missing)) := by
  induction level generalizing seen with
  | nil => exact .inl ⟨[], seen, inquires_pure _, ⟨.nil, nofun, nofun, fun x => by simp, nofun⟩⟩
  | cons id rest ih =>
    simp only [nextLevel]
    cases found : S.records[id]? with
    | none =>
      refine .inr ⟨[], id, rest, rfl, found, ?_⟩
      have asked : ([] ++ [id]).flatMap (expansion S) = expansion S id := List.append_nil _
      rw [asked]
      exact (inquires_childRecords_missing readable clean found).stops
    | some p =>
      obtain ⟨records, told, children⟩ := exists_inquires_childRecords readable clean valid found
      have collected := collect_spec records [] seen
      have distinct := nodup_collect records [] seen List.nodup_nil nofun
      rcases gathered : records.foldl (fun (fresh, seen) r =>
        if seen.contains r.id then (fresh, seen) else (fresh ++ [r.id], seen.insert r.id))
          (([] : List String), seen) with ⟨fresh, seen₁⟩
      rw [gathered] at collected distinct
      have new : ∀ x, x ∈ fresh ↔ x ∉ seen ∧ S.HasChild id x := by
        intro x
        rw [collected.2 x, children x]
        exact or_iff_right List.not_mem_nil
      have grown : ∀ x, x ∈ seen₁ ↔ x ∈ seen ∨ S.HasChild id x := by
        intro x
        rw [collected.1 x, children x]
      rcases ih seen₁ with ⟨others, seen₂, restTold, opens⟩ | ⟨front, missing, back, rfl, absent, stopped⟩
      · refine .inl ⟨fresh ++ others, seen₂, ?_, opens.cons distinct new grown⟩
        apply told.bind
        simp only [gathered]
        rw [← map_eq_pure_bind]
        exact restTold.map
      · refine .inr ⟨id :: front, missing, back, rfl, absent, ?_⟩
        apply told.bind
        simp only [gathered]
        exact stopped.stops

/-- From one level on downwards, the search ends as it must. The levels above were met before. -/
theorem inquires_levelsBelow (limits : Limits) {top : String} (remaining : Nat) {levels : List (List String)}
    {level : List String} {seen : Std.ExtTreeSet String} (searched : Searched S top levels level seen)
    (room : levels.length + remaining = limits.maxDepth) :
    ∃ more outcome,
      (levelsBelow limits top remaining level seen).Inquires w (more.flatten.flatMap (expansion S)) outcome ∧
      S.Surveyed top limits.maxDepth (levels ++ more) (outcome.map (levels.length + ·)) := by
  induction remaining generalizing levels level seen with
  | zero =>
    obtain ⟨id, rest, rfl⟩ := searched.exists_cons
    exact ⟨[], _, inquires_throw _, by rw [List.append_nil]; exact .deep searched.layers room⟩
  | succ remaining ih =>
    obtain ⟨id, rest, rfl⟩ := searched.exists_cons
    have within : levels.length < limits.maxDepth := by omega
    simp only [levelsBelow]
    rcases inquires_nextLevel readable clean valid (id :: rest) seen with
      ⟨next, seen', told, opens⟩ | ⟨front, missing, back, split, absent, stopped⟩
    · by_cases last : next = []
      · subst last
        have bottom : levelsBelow limits top remaining [] seen' = pure 0 := by rw [levelsBelow]
        refine ⟨[id :: rest], .ok 1, ?_, searched.surveyed_all opens within⟩
        rw [List.flatten_singleton, ← List.append_nil ((id :: rest).flatMap (expansion S))]
        apply told.bind
        rw [bottom]
        exact inquires_pure 1
      · have length : (levels ++ [id :: rest]).length = levels.length + 1 := by
          rw [List.length_append, List.length_singleton]
        obtain ⟨more, outcome, restTold, surveyed⟩ := ih (searched.descend opens last) (by omega)
        refine ⟨(id :: rest) :: more, outcome.map (· + 1), ?_, ?_⟩
        · rw [List.flatten_cons, List.flatMap_append]
          apply told.bind
          rw [← map_eq_pure_bind]
          exact restTold.map
        · have counted : (outcome.map (· + 1)).map (levels.length + ·) = outcome.map (levels.length + 1 + ·) := by
            cases outcome with
            | ok n => exact congrArg Except.ok (by grind)
            | error e => rfl
          rw [length, List.append_assoc] at surveyed
          exact counted ▸ surveyed
    · rw [split] at searched
      refine ⟨[front ++ [missing]], .error (.notFound missing), ?_, searched.surveyed_missing within absent⟩
      rw [List.flatten_singleton]
      exact stopped.stops

/-- On whatever is stored, the search for the height of a subtree comes to one of its ends. -/
theorem exists_inquires_subtreeHeight (id : String) :
    ∃ levels outcome, (subtreeHeight limits id).Inquires w (levels.flatten.flatMap (expansion S)) outcome ∧
      S.Surveyed id limits.maxDepth levels outcome := by
  obtain ⟨levels, outcome, told, surveyed⟩ := inquires_levelsBelow readable clean valid limits limits.maxDepth
    (.start S id) (Nat.zero_add _)
  refine ⟨levels, outcome, told, ?_⟩
  have same : outcome.map (([] : List (List String)).length + ·) = outcome := by
    cases outcome with
    | ok n => exact congrArg Except.ok (Nat.zero_add n)
    | error e => rfl
  exact same ▸ surveyed

end Searching

/-- **The height of a subtree is found on whatever is stored.** Take any store of valid records that can be read, with
cycles and links that do not agree, any stored container and any bound. The search for its height comes to an end,
changes nothing and asks for nothing but what it takes to open the containers that it meets. It meets them level by
level, no more levels than the bound allows and no container twice. Either it has met every child of what it met, and
reports the number of levels; or there is a level for which there is no room, and it reports that the bound is exceeded;
or one of them is missing, which takes a record that is stored under another name than its own. In every state that
calls lead to from an empty repository, whichever bound was kept there, it reports just the number of levels of
containers below this one as parents tell, if that is within the bound, and otherwise that the bound is exceeded. -/
theorem subtreeHeight_exact {w : World} {S : MemoryStore} (readable : w.store.ReadsAs S) (clean : w.faults = [])
    (valid : ∀ (id : String) (r : Record), S.records[id]? = some r → Container.validate r.container = .ok ())
    (limits : Limits) {id : String} {r : Record} (stored : S.records[id]? = some r) :
    ∃ levels outcome,
      (subtreeHeight limits id).Inquires w (levels.flatten.flatMap (expansion S)) outcome ∧
      levels.flatten.Nodup ∧ levels.length ≤ limits.maxDepth ∧ S.Surveyed id limits.maxDepth levels outcome ∧
      (∀ missing, outcome = .error (.notFound missing) →
        ∃ (key : String) (r : Record), S.records[key]? = some r ∧ r.id = missing ∧ r.id ≠ key) ∧
      ∀ (settings : Settings) (h : Holdings), h.ArisesCleanly settings → h.store = S →
        ∃ n, S.contents.shape.Height id n ∧
          outcome = if n ≤ limits.maxDepth then .ok n else .error (.depthExceeded id limits.maxDepth) := by
  obtain ⟨levels, outcome, told, surveyed⟩ := exists_inquires_subtreeHeight readable clean
    (fun id r stored => Container.validate_eq_ok_iff.1 (valid id r stored)) id
  refine ⟨levels, outcome, told, surveyed.nodup, surveyed.length_le, surveyed, ?_, ?_⟩
  · rintro missing rfl
    exact surveyed.exists_misplaced stored
  · rintro settings h arises rfl
    exact surveyed.eq_of_forest arises.tended.sane arises.forest_max stored

end Repository

/-- A container with a parent and members of any sort. -/
def recordAmid (id parentId : String) (members : List (String × MemberType)) : Record :=
  { recordListing id members with container := { (recordListing id members).container with parentId } }

/-- Two containers that are below each other. One of them lists a third one, which is below neither, and a fourth one that
is not there. -/
def intertwined : MemoryStore :=
  { records := Std.ExtTreeMap.ofList
      [("a", recordAmid "a" "b" [("b", .container), ("c", .container)]),
        ("b", recordAmid "b" "a" [("a", .container), ("d", .container), ("e.txt", .resource)]),
        ("c", recordAmid "c" "f" [])] }

/-- The search goes around the cycle once. -/
theorem intertwined_height :
    let w : World := { (default : World) with store := .memory intertwined }
    w.store.ReadsAs intertwined ∧ w.faults = [] ∧
      (∀ (id : String) (r : Record), intertwined.records[id]? = some r → Container.validate r.container = .ok ()) ∧
      (intertwined.records["a"]?).isSome ∧
      ∃ levels : List (List String), levels.flatten.Nodup ∧ levels.length = 2 ∧
        (Repository.subtreeHeight { maxDepth := 5 } "a").Inquires w
          (levels.flatten.flatMap (Repository.expansion intertwined)) (.ok 2) := by
  intro w
  have readable : w.store.ReadsAs intertwined := Store.readsAs_memory intertwined
  have each : ∀ entry ∈ intertwined.records.toList, Container.validate entry.2.container = .ok () := by
    decide +kernel
  have valid : ∀ (id : String) (r : Record), intertwined.records[id]? = some r →
      Container.validate r.container = .ok () := by
    intro id r stored
    exact each (id, r) (Std.ExtTreeMap.mem_toList_iff_getElem?_eq_some.2 stored)
  have there : (intertwined.records["a"]?).isSome := by decide +kernel
  obtain ⟨r, stored⟩ := Option.isSome_iff_exists.1 there
  have found : ((Repository.subtreeHeight { maxDepth := 5 } "a").run.run none w).1.toOption = some 2 := by
    decide +kernel
  obtain ⟨levels, outcome, told, distinct, -, surveyed, -⟩ :=
    Repository.subtreeHeight_exact readable rfl valid { maxDepth := 5 } stored
  rw [told.ends] at found
  cases surveyed with
  | all _ _ _ =>
    have two : levels.length = 2 := Option.some.inj found
    rw [two] at told
    exact ⟨readable, rfl, valid, there, levels, distinct, two, told⟩
  | deep => cases found
  | missing => cases found

end Containment
