/-
Module: Containment.Proofs.Hierarchy.Forest
Purpose: The hierarchy of stored containers as parents see it: the chain of parents above a container, the
  levels below one, and what adding, removing and moving a container does to both.
Main exports: Shape.Chain, Shape.Below, Shape.Bounded, Shape.Chain.reroute, Shape.Bounded.attach,
  Shape.Bounded.detach, Shape.Bounded.move
-/
import Containment.Proofs.Store.Contents

namespace Containment

open Function (update update_apply update_self update_of_ne)

namespace Shape

/-- Following parents from a container up to a root meets just these containers, in this order. -/
inductive Chain (f : Shape) : String → List String → Prop
  | root {id : String} : f id = some "" → Chain f id [id]
  | step {id parent : String} {rest : List String} :
      f id = some parent → parent ≠ "" → Chain f parent rest → Chain f id (id :: rest)

/-- The container `x` sits `j` levels below `top`. -/
def Below (f : Shape) : Nat → String → String → Prop
  | 0, top, x => x = top
  | j + 1, top, x => ∃ child, f child = some top ∧ f.Below j child x

/-- From every container a root is reached, by a chain of no more than `depth` containers. -/
def Bounded (f : Shape) (depth : Nat) : Prop :=
  ∀ id, (f id).isSome → ∃ chain, f.Chain id chain ∧ chain.length ≤ depth

variable {f g : Shape} {id parent x : String} {chain : List String} {depth : Nat}

/-- A container begins its own chain. -/
theorem Chain.head_mem (walk : f.Chain id chain) : id ∈ chain := by
  cases walk <;> exact List.mem_cons_self

/-- Everything on a chain is stored. -/
theorem Chain.stored (walk : f.Chain id chain) : ∀ x ∈ chain, (f x).isSome := by
  induction walk with
  | root top =>
    intro x mem
    rw [List.mem_singleton.1 mem, top]
    rfl
  | step link _ _ ih =>
    intro x mem
    rcases List.mem_cons.1 mem with rfl | above
    · rw [link]
      rfl
    · exact ih x above

/-- There is only one way up. -/
theorem Chain.unique {other : List String} (walk : f.Chain id chain) (again : f.Chain id other) :
    chain = other := by
  induction walk generalizing other with
  | root top =>
    cases again with
    | root => rfl
    | step link ne _ =>
      rw [top] at link
      exact absurd (Option.some.inj link).symm ne
  | step link ne _ ih =>
    cases again with
    | root top =>
      rw [link] at top
      exact absurd (Option.some.inj top) ne
    | step link' _ above =>
      rw [link] at link'
      cases link'
      rw [ih above]

/-- What stands on a chain has a chain of its own, which is no longer. -/
theorem Chain.of_mem (walk : f.Chain id chain) (mem : x ∈ chain) :
    ∃ upper, f.Chain x upper ∧ upper.length ≤ chain.length ∧ (x ≠ id → upper.length < chain.length) := by
  induction walk with
  | root top =>
    rw [List.mem_singleton] at mem
    subst mem
    exact ⟨_, .root top, le_rfl, fun ne => absurd rfl ne⟩
  | @step id parent rest link ne above ih =>
    rcases List.mem_cons.1 mem with rfl | mem
    · exact ⟨_, .step link ne above, le_rfl, fun ne => absurd rfl ne⟩
    · obtain ⟨upper, walk, le, -⟩ := ih mem
      exact ⟨upper, walk, le.trans (Nat.le_succ _), fun _ => Nat.lt_succ_of_le le⟩

/-- No container is met twice on the way up. -/
theorem Chain.nodup (walk : f.Chain id chain) : chain.Nodup := by
  induction walk with
  | root top => exact List.nodup_singleton _
  | @step id parent rest link ne above ih =>
    refine List.nodup_cons.2 ⟨fun mem => ?_, ih⟩
    obtain ⟨upper, walk, le, -⟩ := above.of_mem mem
    have same := walk.unique (.step link ne above)
    rw [same, List.length_cons] at le
    omega

/-- A chain depends on the parents of its containers only. -/
theorem Chain.congr (walk : f.Chain id chain) (same : ∀ x ∈ chain, g x = f x) : g.Chain id chain := by
  induction walk with
  | root top => exact .root ((same _ List.mem_cons_self).trans top)
  | step link ne _ ih =>
    exact .step ((same _ List.mem_cons_self).trans link) ne (ih fun x mem => same x (List.mem_cons_of_mem _ mem))

/-- Giving a container another parent leaves the chains that do not meet it. -/
theorem Chain.aside (walk : f.Chain x chain) (apart : id ∉ chain) (given : Option String) :
    Chain (update f id given) x chain :=
  walk.congr fun y mem => update_of_ne (fun equal : y = id => apart (equal ▸ mem)) _ _

theorem Chain.notMem_of_absent (walk : f.Chain id chain) (absent : f x = none) : x ∉ chain := by
  intro mem
  have there := walk.stored x mem
  rw [absent] at there
  cases there

/-- Whoever stands on a chain above its beginning is somebody's parent. -/
theorem Chain.parent_of_mem (walk : f.Chain id chain) (mem : x ∈ chain) (ne : x ≠ id) :
    ∃ child, f child = some x := by
  induction walk with
  | root => exact absurd (List.mem_singleton.1 mem) ne
  | @step id parent rest link _ above ih =>
    rcases List.mem_cons.1 mem with same | mem
    · exact absurd same ne
    · by_cases direct : x = parent
      · exact ⟨id, direct ▸ link⟩
      · exact ih mem direct

theorem Chain.head_eq (walk : f.Chain id (x :: chain)) : x = id := by
  cases walk <;> rfl

theorem Chain.exists_cons (walk : f.Chain id chain) : ∃ rest, chain = id :: rest := by
  cases walk with
  | root => exact ⟨[], rfl⟩
  | step => exact ⟨_, rfl⟩

/-- A chain of one container is that of a root. -/
theorem Chain.top_eq (walk : f.Chain id [x]) : f id = some "" := by
  cases walk with
  | root top => exact top
  | step _ _ above => exact nomatch above

/-- A chain of more than one container goes on from the parent. -/
theorem Chain.above (walk : f.Chain id (x :: chain)) (more : chain ≠ []) :
    ∃ parent, f id = some parent ∧ parent ≠ "" ∧ f.Chain parent chain := by
  cases walk with
  | root => exact absurd rfl more
  | step link ne above => exact ⟨_, link, ne, above⟩

/-- What stands on a chain has what comes from there on for its own chain. -/
theorem Chain.from_mem {front upper : List String} (walk : f.Chain id (front ++ x :: upper)) :
    f.Chain x (x :: upper) := by
  induction front generalizing id with
  | nil =>
    have here : x = id := walk.head_eq
    exact here ▸ walk
  | cons y front ih =>
    obtain ⟨_, -, -, above⟩ := walk.above (List.append_ne_nil_of_right_ne_nil front (List.cons_ne_nil x upper))
    exact ih above

/-- If one gets on otherwise from `x`, the chains that meet `x` change from there on. -/
theorem Chain.reroute {front upper tail : List String} (walk : f.Chain id (front ++ x :: upper)) (apart : x ∉ front)
    (same : ∀ y, y ≠ x → g y = f y) (turned : g.Chain x (x :: tail)) : g.Chain id (front ++ x :: tail) := by
  induction front generalizing id with
  | nil =>
    have here : x = id := walk.head_eq
    exact here ▸ turned
  | cons y front ih =>
    have here : y = id := walk.head_eq
    subst here
    obtain ⟨_, link, ne, above⟩ := walk.above (List.append_ne_nil_of_right_ne_nil front (List.cons_ne_nil x upper))
    have other : y ≠ x := fun equal => apart (equal ▸ List.mem_cons_self)
    exact .step ((same y other).trans link) ne (ih above fun mem => apart (List.mem_cons_of_mem y mem))

theorem Below.succ {j : Nat} {top below : String} (path : f.Below j top x) (link : f below = some x) :
    f.Below (j + 1) top below := by
  induction j generalizing top with
  | zero => exact ⟨below, path ▸ link, rfl⟩
  | succ j ih =>
    obtain ⟨child, first, rest⟩ := path
    exact ⟨child, first, ih rest⟩

/-- What comes before `x` on a chain are the levels between `x` and the beginning of the chain. -/
theorem Chain.sits_below {front upper : List String} (walk : f.Chain id (front ++ x :: upper)) :
    f.Below front.length x id := by
  induction front generalizing id with
  | nil => exact walk.head_eq.symm
  | cons y front ih =>
    obtain ⟨_, link, -, above⟩ := walk.above (List.append_ne_nil_of_right_ne_nil front (List.cons_ne_nil x upper))
    exact (ih above).succ link

/-- If `top` is on the chain of `id`, then `id` is below it, and changing how one gets on from `top` changes
what comes after `top` on the chain only. -/
theorem Chain.split {top : String} (walk : f.Chain id chain) (mem : top ∈ chain) :
    ∃ j, f.Below j top id ∧ j + 1 ≤ chain.length ∧
      ∀ (g : Shape) (tail : List String), (∀ x, x ≠ top → g x = f x) → g.Chain top tail →
        ∃ chain', g.Chain id chain' ∧ chain'.length = j + tail.length := by
  obtain ⟨front, upper, rfl, apart⟩ := List.eq_append_cons_of_mem mem
  refine ⟨front.length, walk.sits_below, ?_, fun g tail same turned => ?_⟩
  · rw [List.length_append, List.length_cons]
    omega
  · obtain ⟨rest, rfl⟩ := turned.exists_cons
    exact ⟨front ++ top :: rest, walk.reroute apart same turned, List.length_append⟩

/-! ### Changes of the hierarchy -/

theorem Bounded.exists_chain (bounded : f.Bounded depth) (stored : f id = some parent) :
    ∃ chain, f.Chain id chain ∧ chain.length ≤ depth :=
  bounded id (by rw [stored]; rfl)

/-- A new root. -/
theorem Bounded.attach_root (bounded : f.Bounded depth) (positive : 1 ≤ depth) (absent : f id = none) :
    Bounded (update f id (some "")) depth := by
  intro x stored
  by_cases new : x = id
  · subst new
    exact ⟨[x], .root (update_self ..), positive⟩
  · rw [update_of_ne new] at stored
    obtain ⟨chain, walk, le⟩ := bounded x stored
    exact ⟨chain, walk.aside (walk.notMem_of_absent absent) _, le⟩

/-- A new container below one whose chain has room. -/
theorem Bounded.attach (bounded : f.Bounded depth) (absent : f id = none) (proper : parent ≠ "")
    (above : f.Chain parent chain) (room : chain.length < depth) :
    Bounded (update f id (some parent)) depth := by
  have kept : ∀ {x : String} {walked : List String}, f.Chain x walked →
      Chain (update f id (some parent)) x walked :=
    fun walk => walk.aside (walk.notMem_of_absent absent) _
  intro x stored
  by_cases new : x = id
  · subst new
    exact ⟨x :: chain, .step (update_self ..) proper (kept above), room⟩
  · rw [update_of_ne new] at stored
    obtain ⟨walked, walk, le⟩ := bounded x stored
    exact ⟨walked, kept walk, le⟩

/-- A container that is nobody's parent goes. -/
theorem Bounded.detach (bounded : f.Bounded depth) (childless : ∀ child, f child ≠ some id) :
    Bounded (update f id none) depth := by
  intro x stored
  by_cases gone : x = id
  · subst gone
    rw [update_self] at stored
    cases stored
  · rw [update_of_ne gone] at stored
    obtain ⟨chain, walk, le⟩ := bounded x stored
    refine ⟨chain, walk.aside (fun mem => ?_) _, le⟩
    obtain ⟨child, link⟩ := walk.parent_of_mem mem (Ne.symm gone)
    exact childless child link

/-- Where a new container may come: among the roots, or below a container whose chain has room. -/
def HasRoom (f : Shape) (depth : Nat) (target : String) : Prop :=
  target ≠ "" → ∃ chain, f.Chain target chain ∧ chain.length < depth

/-- Where a container may go: up to the roots, or below a container that is not below it and whose chain has
room for the whole subtree. -/
def Admits (f : Shape) (depth : Nat) (id target : String) : Prop :=
  target ≠ id ∧
    (target ≠ "" → ∃ chain, f.Chain target chain ∧ id ∉ chain ∧
      ∀ j x, f.Below j id x → chain.length + (j + 1) ≤ depth)

theorem HasRoom.mono {deeper : Nat} (room : f.HasRoom depth x) (le : depth ≤ deeper) : f.HasRoom deeper x := by
  intro proper
  obtain ⟨chain, walk, short⟩ := room proper
  exact ⟨chain, walk, short.trans_le le⟩

theorem Admits.mono {deeper : Nat} (admits : f.Admits depth id x) (le : depth ≤ deeper) : f.Admits deeper id x := by
  refine ⟨admits.1, fun proper => ?_⟩
  obtain ⟨chain, walk, apart, fits⟩ := admits.2 proper
  exact ⟨chain, walk, apart, fun j y path => (fits j y path).trans le⟩

/-- The way up from a container that was moved goes on with the chain of the new parent, if it has one, and all that is
below the container fits in. -/
theorem Admits.turned {target : String} (admits : f.Admits depth id target) :
    ∃ upper, (target = "" ∧ upper = [] ∨ target ≠ "" ∧ f.Chain target upper) ∧
      Chain (update f id (some target)) id (id :: upper) ∧
      ∀ j x, f.Below j id x → j + 1 ≤ depth → j + (upper.length + 1) ≤ depth := by
  by_cases top : target = ""
  · subst top
    exact ⟨[], .inl ⟨rfl, rfl⟩, .root (update_self ..), fun j x _ le => le⟩
  · obtain ⟨chain, walk, apart, fits⟩ := admits.2 top
    refine ⟨chain, .inr ⟨top, walk⟩, .step (update_self ..) top (walk.aside apart _), fun j x path _ => ?_⟩
    have := fits j x path
    omega

/-- A container moves together with all that is below it. -/
theorem Bounded.move {target : String} (bounded : f.Bounded depth) (stored : f id = some parent)
    (admits : f.Admits depth id target) : Bounded (update f id (some target)) depth := by
  obtain ⟨upper, -, turned, fits⟩ := admits.turned
  intro x there
  have known : (f x).isSome := by
    by_cases same : x = id
    · rw [same, stored]
      rfl
    · rwa [update_of_ne same] at there
  obtain ⟨walked, walk, le⟩ := bounded x known
  by_cases passes : id ∈ walked
  · obtain ⟨j, path, short, reroute⟩ := walk.split passes
    obtain ⟨chain', walk', length⟩ := reroute _ (id :: upper) (fun y ne => update_of_ne ne ..) turned
    exact ⟨chain', walk', length ▸ fits j x path (short.trans le)⟩
  · exact ⟨walked, walk.aside passes _, le⟩

end Shape

end Containment
