/-
Module: Containment.Proofs.Concurrency.Registry
Purpose: Locks as shared objects. An object is made when its key is first asked for, and everybody who asks later
  refers to the same one; the entry is dropped by whoever leaves last, which is told from the number of references.
  Between two steps of one visitor others may take any steps of theirs: between getting hold of an object and asking
  it, between giving a claim up, letting the object go and looking whether the entry is still needed.
Main exports: Visit, Registry, Registry.Reached, Registry.Exact, Registry.Reached.exact
-/
import Containment.Proofs.Concurrency.Gate
import Containment.Proofs.Maps
import Mathlib.Data.List.Nodup
import Mathlib.Logic.Function.Basic

namespace Containment

open Function (update)

/-- How far a visit has come: it has got hold of the object, waits in its queue, is let in, has given its claim up, or
has let the object go and has yet to look after the entry. -/
inductive Phase where
  | calling
  | queued
  | holding
  | parting
  | leaving
deriving Repr, DecidableEq

/-- A user's way through a lock, from its call until its guard is gone or its wait given up. A user visits a key once
at a time; who takes a key twice counts as two users. -/
structure Visit where
  user : Nat
  key : String
  mode : Mode
  object : Nat
  phase : Phase
deriving Repr, DecidableEq

namespace Visit

/-- Whether the visitor refers to an object. -/
def refersTo (v : Visit) (object : Nat) : Bool :=
  v.object == object && v.phase != .leaving

/-- Where the visitor stands with its object. -/
def stance (v : Visit) : Stance :=
  match v.phase with
  | .queued => .claiming v.mode
  | .holding => .inside v.mode
  | .calling | .parting | .leaving => .outside

end Visit

/-- Lock objects, numbered as they are made, the table of those in use, and the visits under way. -/
structure Registry where
  entries : Std.ExtTreeMap String Nat := ∅
  objects : Nat → Gate := fun _ => {}
  visits : List Visit := []
  made : Nat := 0

namespace Registry

/-- A new object for a key. -/
def add (reg : Registry) (key : String) : Registry :=
  { reg with
    entries := reg.entries.insert key reg.made
    objects := update reg.objects reg.made {}
    made := reg.made + 1 }

/-- The object of a key, made if there is none. -/
def handle (reg : Registry) (key : String) : Nat × Registry :=
  match reg.entries[key]? with
  | some object => (object, reg)
  | none => (reg.made, reg.add key)

/-- A visit begins with getting hold of the object. -/
def call (reg : Registry) (user : Nat) (key : String) (mode : Mode) : Registry :=
  let (object, reg) := reg.handle key
  { reg with visits := reg.visits ++ [{ user, key, mode, object, phase := .calling }] }

/-- A visit goes on; its object may change with it. -/
def move (reg : Registry) (v : Visit) (gate : Gate) (phase : Phase) : Registry :=
  { reg with
    objects := update reg.objects v.object gate
    visits := reg.visits.map fun w => if w = v then { v with phase } else w }

/-- A visit goes on and leaves its object alone. -/
def pass (reg : Registry) (v : Visit) (phase : Phase) : Registry :=
  reg.move v (reg.objects v.object) phase

/-- A visitor queues up at its object. -/
def ask (reg : Registry) (v : Visit) : Registry :=
  reg.move v ((reg.objects v.object).request { holder := v.user, mode := v.mode }).2 .queued

/-- A visitor gives its claim up, granted or not. -/
def part (reg : Registry) (v : Visit) : Registry :=
  reg.move v ((reg.objects v.object).leave v.user).2 .parting

/-- How often an object is referred to, by the table and by visitors. -/
def references (reg : Registry) (object : Nat) : Nat :=
  reg.entries.toList.countP (fun entry => entry.2 == object) + reg.visits.countP (·.refersTo object)

/-- The table once a visitor has looked after its entry: an object that only the table refers to is dropped. -/
def swept (reg : Registry) (key : String) : Std.ExtTreeMap String Nat :=
  match reg.entries[key]? with
  | some object => if reg.references object = 1 then reg.entries.erase key else reg.entries
  | none => reg.entries

/-- A visit ends. -/
def reclaim (reg : Registry) (v : Visit) : Registry :=
  { reg with entries := reg.swept v.key, visits := reg.visits.filter (· ≠ v) }

/-- All ways in which visits can interleave. A visitor whose context is done lets go of the object before it asks, or
gives its claim up while it waits, even if it has been granted by then. -/
inductive Reached : Registry → Prop
  | start : Reached {}
  | calls {reg : Registry} {user : Nat} {key : String} (mode : Mode) :
      Reached reg → (∀ v ∈ reg.visits, v.user = user → v.key ≠ key) → Reached (reg.call user key mode)
  | asks {reg : Registry} {v : Visit} : Reached reg → v ∈ reg.visits → v.phase = .calling → Reached (reg.ask v)
  | enters {reg : Registry} {v : Visit} : Reached reg → v ∈ reg.visits → v.phase = .queued →
      (reg.objects v.object).isHeldBy v.user = true → Reached (reg.pass v .holding)
  | parts {reg : Registry} {v : Visit} : Reached reg → v ∈ reg.visits → v.phase = .queued ∨ v.phase = .holding →
      Reached (reg.part v)
  | letsGo {reg : Registry} {v : Visit} : Reached reg → v ∈ reg.visits → v.phase = .calling ∨ v.phase = .parting →
      Reached (reg.pass v .leaving)
  | reclaims {reg : Registry} {v : Visit} : Reached reg → v ∈ reg.visits → v.phase = .leaving →
      Reached (reg.reclaim v)

/-- The visits that hold guards of a key. -/
def guards (reg : Registry) (key : String) : List Visit :=
  reg.visits.filter fun v => v.key = key ∧ v.phase = .holding

/-- What can be relied on at any time. All guards of a key are shared ones, or there is only one; all who refer to
an object of a key refer to the one in the table, and no other object is in use; and a key has an entry as long as
somebody is on its way through it, and none if nobody is. -/
structure Exact (reg : Registry) : Prop where
  exclusive : ∀ key, (∀ v ∈ reg.guards key, v.mode = .shared) ∨ ∃ v, reg.guards key = [v] ∧ v.mode = .exclusive
  shared : ∀ v ∈ reg.visits, v.phase ≠ .leaving → reg.entries[v.key]? = some v.object
  single : ∀ object, 0 < reg.references object → ∃ key : String, reg.entries[key]? = some object
  apart : ∀ (key other : String) (object : Nat), reg.entries[key]? = some object →
    reg.entries[other]? = some object → key = other
  visited : ∀ (key : String) (object : Nat), reg.entries[key]? = some object → ∃ v ∈ reg.visits, v.key = key

/-! ### What every step keeps -/

/-- Who refers to an object refers to the one in the table, objects of different keys are different, and each shows
where its visitors stand. -/
structure Sound (reg : Registry) : Prop where
  distinct : (reg.visits.map fun v => (v.user, v.key)).Nodup
  shared : ∀ v ∈ reg.visits, v.phase ≠ .leaving → reg.entries[v.key]? = some v.object
  apart : ∀ (key other : String) (object : Nat), reg.entries[key]? = some object →
    reg.entries[other]? = some object → key = other
  made : ∀ (key : String) (object : Nat), reg.entries[key]? = some object → object < reg.made
  alone : ∀ (key : String) (object : Nat), reg.entries[key]? = some object → Gate.Alone (reg.objects object).granted
  stances : ∀ v ∈ reg.visits, v.phase ≠ .leaving → (reg.objects v.object).Respects v.user v.stance
  strangers : ∀ (key : String) (object user : Nat), reg.entries[key]? = some object →
    (∀ v ∈ reg.visits, v.user = user → v.key = key → v.phase = .leaving) →
      (reg.objects object).Respects user .outside

/-- Every entry has somebody to look after it. -/
def Visited (reg : Registry) : Prop :=
  ∀ (key : String) (object : Nat), reg.entries[key]? = some object → ∃ v ∈ reg.visits, v.key = key

variable {reg : Registry} {v w : Visit} {user object : Nat} {key : String} {mode : Mode} {gate : Gate} {phase : Phase}

theorem Sound.eq_of (sound : reg.Sound) (mem : v ∈ reg.visits) (mem' : w ∈ reg.visits) (user : w.user = v.user)
    (key : w.key = v.key) : w = v :=
  List.inj_on_of_nodup_map sound.distinct mem' mem (Prod.mk.injEq .. ▸ ⟨user, key⟩)

/-- Two visitors that refer to one object visit one key. -/
theorem Sound.key_eq (sound : reg.Sound) (mem : v ∈ reg.visits) (live : v.phase ≠ .leaving) (mem' : w ∈ reg.visits)
    (live' : w.phase ≠ .leaving) (same : w.object = v.object) : w.key = v.key :=
  sound.apart w.key v.key v.object (same ▸ sound.shared w mem' live') (sound.shared v mem live)

theorem sound_start : ({} : Registry).Sound := by
  refine ⟨List.nodup_nil, ?_, ?_, ?_, ?_, ?_, ?_⟩
  all_goals simp

theorem visited_start : ({} : Registry).Visited := by
  intro key object found
  simp at found

/-! #### A visit begins -/

theorem handle_of_some (found : reg.entries[key]? = some object) : reg.handle key = (object, reg) := by
  simp only [handle, found]

theorem handle_of_none (missing : reg.entries[key]? = none) : reg.handle key = (reg.made, reg.add key) := by
  simp only [handle, missing]

theorem getElem?_entries_add (other : String) :
    (reg.add key).entries[other]? = if other = key then some reg.made else reg.entries[other]? := by
  simp only [add, Std.ExtTreeMap.getElem?_insert, Std.LawfulEqCmp.compare_eq_iff_eq, eq_comm (a := key)]

theorem objects_add_made : (reg.add key).objects reg.made = {} :=
  Function.update_self ..

theorem objects_add_of_ne (old : object ≠ reg.made) : (reg.add key).objects object = reg.objects object :=
  Function.update_of_ne old ..

/-- A new object is in nobody's way. -/
theorem Sound.add (sound : reg.Sound) (missing : reg.entries[key]? = none) : (reg.add key).Sound := by
  have other : ∀ v ∈ reg.visits, v.phase ≠ .leaving → v.key ≠ key ∧ v.object ≠ reg.made := by
    intro v mem live
    have found := sound.shared v mem live
    refine ⟨?_, Nat.ne_of_lt (sound.made _ _ found)⟩
    rintro rfl
    rw [missing] at found
    cases found
  have old : ∀ (name : String) (object : Nat), (reg.add key).entries[name]? = some object →
      name = key ∧ object = reg.made ∨ name ≠ key ∧ reg.entries[name]? = some object ∧ object < reg.made := by
    intro name object found
    rw [getElem?_entries_add] at found
    by_cases same : name = key
    · rw [if_pos same] at found
      exact .inl ⟨same, (Option.some.inj found).symm⟩
    · rw [if_neg same] at found
      exact .inr ⟨same, found, sound.made name object found⟩
  constructor
  case distinct => exact sound.distinct
  case shared =>
    intro v mem live
    rw [getElem?_entries_add, if_neg (other v mem live).1]
    exact sound.shared v mem live
  case apart =>
    intro name name' object found found'
    rcases old name object found with ⟨rfl, rfl⟩ | ⟨-, there, lt⟩
    · rcases old name' _ found' with ⟨rfl, -⟩ | ⟨-, -, lt⟩
      · rfl
      · exact absurd lt (Nat.lt_irrefl _)
    · rcases old name' _ found' with ⟨-, rfl⟩ | ⟨-, there', -⟩
      · exact absurd lt (Nat.lt_irrefl _)
      · exact sound.apart name name' object there there'
  case made =>
    intro name object found
    rcases old name object found with ⟨-, rfl⟩ | ⟨-, -, lt⟩
    · exact Nat.lt_succ_self _
    · exact Nat.lt_succ_of_lt lt
  case alone =>
    intro name object found
    rcases old name object found with ⟨-, rfl⟩ | ⟨-, there, lt⟩
    · rw [objects_add_made]
      exact fun c impossible => absurd impossible List.not_mem_nil
    · rw [objects_add_of_ne (Nat.ne_of_lt lt)]
      exact sound.alone name object there
  case stances =>
    intro v mem live
    rw [objects_add_of_ne (other v mem live).2]
    exact sound.stances v mem live
  case strangers =>
    intro name object user found gone
    rcases old name object found with ⟨-, rfl⟩ | ⟨-, there, lt⟩
    · rw [objects_add_made]
      exact fun c impossible => absurd impossible List.not_mem_nil
    · rw [objects_add_of_ne (Nat.ne_of_lt lt)]
      exact sound.strangers name object user there gone

theorem Sound.enrols (sound : reg.Sound) (found : reg.entries[key]? = some object)
    (fresh : ∀ v ∈ reg.visits, v.user = user → v.key ≠ key) (mode : Mode) :
    ({ reg with visits := reg.visits ++ [{ user, key, mode, object, phase := .calling }] } : Registry).Sound := by
  have split : ∀ w, w ∈ reg.visits ++ [({ user, key, mode, object, phase := .calling } : Visit)] ↔
      w ∈ reg.visits ∨ w = { user, key, mode, object, phase := .calling } := by simp
  constructor
  case apart => exact sound.apart
  case made => exact sound.made
  case alone => exact sound.alone
  case distinct =>
    rw [List.map_append, List.nodup_append]
    refine ⟨sound.distinct, List.nodup_singleton _, ?_⟩
    rintro a old b new rfl
    obtain ⟨v, mem, same⟩ := List.mem_map.1 old
    rw [List.map_singleton, List.mem_singleton] at new
    cases same.trans new
    exact fresh v mem rfl rfl
  case shared =>
    intro w mem live
    rcases (split w).1 mem with old | rfl
    · exact sound.shared w old live
    · exact found
  case stances =>
    intro w mem live
    rcases (split w).1 mem with old | rfl
    · exact sound.stances w old live
    · exact sound.strangers key object user found fun v mem own same => absurd same (fresh v mem own)
  case strangers =>
    intro other object' user' found' gone
    apply sound.strangers other object' user' found'
    exact fun v mem => gone v ((split v).2 (.inl mem))

theorem Sound.call (sound : reg.Sound) (fresh : ∀ v ∈ reg.visits, v.user = user → v.key ≠ key) :
    (reg.call user key mode).Sound := by
  cases found : reg.entries[key]? with
  | some object =>
    simp only [Registry.call, handle_of_some found]
    exact sound.enrols found fresh mode
  | none =>
    simp only [Registry.call, handle_of_none found]
    apply (sound.add found).enrols _ fresh mode
    rw [getElem?_entries_add, if_pos rfl]

theorem Visited.call (visited : reg.Visited) : (reg.call user key mode).Visited := by
  have grown : ∀ (entries : Std.ExtTreeMap String Nat) (object : Nat),
      (∀ name, name ≠ key → entries[name]? = reg.entries[name]?) → ∀ (name : String) (o : Nat),
        entries[name]? = some o →
          ∃ v ∈ reg.visits ++ [({ user, key, mode, object, phase := .calling } : Visit)], v.key = name := by
    intro entries object same name o found
    by_cases own : name = key
    · exact ⟨_, List.mem_append_right _ List.mem_cons_self, own.symm⟩
    · rw [same name own] at found
      obtain ⟨v, mem, named⟩ := visited name o found
      exact ⟨v, List.mem_append_left _ mem, named⟩
  cases found : reg.entries[key]? with
  | some object =>
    simp only [Registry.call, handle_of_some found]
    exact grown _ _ fun _ _ => rfl
  | none =>
    simp only [Registry.call, handle_of_none found]
    apply grown
    intro name own
    rw [getElem?_entries_add, if_neg own]

/-! #### A visit goes on -/

theorem mem_move : w ∈ (reg.move v gate phase).visits ↔
    (w ∈ reg.visits ∧ w ≠ v) ∨ (v ∈ reg.visits ∧ w = { v with phase }) := by
  simp only [move, List.mem_map]
  constructor
  · rintro ⟨u, mem, rfl⟩
    by_cases own : u = v
    · subst own
      exact .inr ⟨mem, if_pos rfl⟩
    · rw [if_neg own]
      exact .inl ⟨mem, own⟩
  · rintro (⟨mem, other⟩ | ⟨mem, rfl⟩)
    · exact ⟨w, mem, if_neg other⟩
    · exact ⟨v, mem, if_pos rfl⟩

/-- A visitor that goes on while it refers to its object, and what it does to the object is none of the others'
business. -/
theorem Sound.move (sound : reg.Sound) (mem : v ∈ reg.visits) (live : v.phase ≠ .leaving)
    (spares : Gate.Spares v.user (reg.objects v.object) gate)
    (own : gate.Respects v.user ({ v with phase } : Visit).stance) : (reg.move v gate phase).Sound := by
  have entry := sound.shared v mem live
  constructor
  case apart => exact sound.apart
  case made => exact sound.made
  case distinct =>
    have same : (reg.move v gate phase).visits.map (fun v => (v.user, v.key)) =
        reg.visits.map fun v => (v.user, v.key) := by
      simp only [Registry.move, List.map_map]
      apply List.map_congr_left
      intro w _
      by_cases here : w = v
      · simp [here]
      · simp [here]
    rw [same]
    exact sound.distinct
  case shared =>
    intro w there live'
    rcases mem_move.1 there with ⟨old, -⟩ | ⟨-, rfl⟩
    · exact sound.shared w old live'
    · exact entry
  case alone =>
    intro name object found
    simp only [Registry.move]
    by_cases here : object = v.object
    · rw [here, Function.update_self]
      exact spares.alone (sound.alone name v.object (here ▸ found))
    · rw [Function.update_of_ne here]
      exact sound.alone name object found
  case stances =>
    intro w there live'
    simp only [Registry.move]
    rcases mem_move.1 there with ⟨old, other⟩ | ⟨-, rfl⟩
    · by_cases here : w.object = v.object
      · have ne : w.user ≠ v.user := fun same => other (sound.eq_of mem old same (sound.key_eq mem live old live' here))
        rw [here, Function.update_self]
        exact spares.others _ _ ne (here ▸ sound.stances w old live')
      · rw [Function.update_of_ne here]
        exact sound.stances w old live'
    · rw [Function.update_self]
      exact own
  case strangers =>
    intro name object user found gone
    simp only [Registry.move]
    by_cases here : object = v.object
    · have named : v.key = name := sound.apart v.key name object (here ▸ entry) found
      rw [here, Function.update_self]
      by_cases self : v.user = user
      · have left : phase = .leaving := gone { v with phase } (mem_move.2 (.inr ⟨mem, rfl⟩)) self named
        subst left self
        exact own
      · apply spares.others _ _ (Ne.symm self)
        apply sound.strangers name v.object user (here ▸ found)
        intro w old theirs
        refine gone w (mem_move.2 (.inl ⟨old, ?_⟩)) theirs
        rintro rfl
        exact self theirs
    · rw [Function.update_of_ne here]
      apply sound.strangers name object user found
      intro w old theirs there
      refine gone w (mem_move.2 (.inl ⟨old, ?_⟩)) theirs there
      rintro rfl
      have same : some w.object = some object := entry.symm.trans (there ▸ found)
      exact here (Option.some.inj same).symm

theorem Visited.move (visited : reg.Visited) : (reg.move v gate phase).Visited := by
  intro name object found
  obtain ⟨w, mem, rfl⟩ := visited name object found
  by_cases own : w = v
  · subst own
    exact ⟨_, mem_move.2 (.inr ⟨mem, rfl⟩), rfl⟩
  · exact ⟨w, mem_move.2 (.inl ⟨mem, own⟩), rfl⟩

/-- Where a visitor that refers to its object stands with it. -/
theorem Sound.stands (sound : reg.Sound) (mem : v ∈ reg.visits) {stance : Stance} (live : v.phase ≠ .leaving)
    (stands : v.stance = stance) : (reg.objects v.object).Respects v.user stance :=
  stands ▸ sound.stances v mem live

theorem Sound.ask (sound : reg.Sound) (mem : v ∈ reg.visits) (calling : v.phase = .calling) : (reg.ask v).Sound := by
  have live : v.phase ≠ .leaving := by simp [calling]
  apply sound.move mem live (Gate.spares_request v.user v.mode)
  exact (Gate.request_respects (sound.stands mem live (by simp [Visit.stance, calling])) v.mode).1

theorem Sound.enter (sound : reg.Sound) (mem : v ∈ reg.visits) (queued : v.phase = .queued)
    (granted : (reg.objects v.object).isHeldBy v.user = true) : (reg.pass v .holding).Sound := by
  have live : v.phase ≠ .leaving := by simp [queued]
  have claiming : (reg.objects v.object).Respects v.user (.claiming v.mode) :=
    sound.stands mem live (by simp [Visit.stance, queued])
  exact sound.move mem live (Gate.spares_refl _ _) (claiming.enter granted)

theorem Sound.part (sound : reg.Sound) (mem : v ∈ reg.visits) (claims : v.phase = .queued ∨ v.phase = .holding) :
    (reg.part v).Sound := by
  have live : v.phase ≠ .leaving := by rcases claims with queued | holding <;> simp [*]
  exact sound.move mem live (Gate.spares_leave v.user) (Gate.leave_respects v.user)

theorem Sound.letGo (sound : reg.Sound) (mem : v ∈ reg.visits) (outside : v.phase = .calling ∨ v.phase = .parting) :
    (reg.pass v .leaving).Sound := by
  have live : v.phase ≠ .leaving := by rcases outside with calling | parting <;> simp [*]
  apply sound.move mem live (Gate.spares_refl _ _)
  apply sound.stands mem live
  rcases outside with calling | parting <;> simp [Visit.stance, *]

/-! #### A visit ends -/

/-- The table refers to an object once. -/
theorem Sound.countP_entries (sound : reg.Sound) (found : reg.entries[key]? = some object) :
    reg.entries.toList.countP (fun entry => entry.2 == object) = 1 := by
  have only : (reg.entries.toList.filter fun entry => entry.2 == object).Perm [(key, object)] := by
    have distinct : reg.entries.toList.Nodup := by
      apply reg.entries.distinct_keys_toList.imp
      rintro a b ne rfl
      exact ne (Std.LawfulEqCmp.compare_eq_iff_eq.2 rfl)
    rw [List.perm_ext_iff_of_nodup (distinct.filter _) (List.nodup_singleton _)]
    rintro ⟨name, other⟩
    rw [List.mem_filter, List.mem_singleton, Std.ExtTreeMap.mem_toList_iff_getElem?_eq_some, beq_iff_eq, Prod.mk.injEq]
    constructor
    · rintro ⟨there, rfl⟩
      exact ⟨sound.apart _ _ _ there found, rfl⟩
    · rintro ⟨rfl, rfl⟩
      exact ⟨found, rfl⟩
  rw [List.countP_eq_length_filter, only.length_eq]
  rfl

/-- An object in the table is referred to by nobody else just if it has no visitors. -/
theorem Sound.references_eq_one_iff (sound : reg.Sound) (found : reg.entries[key]? = some object) :
    reg.references object = 1 ↔ ∀ v ∈ reg.visits, v.phase ≠ .leaving → v.object ≠ object := by
  rw [references, sound.countP_entries found, Nat.add_eq_left, List.countP_eq_zero]
  simp only [Visit.refersTo, Bool.and_eq_true, beq_iff_eq, bne_iff_ne, ne_eq, not_and]
  exact forall₂_congr fun v mem => ⟨fun left live same => left same live, fun free same live => free live same⟩

theorem swept_of_some (found : reg.entries[key]? = some object) :
    reg.swept key = if reg.references object = 1 then reg.entries.erase key else reg.entries := by
  simp only [swept, found]

/-- What is left of the table after a visitor has looked after its entry: an entry is dropped only if nobody refers to
its object. -/
theorem Sound.getElem?_swept (sound : reg.Sound) {name : String} :
    (reg.swept key)[name]? = some object ↔ reg.entries[name]? = some object ∧
      (name = key → ∃ v ∈ reg.visits, v.phase ≠ .leaving ∧ v.object = object) := by
  cases found : reg.entries[key]? with
  | none =>
    simp only [swept, found]
    refine ⟨fun there => ⟨there, ?_⟩, And.left⟩
    rintro rfl
    rw [found] at there
    cases there
  | some own =>
    rw [swept_of_some found]
    by_cases unused : reg.references own = 1
    · rw [if_pos unused]
      simp only [Std.ExtTreeMap.getElem?_erase, Std.LawfulEqCmp.compare_eq_iff_eq]
      have free := (sound.references_eq_one_iff found).1 unused
      by_cases here : key = name
      · subst here
        rw [if_pos rfl, found]
        constructor
        · exact fun impossible => by cases impossible
        · rintro ⟨same, used⟩
          obtain ⟨v, mem, live, refers⟩ := used rfl
          exact absurd (refers.trans (Option.some.inj same).symm) (free v mem live)
      · rw [if_neg here]
        exact ⟨fun there => ⟨there, fun same => absurd same.symm here⟩, And.left⟩
    · rw [if_neg unused]
      refine ⟨fun there => ⟨there, ?_⟩, And.left⟩
      rintro rfl
      rw [found] at there
      cases there
      by_contra nobody
      apply unused
      rw [sound.references_eq_one_iff found]
      exact fun v mem live same => nobody ⟨v, mem, live, same⟩

theorem mem_reclaim : w ∈ (reg.reclaim v).visits ↔ w ∈ reg.visits ∧ w ≠ v := by
  simp [reclaim]

theorem Sound.reclaim (sound : reg.Sound) (leaving : v.phase = .leaving) : (reg.reclaim v).Sound := by
  have old : ∀ (name : String) (object : Nat), (reg.reclaim v).entries[name]? = some object →
      reg.entries[name]? = some object := fun name object found => (sound.getElem?_swept.1 found).1
  refine ⟨?_, ?_, ?_, ?_, ?_, ?_, ?_⟩
  · exact (List.filter_sublist.map _).nodup sound.distinct
  · intro w there live
    have mem := (mem_reclaim.1 there).1
    exact sound.getElem?_swept.2 ⟨sound.shared w mem live, fun _ => ⟨w, mem, live, rfl⟩⟩
  · exact fun name other object found found' => sound.apart name other object (old _ _ found) (old _ _ found')
  · exact fun name object found => sound.made name object (old _ _ found)
  · exact fun name object found => sound.alone name object (old _ _ found)
  · exact fun w there live => sound.stances w (mem_reclaim.1 there).1 live
  · intro name object user found gone
    apply sound.strangers name object user (old _ _ found)
    intro w mem theirs here
    by_cases own : w = v
    · rw [own]
      exact leaving
    · exact gone w (mem_reclaim.2 ⟨mem, own⟩) theirs here

/-- Whoever leaves an entry in the table leaves somebody else behind who will look after it. -/
theorem Visited.reclaim (visited : reg.Visited) (sound : reg.Sound) (leaving : v.phase = .leaving) :
    (reg.reclaim v).Visited := by
  intro name object found
  obtain ⟨there, used⟩ := sound.getElem?_swept.1 found
  by_cases own : name = v.key
  · obtain ⟨w, mem, live, refers⟩ := used own
    have ne : w ≠ v := fun same => live (same ▸ leaving)
    have named : w.key = name := sound.apart w.key name object (refers ▸ sound.shared w mem live) there
    exact ⟨w, mem_reclaim.2 ⟨mem, ne⟩, named⟩
  · obtain ⟨w, mem, named⟩ := visited name object there
    refine ⟨w, mem_reclaim.2 ⟨mem, ?_⟩, named⟩
    rintro rfl
    exact own named.symm

/-! ### All interleavings -/

theorem Reached.sound (reached : reg.Reached) : reg.Sound ∧ reg.Visited := by
  induction reached with
  | start => exact ⟨sound_start, visited_start⟩
  | calls mode _ fresh before => exact ⟨before.1.call fresh, before.2.call⟩
  | asks _ mem calling before => exact ⟨before.1.ask mem calling, before.2.move⟩
  | enters _ mem queued granted before => exact ⟨before.1.enter mem queued granted, before.2.move⟩
  | parts _ mem claims before => exact ⟨before.1.part mem claims, before.2.move⟩
  | letsGo _ mem outside before => exact ⟨before.1.letGo mem outside, before.2.move⟩
  | reclaims _ _ leaving before => exact ⟨before.1.reclaim leaving, before.2.reclaim before.1 leaving⟩

theorem mem_guards : v ∈ reg.guards key ↔ v ∈ reg.visits ∧ v.key = key ∧ v.phase = .holding := by
  simp [guards]

/-- Who holds a guard has its claim on the object granted. -/
theorem Sound.granted (sound : reg.Sound) (mem : v ∈ reg.guards key) :
    { holder := v.user, mode := v.mode } ∈ (reg.objects v.object).granted := by
  obtain ⟨there, -, holding⟩ := mem_guards.1 mem
  have inside : (reg.objects v.object).Respects v.user (.inside v.mode) :=
    sound.stands there (by simp [holding]) (by simp [Visit.stance, holding])
  exact inside

/-- Guards of a key are shared, or there is one. -/
theorem Sound.exclusive (sound : reg.Sound) (key : String) :
    (∀ v ∈ reg.guards key, v.mode = .shared) ∨ ∃ v, reg.guards key = [v] ∧ v.mode = .exclusive := by
  by_cases some : ∃ v ∈ reg.guards key, v.mode = .exclusive
  · obtain ⟨v, mem, exclusive⟩ := some
    obtain ⟨there, named, holding⟩ := mem_guards.1 mem
    have entry := sound.shared v there (by simp [holding])
    have only : ∀ w ∈ reg.guards key, w = v := by
      intro w mem'
      obtain ⟨there', named', holding'⟩ := mem_guards.1 mem'
      have entry' := sound.shared w there' (by simp [holding'])
      have same : w.object = v.object := by
        rw [named'] at entry'
        rw [named, entry'] at entry
        exact Option.some.inj entry
      have inside := sound.granted mem'
      have single := sound.alone v.key v.object entry _ (sound.granted mem) exclusive
      rw [same, single, List.mem_singleton] at inside
      exact sound.eq_of there there' (congrArg Claim.holder inside) (named'.trans named.symm)
    have distinct : (reg.guards key).Nodup := sound.distinct.of_map.filter _
    have single : (reg.guards key).Perm [v] := by
      rw [List.perm_ext_iff_of_nodup distinct (List.nodup_singleton v)]
      exact fun w => ⟨fun mem' => List.mem_singleton.2 (only w mem'), fun mem' => List.mem_singleton.1 mem' ▸ mem⟩
    exact .inr ⟨v, List.perm_singleton.1 single, exclusive⟩
  · apply Or.inl
    intro v mem
    cases mode : v.mode with
    | shared => rfl
    | exclusive => exact absurd ⟨v, mem, mode⟩ some

/-- However visits interleave, the table is exact. -/
theorem Reached.exact (reached : reg.Reached) : reg.Exact := by
  obtain ⟨sound, visited⟩ := reached.sound
  refine ⟨sound.exclusive, sound.shared, ?_, sound.apart, visited⟩
  intro object used
  rcases Nat.add_pos_iff_pos_or_pos.1 used with table | visitors
  · obtain ⟨⟨key, _⟩, mem, same⟩ := List.countP_pos_iff.1 table
    rw [Std.ExtTreeMap.mem_toList_iff_getElem?_eq_some] at mem
    exact ⟨key, mem.trans (congrArg some (beq_iff_eq.1 same))⟩
  · obtain ⟨v, mem, refers⟩ := List.countP_pos_iff.1 visitors
    simp only [Visit.refersTo, Bool.and_eq_true, beq_iff_eq, bne_iff_ne] at refers
    exact ⟨v.key, refers.1 ▸ sound.shared v mem refers.2⟩

end Registry

end Containment
