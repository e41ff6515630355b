/-
Module: Containment.Proofs.Repository.IndexWrites
Purpose: The part of a write that goes to the index: making a change, taking it back, and starting and dropping
  partitions. Everything else stays as it is, whatever fails.
Main exports: Holdings.Lists, Holdings.Mirrored, IndexChange.apply, ensures_applyIndex, ensures_undoIndex,
  ensures_seedPartition
-/
import Containment.Proofs.Index.Contract
import Containment.Proofs.Outcome
import Containment.Proofs.Store.Contents
import Containment.Repository.Commit

namespace Containment

open Function (update)

namespace Holdings

/-- The index is in order and lists just these members. -/
def Lists (h : Holdings) (lists : Listing) : Prop :=
  h.index.Lists lists

/-- The index repeats the membership list of each stored container and nothing else. -/
def Mirrored (h : Holdings) : Prop :=
  h.Lists h.store.contents.listing

/-- Nothing but the index differs. -/
structure IndexOnly (h h' : Holdings) : Prop where
  store : h'.store = h.store
  published : h'.published = h.published

variable {h h₁ h' : Holdings}

theorem IndexOnly.refl (h : Holdings) : h.IndexOnly h :=
  ⟨rfl, rfl⟩

theorem IndexOnly.trans (first : h.IndexOnly h₁) (second : h₁.IndexOnly h') : h.IndexOnly h' :=
  ⟨second.store.trans first.store, second.published.trans first.published⟩

theorem Lists.congr {lists lists' : Listing} (known : h.Lists lists) (same : lists = lists') : h.Lists lists' :=
  same ▸ known

end Holdings

namespace IndexChange

/-- What a change makes of a membership list. -/
def apply : IndexChange → List Member → List Member
  | .insert m, members => members ++ [m]
  | .remove id, members => members.filter (·.id ≠ id)

/-- A change that the index takes: no member is added twice. -/
def Fits : IndexChange → List Member → Prop
  | .insert m, members => ∀ n ∈ members, n.id ≠ m.id
  | .remove _, _ => True

end IndexChange

namespace Repository

open Containment.Action

variable {h : Holdings} {id : String} {lists : Listing} {members : List Member}

theorem ensures_attempt (change : IndexChange) :
    (attempt id change).Ensures h fun fails out h' =>
      ∃ answer, out = .ok answer ∧ h.IndexOnly h' ∧
        (fails = [] ∨ fails.length = 1 ∧ h' = h ∧ ∃ e, answer = .error e) ∧
        (fails = [] → ∀ lists members, h.Lists lists → lists id = some members → change.Fits members →
          answer = .ok () ∧ h'.Lists (update lists id (some (change.apply members)))) := by
  cases change with
  | insert m =>
    refine ensures_tryIndex (ensures_pure ?_) fun e => ensures_pure ?_
    · refine ⟨_, rfl, ⟨rfl, rfl⟩, .inl rfl, fun _ lists members known listed fits => ?_⟩
      obtain ⟨⟨row, answer⟩, after⟩ := known.insert listed fits
      exact ⟨by rw [answer]; rfl, after⟩
    · exact ⟨_, rfl, .refl h, .inr ⟨rfl, rfl, e, rfl⟩, fun impossible => by cases impossible⟩
  | remove memberId =>
    refine ensures_tryIndex (ensures_pure ?_) fun e => ensures_pure ?_
    · refine ⟨_, rfl, ⟨rfl, rfl⟩, .inl rfl, fun _ lists members known listed fits => ?_⟩
      obtain ⟨⟨existed, answer⟩, after⟩ := known.remove listed memberId
      exact ⟨by rw [answer]; rfl, after⟩
    · exact ⟨_, rfl, .refl h, .inr ⟨rfl, rfl, e, rfl⟩, fun impossible => by cases impossible⟩

/-- Taking a change back never fails itself, and without failing requests it brings the old list back. -/
theorem ensures_undoIndex (change : Option IndexChange) (nodup : (members.map Member.id).Nodup)
    (fits : ∀ c ∈ change, c.Fits members) :
    (undoIndex id change.toList members).Ensures h fun fails out h' =>
      out = .ok () ∧ h.IndexOnly h' ∧
        (fails = [] → ∀ lists, lists id = some members →
          h.Lists (update lists id (some (change.elim members (·.apply members)))) → h'.Lists lists) := by
  rcases change with _ | ⟨m⟩ | memberId
  · refine ensures_pure ⟨rfl, .refl h, fun _ lists listed known => known.congr ?_⟩
    change update lists id (some members) = lists
    rw [← listed, Function.update_eq_self]
  · refine ensures_tryIndex ?_ fun e => ensures_pure ⟨rfl, .refl h, fun impossible => by cases impossible⟩
    have fresh : ∀ n ∈ members, n.id ≠ m.id := fits _ rfl
    have back : (members ++ [m]).filter (·.id ≠ m.id) = members := by
      rw [List.filter_append, List.filter_eq_self.2 (by simpa using fresh)]
      simp
    split
    · refine ensures_pure ⟨rfl, ⟨rfl, rfl⟩, fun _ lists listed known => ?_⟩
      have after := (Index.Lists.remove known (Function.update_self ..) m.id).2
      refine Holdings.Lists.congr after ?_
      rw [Function.update_idem]
      change update lists id (some ((members ++ [m]).filter (·.id ≠ m.id))) = lists
      rw [back, ← listed, Function.update_eq_self]
    · rename_i e refused
      refine ensures_pure ⟨rfl, ⟨rfl, rfl⟩, fun _ lists listed known => ?_⟩
      obtain ⟨existed, answer⟩ := (Index.Lists.remove known (Function.update_self ..) m.id).1
      rw [answer] at refused
      cases refused
  · refine ensures_tryIndex (ensures_pure ?_) fun e =>
      ensures_pure ⟨rfl, .refl h, fun impossible => by cases impossible⟩
    refine ⟨rfl, ⟨rfl, rfl⟩, fun _ lists listed known => ?_⟩
    refine Holdings.Lists.congr (Index.Lists.replacePartition known nodup).2 ?_
    rw [Function.update_idem, ← listed, Function.update_eq_self]

/-- A single change is made or refused; if it is refused, there is nothing to take back. -/
theorem ensures_applyIndex (change : Option IndexChange) :
    (applyIndex id change.toList members).Ensures h fun fails out h' =>
      h.IndexOnly h' ∧
        match out with
        | .ok _ => fails = [] ∧ ∀ lists, h.Lists lists → lists id = some members →
            (∀ c ∈ change, c.Fits members) →
              h'.Lists (update lists id (some (change.elim members (·.apply members))))
        | .error _ => ∀ lists, h.Lists lists → lists id = some members → (∀ c ∈ change, c.Fits members) →
            fails ≠ [] ∧ (fails.length = 1 → h'.Lists lists) := by
  cases change with
  | none =>
    refine ensures_pure ⟨.refl h, rfl, fun lists known listed _ => known.congr ?_⟩
    change lists = update lists id (some members)
    rw [← listed, Function.update_eq_self]
  | some change =>
    refine (ensures_attempt change).bind ?_ ?_
    · intro early answer h₁ given
      rcases given with ⟨_, ⟨⟩, only, counted, clean⟩
      cases answer with
      | ok done =>
        have noFails : early = [] := counted.resolve_right (by rintro ⟨-, -, e, ⟨⟩⟩)
        subst noFails
        exact ensures_pure ⟨only, rfl, fun lists known listed fits =>
          (clean rfl lists members known listed (fits _ rfl)).2⟩
      | error e =>
        refine ensures_throw ⟨only, fun lists known listed fits => ?_⟩
        rcases counted with rfl | ⟨one, rfl, -⟩
        · have impossible := (clean rfl lists members known listed (fits _ rfl)).1
          cases impossible
        · rw [List.append_nil]
          refine ⟨?_, fun _ => known⟩
          intro same
          subst same
          cases one
    · intro fails e h' given
      rcases given with ⟨_, ⟨⟩, _⟩

/-- The partition of a new container is empty afterwards, or everything is as before because a request failed. -/
theorem ensures_seedPartition :
    (seedPartition id).Ensures h fun fails out h' =>
      h.IndexOnly h' ∧
        ∀ lists, h.Lists lists → lists id = none →
          match out with
          | .ok _ => h'.Lists (update lists id (some []))
          | .error _ => fails ≠ [] ∧ h'.Lists lists := by
  have noMembers : (([] : List Member).map Member.id).Nodup := List.nodup_nil
  refine ensures_tryIndex ?_ fun e => ?_
  · split
    · exact ensures_pure ⟨⟨rfl, rfl⟩, fun lists known absent => (Index.Lists.createPartition known absent).2⟩
    · rename_i refused
      have impossible : ∀ lists, h.Lists lists → lists id = none → False := by
        intro lists known absent
        rw [(Index.Lists.createPartition known absent).1] at refused
        cases refused
      refine ensures_tryIndex ?_ fun e => ensures_throw
        ⟨⟨rfl, rfl⟩, fun lists known absent => (impossible lists known absent).elim⟩
      split
      · exact ensures_pure ⟨⟨rfl, rfl⟩, fun lists known absent => (impossible lists known absent).elim⟩
      · exact ensures_throw ⟨⟨rfl, rfl⟩, fun lists known absent => (impossible lists known absent).elim⟩
    · rename_i refused
      refine ensures_throw ⟨⟨rfl, rfl⟩, fun lists known absent => ?_⟩
      rw [(Index.Lists.createPartition known absent).1] at refused
      cases refused
  · split
    · rename_i impossible
      cases impossible
    · refine ensures_tryIndex ?_ fun e => ensures_throw
        ⟨.refl h, fun lists known _ => ⟨List.cons_ne_nil _ _, known⟩⟩
      split
      · refine ensures_pure ⟨⟨rfl, rfl⟩, fun lists known _ => ?_⟩
        exact (Index.Lists.replacePartition known noMembers).2
      · rename_i refused
        refine ensures_throw ⟨⟨rfl, rfl⟩, fun lists known _ => ?_⟩
        rw [(Index.Lists.replacePartition known noMembers).1] at refused
        cases refused
    · exact ensures_throw ⟨.refl h, fun lists known _ => ⟨List.cons_ne_nil _ _, known⟩⟩

end Repository

end Containment
