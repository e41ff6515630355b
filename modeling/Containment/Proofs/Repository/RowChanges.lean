/-
Module: Containment.Proofs.Repository.RowChanges
Purpose: What a write that succeeds makes of the rows, number by number. A change adds one row to a container or leaves
  rows of a member out; the rows of all other containers are as they were. A move makes one such change for each parent
  that takes part.
Main exports: IndexChange.Turns, yields_commit, ParentTurned, yields_commitParent, yields_commitMoved
-/
import Containment.Proofs.Repository.Moves
import Containment.Proofs.Repository.Invariants
import Containment.Proofs.Repository.Seeding

namespace Containment

open Containment.Action

/-- A change of the rows of one container: a row is added at the end under some number, or those of a member are left
out. -/
inductive IndexChange.Turns (container : String) (held : Catalogue) : IndexChange → Catalogue → Prop
  | insert {rows : List IndexEntry} (m : Member) (n : Nat) : held[container]? = some rows →
      Turns container held (.insert m) (held.insert container (rows ++ [.ofMember container m n]))
  | remove {rows : List IndexEntry} (id : String) : held[container]? = some rows →
      Turns container held (.remove id) (held.insert container (rows.filter fun row => !(row.memberId == id)))

/-- The rows of all other containers are as they were. -/
theorem IndexChange.Turns.others {container c : String} {held held' : Catalogue} {change : IndexChange}
    (turns : change.Turns container held held') (ne : c ≠ container) : held'[c]? = held[c]? := by
  have apart : ¬ compare container c = .eq := by
    rw [Std.LawfulEqCmp.compare_eq_iff_eq]
    exact Ne.symm ne
  cases turns <;> rw [Std.ExtTreeMap.getElem?_insert, if_neg apart]

namespace Repository

variable {h : Holdings} {record : Record} {container : Container} {change : IndexChange} {id source target : String}
  {held : Catalogue}

/-- A change that is not refused is made. -/
theorem yields_attempt (known : h.index.Catalogued held) (change : IndexChange) :
    (attempt id change).Yields h fun outcome h' => outcome = .ok () →
      h.IndexOnly h' ∧ ∃ held', change.Turns id held held' ∧ h'.index.Catalogued held' := by
  cases change with
  | insert m =>
    obtain ⟨last, answer, after⟩ := known.perform (.insert id m)
    apply ensures_tryIndex
    · refine yields_pure fun done => ⟨⟨rfl, rfl⟩, _, ?_, after⟩
      rw [answer] at done
      simp only [Catalogue.perform] at done ⊢
      cases found : held[id]? with
      | none =>
        rw [found] at done
        cases done
      | some rows =>
        simp only [found] at done ⊢
        by_cases listed : m.id ∈ rows.map IndexEntry.memberId
        · rw [if_pos listed] at done
          cases done
        · rw [if_neg listed]
          exact .insert m (last + 1) found
    · exact fun e => yields_pure fun impossible => by cases impossible
  | remove memberId =>
    obtain ⟨last, answer, after⟩ := known.perform (.remove id memberId)
    apply ensures_tryIndex
    · refine yields_pure fun done => ⟨⟨rfl, rfl⟩, _, ?_, after⟩
      rw [answer] at done
      simp only [Catalogue.perform] at done ⊢
      cases found : held[id]? with
      | none =>
        rw [found] at done
        cases done
      | some rows => exact .remove memberId found
    · exact fun e => yields_pure fun impossible => by cases impossible

theorem yields_applyIndex (known : h.index.Catalogued held) (change : IndexChange) (previous : List Member) :
    (applyIndex id [change] previous).Yields h fun _ h' =>
      h.IndexOnly h' ∧ ∃ held', change.Turns id held held' ∧ h'.index.Catalogued held' := by
  simp only [applyIndex, applyFrom]
  refine (yields_attempt known change).bind ?_
  intro outcome h₁ made
  cases outcome with
  | ok u => exact yields_pure (made rfl)
  | error e => exact yields_bind_throw _ _

/-- A container is written together with the change of its rows. -/
theorem yields_commit (known : h.index.Catalogued held)
    (ready : Prepared h.store record container (some change)) :
    (commit record container [change]).Yields h fun next h' =>
      next = record.next container ∧ h'.store = h.store.put next ∧
        ∃ held', change.Turns container.id held held' ∧ h'.index.Catalogued held' := by
  have rows : (commit record container [change]).Yields h fun _ h' =>
      ∃ held', change.Turns container.id held held' ∧ h'.index.Catalogued held' := by
    simp only [commit]
    refine (yields_applyIndex known change record.container.members).bind ?_
    rintro _ h₁ ⟨-, held', turns, known'⟩
    apply ensures_tryStore
    · split
      · exact yields_pure ⟨held', turns, known'⟩
      · exact yields_bind_throw _ _
    · exact fun e => yields_bind_throw _ _
  intro fails out h' run next done
  obtain ⟨-, ended⟩ := ensures_commit ready fails out h' run
  have turned := rows fails out h' run next done
  subst done
  obtain ⟨rfl, -, store, -⟩ := ended
  exact ⟨rfl, store, turned⟩

/-! ### Moves -/

/-- The rows of a parent that takes part in a move are changed; without one nothing is. -/
def ParentTurned (change : IndexChange) (held held' : Catalogue) : Option (Record × Container) → Prop
  | none => held' = held
  | some (_, p) => change.Turns p.id held held'

theorem yields_commitParent {writes : List (Record × Record)} {events : List Event}
    {parent : Option (Record × Container)} (known : h.index.Catalogued held)
    (ready : ∀ r p, parent = some (r, p) → Prepared h.store r p (some change)) :
    (commitParent change writes events parent).Yields h fun given h' =>
      ParentWritten h.store events given.2 h'.store parent ∧
        ∃ held', ParentTurned change held held' parent ∧ h'.index.Catalogued held' := by
  cases parent with
  | none => exact yields_pure ⟨⟨rfl, rfl⟩, held, rfl, known⟩
  | some parent =>
    obtain ⟨record, container⟩ := parent
    refine (yields_commit known (ready record container rfl)).onError.bind ?_
    rintro _ h₁ ⟨rfl, store, turned⟩
    exact yields_pure ⟨⟨rfl, store⟩, turned⟩

/-- A container that has moved is written last, and its rows stay. -/
theorem yields_commitMoved {moved : Container} {writes : List (Record × Record)} {events : List Event}
    (current : h.store.records[moved.id]? = some record) :
    (commitMoved record moved writes events).Yields h fun _ h' =>
      h'.store = h.store.put (record.next moved) ∧ h'.index = h.index := by
  simp only [commitMoved]
  apply ensures_tryStore
  · have replaced : h.store.records[(record.next moved).id]? = some record := current
    rw [MemoryStore.perform_update replaced rfl]
    exact yields_publish (yields_pure ⟨rfl, rfl⟩)
  · exact fun e => yields_bind_throw _ _

end Repository

end Containment
