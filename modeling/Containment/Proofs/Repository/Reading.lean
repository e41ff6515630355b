/-
Module: Containment.Proofs.Repository.Reading
Purpose: What readers of one container get: the container from its record, pages and counts from the rows that the index
  keeps for it. Undisturbed, they all succeed and leave everything as it is.
Main exports: MemberPage.ofRows, Repository.succeeds_get, Repository.succeeds_countMembers,
  Repository.succeeds_listMembers
-/
import Containment.Proofs.Index.Keeping
import Containment.Proofs.Repository.Making

namespace Containment

/-- The rows that a listing asks for. -/
def ListOptions.query (options : ListOptions) (limit : Nat) : IndexQuery :=
  { offset := options.offset, limit := some limit, sort := options.sort, memberType := options.memberType }

/-- The page of a container with these rows. -/
def MemberPage.ofRows (limits : Limits) (options : ListOptions) (rows : List IndexEntry) : MemberPage :=
  { entries := (options.query (limits.pageLimit options.limit)).answer rows
    total := rows.countP fun row => typePasses options.memberType row.type
    offset := options.offset
    limit := limits.pageLimit options.limit }

/-- A page of no rows, or past the last of them, is empty. -/
theorem ListOptions.answer_query_eq_nil {options : ListOptions} {limit : Nat} {rows : List IndexEntry}
    (past : limit = 0 ∨ (rows.countP fun row => typePasses options.memberType row.type) ≤ options.offset) :
    (options.query limit).answer rows = [] := by
  have length : ((options.sort.arrange rows).filter (options.query limit).accepts).length =
      rows.countP fun row => typePasses options.memberType row.type := by
    rw [← List.countP_eq_length_filter]
    exact (options.sort.arrange_perm rows).countP_eq _
  rw [IndexQuery.answer, IndexQuery.window]
  change (List.drop options.offset _).take limit = []
  rcases past with rfl | past
  · exact List.take_zero
  · rw [List.drop_eq_nil_of_le, List.take_nil]
    exact length.trans_le past

/-- A call whose program succeeds is answered. -/
theorem Action.Succeeds.answers {α β : Type} {x : Action α} {w : World} {P : α → World → Prop}
    (succeeds : x.Succeeds w P) (f : α → β) : ∃ a w', (f <$> x).run.run none w = (.ok (f a), w') ∧ P a w' := by
  obtain ⟨a, w', ended, good⟩ := succeeds
  obtain ⟨_, _, answered, rfl, rfl⟩ :=
    Succeeds.map (f := f) (P := fun b w₁ => b = f a ∧ w₁ = w') ⟨a, w', ended, rfl, rfl⟩
  exact ⟨a, _, answered, good⟩

namespace Repository

open Containment.Action

variable {w : World} {S : MemoryStore} {held : Catalogue} {rows : List IndexEntry} {container : String}

/-- What a container's record holds is handed out. -/
theorem succeeds_get (readable : w.store.ReadsAs S) (clean : w.faults = []) {r : Record}
    (stored : S.records[container]? = some r) (valid : r.container.Valid) :
    (get container).Succeeds w fun c w' => r.hydrate = .ok c ∧ w' = w := by
  apply Succeeds.withLock
  apply succeeds_load_bind readable clean stored valid
  exact fun c hydrated => succeeds_pure ⟨hydrated, rfl⟩

/-- A question that the index answers is answered to the reader. -/
theorem succeeds_askIndex_bind {β : Type} (clean : w.faults = []) {call : IndexCall} {answer : call.Answer}
    {f : call.Answer → Action β} {P : β → World → Prop} (served : w.index.perform call = (.ok answer, w.index))
    (next : (f answer).Succeeds w P) : (askIndex container (tryIndex call) >>= f).Succeeds w P := by
  have asked : (askIndex container (tryIndex call)).Succeeds w fun a w' => a = answer ∧ w' = w := by
    simp only [askIndex]
    apply succeeds_tryIndex_bind clean served
    exact succeeds_pure ⟨rfl, rfl⟩
  apply asked.bind
  rintro _ _ ⟨rfl, rfl⟩
  exact next

theorem succeeds_countMembers (clean : w.faults = []) (keeps : w.index.Keeps held)
    (found : held[container]? = some rows) (type : Option MemberType) :
    (countMembers container type).Succeeds w fun n w' =>
      n = (rows.countP fun row => typePasses type row.type) ∧ w' = w := by
  apply Succeeds.withLock
  rw [← bind_pure (askIndex _ _)]
  apply succeeds_askIndex_bind clean (keeps.count found type)
  exact succeeds_pure ⟨rfl, rfl⟩

theorem succeeds_listMembers (clean : w.faults = []) (keeps : w.index.Keeps held)
    (found : held[container]? = some rows) (limits : Limits) (options : ListOptions) :
    (listMembers limits container options).Succeeds w fun page w' =>
      page = MemberPage.ofRows limits options rows ∧ w' = w := by
  simp only [listMembers]
  apply Succeeds.withLock
  apply succeeds_askIndex_bind clean (keeps.count found options.memberType)
  split
  · rename_i past
    apply succeeds_pure
    rw [MemberPage.ofRows, ListOptions.answer_query_eq_nil past]
    exact ⟨rfl, rfl⟩
  · apply succeeds_askIndex_bind clean (keeps.select found _)
    exact succeeds_pure ⟨rfl, rfl⟩

end Repository

end Containment
