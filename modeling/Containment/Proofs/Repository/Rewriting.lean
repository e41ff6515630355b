/-
Module: Containment.Proofs.Repository.Rewriting
Purpose: Writing the whole index anew, of whatever kind the index is. Undisturbed, each stored container has its
  partition replaced and each partition without a container is dropped, and nothing else is asked of the index but the
  names of its partitions. So it is enough to know that the index grants those requests and what it has become then.
Main exports: Index.Renews, Index.Sheds, Repository.succeeds_load_bind, Repository.summed, Repository.succeeds_rewriting
-/
import Containment.Proofs.Repository.Verification
import Mathlib.Algebra.GroupWithZero.Nat

namespace Containment

/-- Replacing the partitions of some stored containers, one after the other and each with the members of its record,
is granted and turns the one index into the other. -/
inductive Index.Renews (S : MemoryStore) : Index → List String → Index → Prop
  | done (ix : Index) : Renews S ix [] ix
  | next {ix ix₁ ix' : Index} {id : String} {rest : List String} {r : Record} (stored : S.records[id]? = some r)
      (granted : ix.perform (.replacePartition id r.container.members) = (.ok (), ix₁))
      (others : Renews S ix₁ rest ix') : Renews S ix (id :: rest) ix'

/-- Dropping some partitions without a container, one after the other, finds each of them and turns the one index into
the other. -/
inductive Index.Sheds (S : MemoryStore) : Index → List String → Index → Prop
  | done (ix : Index) : Sheds S ix [] ix
  | next {ix ix₁ ix' : Index} {id : String} {rest : List String} (absent : S.records[id]? = none)
      (granted : ix.perform (.dropPartition id) = (.ok true, ix₁))
      (others : Sheds S ix₁ rest ix') : Sheds S ix (id :: rest) ix'

namespace Repository

open Containment.Action

variable {w : World} {S : MemoryStore} {id : String} {ix' : Index}

theorem listing_of_stored {r : Record} (stored : S.records[id]? = some r) :
    S.contents.listing id = some r.container.members := by
  rw [Contents.listing, MemoryStore.contents_eq_some stored]
  rfl

theorem listing_of_absent (absent : S.records[id]? = none) : S.contents.listing id = none := by
  rw [Contents.listing, MemoryStore.contents_eq_none absent]
  rfl

theorem succeeds_hydrate {r : Record} (valid : r.container.Valid) :
    (hydrate r).Succeeds w fun c w' => r.hydrate = .ok c ∧ w' = w := by
  obtain ⟨c, hydrated⟩ := Record.exists_hydrate valid
  simp only [hydrate]
  rw [hydrated]
  exact succeeds_pure ⟨rfl, rfl⟩

theorem succeeds_load_valid {r : Record} (readable : w.store.ReadsAs S) (clean : w.faults = [])
    (stored : S.records[id]? = some r) (valid : r.container.Valid) :
    (load id).Succeeds w fun answer w' => (answer.1 = r ∧ r.hydrate = .ok answer.2) ∧ w' = w := by
  have read := readable.read id
  rw [stored] at read
  simp only [load]
  apply succeeds_store_bind clean read
  change (hydrate r >>= fun container => pure (r, container)).Succeeds w _
  apply (succeeds_hydrate valid).bind
  intro c _ given
  rcases given with ⟨hydrated, rfl⟩
  exact succeeds_pure ⟨⟨rfl, hydrated⟩, rfl⟩

theorem succeeds_load_bind {β : Type} {r : Record} {f : Record × Container → Action β} {P : β → World → Prop}
    (readable : w.store.ReadsAs S) (clean : w.faults = []) (stored : S.records[id]? = some r)
    (valid : r.container.Valid) (next : ∀ c, r.hydrate = .ok c → (f (r, c)).Succeeds w P) :
    (load id >>= f).Succeeds w P := by
  apply (succeeds_load_valid readable clean stored valid).bind
  intro answer _ given
  rcases answer with ⟨r, c⟩
  rcases given with ⟨⟨rfl, hydrated⟩, rfl⟩
  exact next c hydrated

/-- One container, if the index grants its new partition. -/
theorem succeeds_rebuild_granted (readable : w.store.ReadsAs S) (clean : w.faults = []) {r : Record}
    (stored : S.records[id]? = some r) (valid : r.container.Valid)
    (granted : w.index.perform (.replacePartition id r.container.members) = (.ok (), ix')) :
    (rebuild id).Succeeds w fun rows w' => rows = r.container.members.length ∧ w' = { w with index := ix' } := by
  have written : (index (.replacePartition id r.container.members)).Succeeds w fun _ w' =>
      w' = { w with index := ix' } := succeeds_index clean granted rfl
  apply Succeeds.withLock
  apply succeeds_load_bind readable clean stored valid
  intro c _
  apply succeeds_checkContext_bind
  apply written.bind
  intro _ w' done
  exact succeeds_pure ⟨rfl, done⟩

theorem succeeds_some_rebuild (readable : w.store.ReadsAs S) (clean : w.faults = []) {r : Record}
    (stored : S.records[id]? = some r) (valid : r.container.Valid)
    (granted : w.index.perform (.replacePartition id r.container.members) = (.ok (), ix')) :
    (some <$> rebuild id).Succeeds w fun rows w' =>
      rows = some r.container.members.length ∧ w' = { w with index := ix' } := by
  apply Succeeds.map
  apply (succeeds_rebuild_granted readable clean stored valid granted).mono
  exact fun rows w' done => ⟨congrArg some done.1, done.2⟩

/-- What is counted when some containers have been written anew. -/
def summed (S : MemoryStore) (ids : List String) (summary : RebuildSummary) : RebuildSummary :=
  { summary with
    partitionsRebuilt := summary.partitionsRebuilt + ids.length
    rowsWritten := summary.rowsWritten + (ids.map fun id => (S.contents.listing id).elim 0 List.length).sum }

theorem summed_cons {r : Record} (stored : S.records[id]? = some r) (rest : List String) (summary : RebuildSummary) :
    summed S (id :: rest) summary =
      summed S rest
        { summary with
          partitionsRebuilt := summary.partitionsRebuilt + 1
          rowsWritten := summary.rowsWritten + r.container.members.length } := by
  simp only [summed, List.map_cons, List.sum_cons, listing_of_stored stored, Option.elim_some, List.length_cons]
  congr 1 <;> omega

/-- The members of all stored containers are counted container by container. -/
theorem sum_lengths (S : MemoryStore) :
    (S.records.keys.map fun id => (S.contents.listing id).elim 0 List.length).sum =
      (S.records.values.map fun r => r.container.members.length).sum := by
  rw [← Std.ExtTreeMap.map_fst_toList_eq_keys, values_eq_map_snd_toList, List.map_map, List.map_map]
  apply congrArg List.sum
  apply List.map_congr_left
  intro entry mem
  have stored := Std.ExtTreeMap.mem_toList_iff_getElem?_eq_some.1 mem
  simp only [Function.comp, listing_of_stored stored, Option.elim_some]

theorem succeeds_rebuildEach (readable : w.store.ReadsAs S) (clean : w.faults = [])
    (valid : ∀ (id : String) (r : Record), S.records[id]? = some r → r.container.Valid) {ids : List String}
    (renews : w.index.Renews S ids ix') (summary : RebuildSummary) :
    (rebuildEach ids summary).Succeeds w fun full w' =>
      full = summed S ids summary ∧ w' = { w with index := ix' } := by
  generalize kept : w.index = ix at renews
  induction renews generalizing w summary with
  | done ix =>
    subst kept
    exact succeeds_pure ⟨rfl, rfl⟩
  | @next ix ix₁ ix' id rest r stored granted others ih =>
    subst kept
    simp only [rebuildEach]
    apply (succeeds_some_rebuild readable clean stored (valid id r stored) granted).tryCatch.bind
    intro rows w₁ given
    rcases given with ⟨rfl, rfl⟩
    rw [summed_cons stored]
    exact ih (w := { w with index := ix₁ }) readable clean _ rfl

theorem succeeds_dropOrphan_granted (readable : w.store.ReadsAs S) (clean : w.faults = [])
    (absent : S.records[id]? = none) (granted : w.index.perform (.dropPartition id) = (.ok true, ix')) :
    (dropOrphan id).Succeeds w fun dropped w' => dropped = true ∧ w' = { w with index := ix' } := by
  have unknown := readable.stored id
  rw [Std.ExtTreeMap.contains_eq_isSome_getElem?, absent] at unknown
  simp only [dropOrphan, isStored]
  apply succeeds_store_bind clean unknown
  exact succeeds_index clean granted ⟨rfl, rfl⟩

theorem succeeds_dropOrphans (readable : w.store.ReadsAs S) (clean : w.faults = []) {partitions : List String}
    (sheds : w.index.Sheds S partitions ix') (summary : RebuildSummary) :
    (dropOrphans partitions summary).Succeeds w fun full w' =>
      full = { summary with orphansDropped := summary.orphansDropped + partitions.length } ∧
        w' = { w with index := ix' } := by
  generalize kept : w.index = ix at sheds
  induction sheds generalizing w summary with
  | done ix =>
    subst kept
    exact succeeds_pure ⟨rfl, rfl⟩
  | @next ix ix₁ ix' id rest absent granted others ih =>
    subst kept
    simp only [dropOrphans]
    apply (succeeds_dropOrphan_granted readable clean absent granted).withLock.bind
    intro dropped w₁ given
    rcases given with ⟨rfl, rfl⟩
    apply (ih (w := { w with index := ix₁ }) readable clean _ rfl).mono
    intro full w' given
    refine ⟨given.1.trans ?_, given.2⟩
    simp only [if_true, List.length_cons]
    congr 1
    omega

/-- The whole index, if it grants a new partition to each stored container and gives up the others. -/
theorem succeeds_rewriting (readable : w.store.ReadsAs S) (clean : w.faults = [])
    (valid : ∀ (id : String) (r : Record), S.records[id]? = some r → r.container.Valid) {ix₁ : Index}
    (renews : w.index.Renews S S.records.keys ix₁) {names : List String}
    (asked : ix₁.perform .partitions = (.ok names, ix₁))
    (sheds : ix₁.Sheds S (names.filter fun p => !S.records.contains p) ix') :
    rebuildAll.Succeeds w fun summary w' =>
      summary =
        { partitionsRebuilt := S.records.size
          rowsWritten := (S.records.values.map fun r => r.container.members.length).sum
          orphansDropped := (names.filter fun p => !S.records.contains p).length } ∧
        w' = { w with index := ix' } := by
  have unstored : (names.filter fun p => !S.records.keys.contains p) = names.filter fun p => !S.records.contains p := by
    apply List.filter_congr
    intro p _
    rw [Bool.eq_iff_iff, Bool.not_eq_true', Bool.not_eq_true', ← Bool.not_eq_true, ← Bool.not_eq_true,
      List.contains_iff_mem, Std.ExtTreeMap.mem_keys, Std.ExtTreeMap.contains_iff_mem]
  simp only [rebuildAll]
  apply succeeds_store_bind clean readable.ids
  apply (succeeds_rebuildEach readable clean valid renews {}).bind
  intro summary w₁ given
  rcases given with ⟨rfl, rfl⟩
  apply succeeds_index_bind (w := { w with index := ix₁ }) clean asked
  rw [unstored]
  apply (succeeds_dropOrphans (w := { w with index := ix₁ }) readable clean sheds _).mono
  intro full w' given
  refine ⟨given.1.trans ?_, given.2⟩
  simp only [summed, sum_lengths, Std.ExtTreeMap.length_keys, Nat.zero_add]

end Repository

end Containment
