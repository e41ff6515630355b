/-
Module: Containment.Proofs.Index.Equivalence
Purpose: The index in memory and the index in a database cannot be told apart by asking, but for the numbers of
  rows, which are in the same order. Both answer as one catalogue does; they part only in the numbers that a
  failed request uses up, and a renumbering makes up for those as the run goes on.
Main exports: Exchange, Index.exchanges, TableIndex.Shows.numbers_suffice, Matched, Matched.step, Matched.exchanges,
  Index.exchanges_equivalent
-/
import Containment.Index.Basic
import Containment.Proofs.Index.MemoryCatalogue
import Containment.Proofs.Index.TableCatalogue

namespace Containment

/-- A request with its answer. -/
structure Exchange where
  call : IndexCall
  answer : Except IndexError call.Answer

namespace Exchange

/-- The request with its answer under other numbers. -/
def renumber (ρ : Nat → Nat) (x : Exchange) : Exchange :=
  { call := x.call.renumber ρ, answer := x.answer.map (x.call.renumberAnswer ρ) }

/-- Whether the request failed because no row number was left. -/
def ranOut (x : Exchange) : Bool :=
  match x.answer with
  | .error (.database .full) => true
  | _ => false

theorem ranOut_eq_false_iff {x : Exchange} : x.ranOut = false ↔ x.answer ≠ .error (.database .full) := by
  rw [ranOut]
  split
  · rename_i full
    simp [full]
  · rename_i other
    simp only [true_iff]
    exact other

end Exchange

/-- What is answered to requests one after the other. -/
def Index.exchanges : Index → List IndexCall → List Exchange
  | _, [] => []
  | ix, call :: rest => { call, answer := (ix.perform call).1 } :: (ix.perform call).2.exchanges rest

/-- No number is lacking as long as fewer members are brought than there are numbers left. -/
theorem TableIndex.Shows.numbers_suffice {t : TableIndex} {last : Nat} {held : Catalogue} (known : t.Shows last held)
    (fits : held.Fits (fun member => member.addedAt.IsWhole) last) {calls : List IndexCall}
    (whole : ∀ call ∈ calls, ∀ member ∈ call.members, member.addedAt.IsWhole)
    (enough : last + (calls.flatMap IndexCall.members).length ≤ maxSeq) :
    ∀ x ∈ (Index.table t).exchanges calls, x.ranOut = false := by
  induction calls generalizing t last held with
  | nil =>
    intro x impossible
    cases impossible
  | cons call rest ih =>
    rw [List.flatMap_cons, List.length_append] at enough
    have wholeCall := whole call List.mem_cons_self
    have meets : t.Meets last held call := by
      apply (known.perform fits wholeCall).resolve_left
      intro exhausts
      have short := exhausts.short
      omega
    intro x mem
    rcases List.mem_cons.1 mem with rfl | later
    · rw [Exchange.ranOut_eq_false_iff, Index.perform, meets.answer]
      exact held.perform_ne_full last call
    · have reached := held.reached_le last call
      apply ih meets.shows (fits.perform call wholeCall) _ (by omega) x later
      exact fun call' mem => whole call' (List.mem_cons_of_mem call mem)

/-! ### A renumbering that grows with the run -/

/-- As before up to `last`; the numbers after `last` become the ones after `top`. -/
def extended (ρ : Nat → Nat) (last top : Nat) : Nat → Nat :=
  fun n => if n ≤ last then ρ n else top + (n - last)

section Extended

variable {ρ : Nat → Nat} {last top : Nat}

theorem extended_of_le {n : Nat} (le : n ≤ last) : extended ρ last top n = ρ n :=
  if_pos le

theorem extended_add (top : Nat) {i : Nat} (pos : 1 ≤ i) : extended ρ last top (last + i) = top + i := by
  rw [extended, if_neg (by omega)]
  omega

theorem extended_le {n : Nat} (above : ρ last ≤ top) (le : last ≤ n) : extended ρ last top n ≤ top + (n - last) := by
  rw [extended]
  split
  · rename_i le'
    rw [Nat.le_antisymm le' le]
    omega
  · exact le_rfl

theorem extended_strictMono (up : StrictMono ρ) (above : ρ last ≤ top) : StrictMono (extended ρ last top) := by
  intro a b less
  rw [extended, extended]
  by_cases leB : b ≤ last
  · rw [if_pos leB, if_pos (by omega)]
    exact up less
  · rw [if_neg leB]
    by_cases leA : a ≤ last
    · have below : ρ a ≤ ρ last := up.monotone leA
      rw [if_pos leA]
      omega
    · rw [if_neg leA]
      omega

end Extended

theorem IndexCall.members_renumber (ρ : Nat → Nat) (call : IndexCall) :
    (call.renumber ρ).members = call.members := by
  cases call <;> rfl

/-- What a request does to an index does not depend on the position it names. -/
theorem MemoryIndex.perform_renumber_snd (ρ : Nat → Nat) (m : MemoryIndex) (call : IndexCall) :
    (m.perform (call.renumber ρ)).2 = (m.perform call).2 := by
  cases call <;> rfl

/-- As many numbers are given out under other numbers. -/
theorem Catalogue.reached_renumber {ρ : Nat → Nat} (up : StrictMono ρ) (held : Catalogue) {n k : Nat}
    (call : IndexCall) (fits : ∀ i, 1 ≤ i → n + i ≤ held.reached n call → ρ (n + i) = k + i) :
    reached (renumber ρ held) k (call.renumber ρ) + n = k + held.reached n call := by
  rw [reached, reached, perform_renumber up held call fits, IndexCall.members_renumber]
  cases (held.perform n call).1 with
  | error e => exact rfl
  | ok answer =>
    simp only [Except.map]
    omega

/-! ### The indexes side by side -/

/-- The table shows a catalogue, and the index in memory has the same one under other numbers. -/
structure Matched (ρ : Nat → Nat) (m : MemoryIndex) (t : TableIndex) (last : Nat) (held : Catalogue) : Prop where
  wellFormed : m.WellFormed
  shows : t.Shows last held
  fits : held.Fits (fun member => member.addedAt.IsWhole) last
  alike : m.catalogue = held.renumber ρ
  above : ρ last ≤ m.lastSeq

variable {ρ : Nat → Nat} {m : MemoryIndex} {t : TableIndex} {last : Nat} {held : Catalogue}

theorem matched_empty : Matched id {} {} 0 ∅ := by
  constructor
  · exact MemoryIndex.wellFormed_empty
  · exact TableIndex.shows_empty
  · exact Catalogue.fits_empty
  · apply Std.ExtTreeMap.ext_getElem?
    intro c
    simp
  · exact le_rfl

/-- Under any renumbering that agrees with the one that has grown so far, a request is answered alike. -/
theorem Matched.answer (matched : Matched ρ m t last held) {call : IndexCall} (meets : t.Meets last held call)
    {σ : Nat → Nat} (up : StrictMono σ)
    (agree : ∀ n ≤ held.reached last call, σ n = extended ρ last m.lastSeq n) :
    (m.perform (call.renumber σ)).1 = (t.perform call).1.map (call.renumberAnswer σ) ∧
      (m.perform call).2.catalogue = (held.perform last call).2.renumber σ ∧
      σ (held.reached last call) ≤ (m.perform call).2.lastSeq := by
  have same : m.catalogue = held.renumber σ := by
    rw [matched.alike]
    apply Eq.symm
    apply Catalogue.renumber_congr matched.fits
    intro n le
    rw [agree n (le.trans (held.le_reached last call)), extended_of_le le]
  have numbers : ∀ i, 1 ≤ i → last + i ≤ held.reached last call → σ (last + i) = m.lastSeq + i := by
    intro i pos le
    rw [agree _ le, extended_add _ pos]
  have performed := MemoryIndex.perform_catalogue matched.wellFormed (call.renumber σ)
  rw [same, Catalogue.perform_renumber up held call numbers, MemoryIndex.perform_renumber_snd] at performed
  have reached := MemoryIndex.reached_le_lastSeq matched.wellFormed (call.renumber σ)
  have given := Catalogue.reached_renumber up held call numbers
  rw [same, MemoryIndex.perform_renumber_snd] at reached
  constructor
  · rw [meets.answer]
    exact (congrArg Prod.fst performed).symm
  · constructor
    · exact (congrArg Prod.snd performed).symm
    · have le := held.le_reached last call
      have bound := extended_le matched.above le
      rw [agree _ le_rfl]
      omega

/-- One request: the indexes stay side by side under the renumbering that has grown by what the request gave
out. -/
theorem Matched.step (matched : Matched ρ m t last held) (up : StrictMono ρ) {call : IndexCall}
    (whole : ∀ member ∈ call.members, member.addedAt.IsWhole) (meets : t.Meets last held call) :
    Matched (extended ρ last m.lastSeq) (m.perform call).2 (t.perform call).2 (held.reached last call)
      (held.perform last call).2 := by
  obtain ⟨-, alike, above⟩ := matched.answer meets (extended_strictMono up matched.above) fun n _ => rfl
  constructor
  · exact MemoryIndex.perform_wellFormed matched.wellFormed call
  · exact meets.shows
  · exact matched.fits.perform call whole
  · exact alike
  · exact above

/-- Requests one after the other: by induction on them, the renumbering that has grown so far can be continued
to one under which all answers are the same. -/
theorem Matched.exchanges (matched : Matched ρ m t last held) (up : StrictMono ρ) {calls : List IndexCall}
    (whole : ∀ call ∈ calls, ∀ member ∈ call.members, member.addedAt.IsWhole)
    (room : ∀ x ∈ (Index.table t).exchanges calls, x.ranOut = false) :
    ∃ σ, StrictMono σ ∧ (∀ n ≤ last, σ n = ρ n) ∧
      (Index.memory m).exchanges (calls.map (IndexCall.renumber σ)) =
        ((Index.table t).exchanges calls).map (Exchange.renumber σ) := by
  induction calls generalizing ρ m t last held with
  | nil => exact ⟨ρ, up, fun n _ => rfl, rfl⟩
  | cons call rest ih =>
    have here := Exchange.ranOut_eq_false_iff.1 (room _ List.mem_cons_self)
    have wholeCall := whole call List.mem_cons_self
    have meets := (matched.shows.perform matched.fits wholeCall).resolve_left fun exhausts => here exhausts.refused
    obtain ⟨σ, upσ, agree, others⟩ :=
      ih (matched.step up wholeCall meets) (extended_strictMono up matched.above)
        (fun call' mem => whole call' (List.mem_cons_of_mem call mem))
        (fun x mem => room x (List.mem_cons_of_mem _ mem))
    refine ⟨σ, upσ, ?_, ?_⟩
    · intro n le
      rw [agree n (le.trans (held.le_reached last call)), extended_of_le le]
    · have answer := (matched.answer meets upσ agree).1
      rw [List.map_cons, Index.exchanges, Index.exchanges, List.map_cons]
      congr 1
      · simp only [Exchange.renumber, Index.perform, answer]
      · simp only [Index.perform, MemoryIndex.perform_renumber_snd]
        exact others

/-- **The two kinds of index are equivalent.** Ask an empty index in a database anything, member times being whole
milliseconds, as long as it has numbers left to give: an empty index in memory gives the same answers and the
same errors, up to one renumbering of rows that keeps their order. The positions in the requests are renumbered
like the rows in the answers, so that each index is asked from its own numbers; the position before all rows,
zero, is the same for both. -/
theorem Index.exchanges_equivalent (calls : List IndexCall)
    (whole : ∀ call ∈ calls, ∀ member ∈ call.members, member.addedAt.IsWhole)
    (room : ∀ x ∈ (Index.table {}).exchanges calls, x.ranOut = false) :
    ∃ ρ : Nat → Nat, StrictMono ρ ∧ ρ 0 = 0 ∧
      (Index.memory {}).exchanges (calls.map (IndexCall.renumber ρ)) =
        ((Index.table {}).exchanges calls).map (Exchange.renumber ρ) := by
  obtain ⟨ρ, up, agree, same⟩ := matched_empty.exchanges strictMono_id whole room
  exact ⟨ρ, up, agree 0 le_rfl, same⟩

/-- A member listed so many milliseconds after the epoch. -/
def memberAt (id : String) (ms : Int) : Member :=
  { id, type := .resource, addedAt := Time.Instant.ofMillis ms }

/-- Requests with a replacement that fails half way, where the index in memory uses numbers up that the database
takes back, a partition that is dropped and made anew, and rows asked for in every order. -/
def sampleRequests : List IndexCall :=
  [.insert "/a" (memberAt "/a/1" 5), .createPartition "/a", .createPartition "/a",
    .insert "/a" (memberAt "/a/1" 5), .insert "/a" (memberAt "/a/1" 6),
    .replacePartition "/a" [memberAt "/a/2" 7, memberAt "/a/3" 7, memberAt "/a/2" 8],
    .insert "/a" (memberAt "/a/2" (-1)), .replacePartition "/b" [memberAt "/b/1" 9, memberAt "/b/2" 9],
    .select "/a" { sort := .newestFirst }, .selectAfter "/a" 1 10 none, .remove "/b" "/b/1",
    .dropPartition "/a", .createPartition "/a", .insert "/a" (memberAt "/a/1" 5),
    .selectAfter "/b" 2 1 (some .resource), .count "/b" (some .binary), .select "/b" { sort := .memberId, offset := 1 },
    .hasPartition "/c", .partitions, .contains "/a" "/a/1"]

theorem sampleRequests_equivalent :
    (∀ call ∈ sampleRequests, ∀ member ∈ call.members, member.addedAt.IsWhole) ∧
      (∀ x ∈ (Index.table {}).exchanges sampleRequests, x.ranOut = false) ∧
      ∃ ρ : Nat → Nat, StrictMono ρ ∧ ρ 0 = 0 ∧
        (Index.memory {}).exchanges (sampleRequests.map (IndexCall.renumber ρ)) =
          ((Index.table {}).exchanges sampleRequests).map (Exchange.renumber ρ) := by
  have whole : ∀ call ∈ sampleRequests, ∀ member ∈ call.members, member.addedAt.IsWhole := by decide +kernel
  have room : ∀ x ∈ (Index.table {}).exchanges sampleRequests, x.ranOut = false :=
    TableIndex.shows_empty.numbers_suffice Catalogue.fits_empty whole (by decide)
  exact ⟨whole, room, Index.exchanges_equivalent sampleRequests whole room⟩

end Containment
