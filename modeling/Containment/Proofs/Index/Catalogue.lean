/-
Module: Containment.Proofs.Index.Catalogue
Purpose: What a membership index is meant to do, whatever keeps its rows: a list of rows for each container with
  a partition, changed only at its end or by leaving rows out. The numbers of rows matter only through their
  order, so that a catalogue with other numbers in the same order answers alike.
Main exports: Catalogue, Catalogue.perform, Catalogue.Fits, IndexCall.renumber, IndexCall.renumberAnswer,
  Catalogue.perform_renumber
-/
import Containment.Proofs.Index.Listing
import Mathlib.Order.Monotone.Basic

namespace Containment

/-- The rows of each container that has a partition, in the order of their numbers. -/
abbrev Catalogue := Std.ExtTreeMap String (List IndexEntry)

/-- The row of a member under a number. -/
def IndexEntry.ofMember (container : String) (m : Member) (seq : Nat) : IndexEntry :=
  { containerId := container, memberId := m.id, type := m.type, insertedAt := m.addedAt, seq }

/-- The rows of members under the numbers that follow `last`. -/
def IndexEntry.numbered (container : String) : Nat → List Member → List IndexEntry
  | _, [] => []
  | last, m :: rest => ofMember container m (last + 1) :: numbered container (last + 1) rest

/-- The first member of a list that is among those seen before it. -/
def Member.repeated? : List String → List Member → Option String
  | _, [] => none
  | seen, m :: rest => if m.id ∈ seen then some m.id else repeated? (seen ++ [m.id]) rest

/-- Rows given in the order of their numbers, in another order. -/
def SortOrder.arrange : SortOrder → List IndexEntry → List IndexEntry
  | .insertion, rows => rows
  | .newestFirst, rows => rows.mergeSort Partition.newer
  | .memberId, rows => rows.mergeSort fun a b => (compare a.memberId b.memberId).isLE

/-- The rows that a question is about. -/
def IndexQuery.answer (query : IndexQuery) (rows : List IndexEntry) : List IndexEntry :=
  query.window ((query.sort.arrange rows).filter query.accepts)

theorem SortOrder.arrange_perm (order : SortOrder) (rows : List IndexEntry) : (order.arrange rows).Perm rows := by
  cases order with
  | insertion => exact .refl rows
  | newestFirst | memberId => exact List.mergeSort_perm rows _

theorem SortOrder.mem_arrange {order : SortOrder} {rows : List IndexEntry} {row : IndexEntry} :
    row ∈ order.arrange rows ↔ row ∈ rows :=
  (order.arrange_perm rows).mem_iff

theorem IndexQuery.mem_of_mem_answer (query : IndexQuery) {rows : List IndexEntry} {row : IndexEntry}
    (mem : row ∈ query.answer rows) : row ∈ rows := by
  have rest : row ∈ ((query.sort.arrange rows).filter query.accepts).drop query.offset := by
    rw [answer, window] at mem
    cases limit : query.limit with
    | none => rwa [limit] at mem
    | some n =>
      rw [limit] at mem
      exact List.mem_of_mem_take mem
  exact SortOrder.mem_arrange.1 (List.mem_filter.1 (List.mem_of_mem_drop rest)).1

/-- The first rows of a kind with a number above `after`. -/
def IndexEntry.following (after limit : Nat) (type : Option MemberType) (rows : List IndexEntry) :
    List IndexEntry :=
  (rows.filter fun row => after < row.seq && typePasses type row.type).take limit

/-- The members that get a row each, if the request succeeds. -/
def IndexCall.members : IndexCall → List Member
  | .insert _ m => [m]
  | .replacePartition _ members => members
  | _ => []

namespace Catalogue

/-- Ask about the rows of a container with a partition. -/
def ask {α : Type} (held : Catalogue) (container : String) (question : List IndexEntry → α) :
    Except IndexError α :=
  match held[container]? with
  | none => .error (.partitionNotFound container)
  | some rows => .ok (question rows)

/-- Answer a request, when the rows that it adds get the numbers after `last`. -/
def perform (held : Catalogue) (last : Nat) : (call : IndexCall) → Except IndexError call.Answer × Catalogue
  | .createPartition c =>
      if held.contains c then (.error (.partitionExists c), held) else (.ok (), held.insert c [])
  | .dropPartition c => (.ok (held.contains c), held.erase c)
  | .hasPartition c => (.ok (held.contains c), held)
  | .partitions => (.ok held.keys, held)
  | .insert c m =>
      match held[c]? with
      | none => (.error (.partitionNotFound c), held)
      | some rows =>
        if m.id ∈ rows.map IndexEntry.memberId then (.error (.duplicateEntry c m.id), held)
        else
          let row := IndexEntry.ofMember c m (last + 1)
          (.ok row, held.insert c (rows ++ [row]))
  | .remove c id =>
      match held[c]? with
      | none => (.error (.partitionNotFound c), held)
      | some rows =>
        (.ok (rows.any (·.memberId == id)), held.insert c (rows.filter fun row => !(row.memberId == id)))
  | .contains c id => (.ok (held[c]?.any fun rows => rows.any (·.memberId == id)), held)
  | .count c type => (held.ask c fun rows => rows.countP fun row => typePasses type row.type, held)
  | .select c query => (held.ask c query.answer, held)
  | .selectAfter c after limit type => (held.ask c (IndexEntry.following after limit type), held)
  | .replacePartition c members =>
      match Member.repeated? [] members with
      | some id => (.error (.duplicateEntry c id), held)
      | none => (.ok (), held.insert c (IndexEntry.numbered c last members))

/-- The number given out last, when a failed request gives out none. -/
def reached (held : Catalogue) (last : Nat) (call : IndexCall) : Nat :=
  match (held.perform last call).1 with
  | .ok _ => last + call.members.length
  | .error _ => last

end Catalogue

/-! ### Which rows there can be -/

/-- A row of `container` that repeats a member of some kind under a number up to `last`. -/
structure IndexEntry.Fits (good : Member → Prop) (container : String) (last : Nat) (row : IndexEntry) : Prop where
  own : row.containerId = container
  number : row.seq ≤ last
  member : good row.toMember

theorem IndexEntry.Fits.mono {good : Member → Prop} {c : String} {last later : Nat} {row : IndexEntry}
    (fits : row.Fits good c last) (le : last ≤ later) : row.Fits good c later :=
  ⟨fits.own, fits.number.trans le, fits.member⟩

theorem IndexEntry.fits_ofMember {good : Member → Prop} {c : String} {m : Member} (kind : good m) (n : Nat) :
    (ofMember c m n).Fits good c n :=
  ⟨rfl, le_rfl, kind⟩

theorem IndexEntry.fits_numbered {good : Member → Prop} {c : String} {members : List Member} {last : Nat}
    (kind : ∀ m ∈ members, good m) : ∀ row ∈ numbered c last members, row.Fits good c (last + members.length) := by
  induction members generalizing last with
  | nil =>
    intro row impossible
    cases impossible
  | cons m rest ih =>
    intro row mem
    rw [List.length_cons]
    rcases List.mem_cons.1 mem with rfl | later
    · exact (fits_ofMember (kind m List.mem_cons_self) _).mono (by omega)
    · have fits := ih (fun m' mem' => kind m' (List.mem_cons_of_mem m mem')) row later
      exact fits.mono (by omega)

/-- Rows get numbers that were not given out before. -/
theorem IndexEntry.lt_seq_numbered {c : String} {members : List Member} {last : Nat} :
    ∀ row ∈ numbered c last members, last < row.seq := by
  induction members generalizing last with
  | nil =>
    intro row impossible
    cases impossible
  | cons m rest ih =>
    intro row mem
    rcases List.mem_cons.1 mem with rfl | later
    · exact Nat.lt_succ_self last
    · exact (Nat.lt_succ_self last).trans (ih row later)

namespace Catalogue

theorem insert_insert (held : Catalogue) (c : String) (rows rows' : List IndexEntry) :
    ((held.insert c rows).insert c rows' : Catalogue) = held.insert c rows' := by
  apply Std.ExtTreeMap.ext_getElem?
  intro d
  simp only [Std.ExtTreeMap.getElem?_insert]
  split <;> rfl

theorem insert_of_getElem? {held : Catalogue} {c : String} {rows : List IndexEntry} (found : held[c]? = some rows) :
    held.insert c rows = held := by
  apply Std.ExtTreeMap.ext_getElem?
  intro d
  rw [Std.ExtTreeMap.getElem?_insert]
  split
  · rename_i same
    rw [← Std.LawfulEqCmp.compare_eq_iff_eq.1 same, found]
  · rfl

/-- All rows stand under their container, with numbers up to `last`, and repeat members of some kind. -/
def Fits (good : Member → Prop) (last : Nat) (held : Catalogue) : Prop :=
  ∀ (c : String) (rows : List IndexEntry), held[c]? = some rows → ∀ row ∈ rows, row.Fits good c last

variable {good : Member → Prop} {last later : Nat} {held : Catalogue} {c : String}

theorem le_reached (held : Catalogue) (last : Nat) (call : IndexCall) : last ≤ held.reached last call := by
  rw [reached]
  split
  · exact Nat.le_add_right _ _
  · exact le_rfl

theorem reached_of_members_nil (held : Catalogue) (last : Nat) {call : IndexCall} (none : call.members = []) :
    held.reached last call = last := by
  rw [reached, none]
  split <;> rfl

theorem reached_le (held : Catalogue) (last : Nat) (call : IndexCall) :
    held.reached last call ≤ last + call.members.length := by
  rw [reached]
  split
  · exact le_rfl
  · exact Nat.le_add_right _ _

theorem ask_ne_full {α : Type} (held : Catalogue) (c : String) (question : List IndexEntry → α) :
    held.ask c question ≠ .error (.database .full) := by
  rw [ask]
  split <;> simp

/-- A catalogue has a number for every row. -/
theorem perform_ne_full (held : Catalogue) (last : Nat) (call : IndexCall) :
    (held.perform last call).1 ≠ .error (.database .full) := by
  cases call with
  | createPartition c =>
    rw [perform]
    split <;> simp
  | dropPartition | hasPartition | partitions | contains => simp [perform]
  | insert c m =>
    simp only [perform]
    split
    · simp
    · split <;> simp
  | remove c id =>
    simp only [perform]
    split <;> simp
  | count c type => exact ask_ne_full held c _
  | select c query => exact ask_ne_full held c _
  | selectAfter c after limit type => exact ask_ne_full held c _
  | replacePartition c members =>
    simp only [perform]
    split <;> simp

theorem fits_empty : Fits good last ∅ := by
  intro c rows found
  simp at found

theorem Fits.mono (fits : held.Fits good last) (le : last ≤ later) : held.Fits good later :=
  fun c rows found row mem => (fits c rows found row mem).mono le

theorem Fits.insert (fits : held.Fits good last) {rows : List IndexEntry}
    (new : ∀ row ∈ rows, row.Fits good c last) : Fits good last (held.insert c rows) := by
  intro d rows' found
  rw [Std.ExtTreeMap.getElem?_insert] at found
  split at found
  · rename_i same
    cases found
    rw [← Std.LawfulEqCmp.compare_eq_iff_eq.1 same]
    exact new
  · exact fits d rows' found

theorem Fits.erase (fits : held.Fits good last) (c : String) : Fits good last (held.erase c) := by
  intro d rows found
  rw [Std.ExtTreeMap.getElem?_erase] at found
  split at found
  · cases found
  · exact fits d rows found

/-- Every request leaves rows of this kind behind, if it brings members of this kind only. -/
theorem Fits.perform (fits : held.Fits good last) (call : IndexCall) (kind : ∀ m ∈ call.members, good m) :
    (held.perform last call).2.Fits good (held.reached last call) := by
  cases call with
  | createPartition c =>
    by_cases known : held.contains c = true
    · simp only [reached, Catalogue.perform, if_pos known]
      exact fits
    · simp only [reached, Catalogue.perform, if_neg known]
      apply fits.insert
      intro row impossible
      cases impossible
  | dropPartition c => exact fits.erase c
  | insert c m =>
    cases found : held[c]? with
    | none =>
      simp only [reached, Catalogue.perform, found]
      exact fits
    | some rows =>
      by_cases listed : m.id ∈ rows.map IndexEntry.memberId
      · simp only [reached, Catalogue.perform, found, if_pos listed]
        exact fits
      · simp only [reached, Catalogue.perform, found, if_neg listed]
        apply (fits.mono (Nat.le_succ last)).insert
        intro row mem
        rcases List.mem_append.1 mem with old | new
        · exact (fits c rows found row old).mono (Nat.le_succ last)
        · rw [List.mem_singleton.1 new]
          exact IndexEntry.fits_ofMember (kind m (List.mem_singleton.2 rfl)) _
  | remove c id =>
    simp only [reached, Catalogue.perform]
    cases found : held[c]? with
    | none => exact fits
    | some rows =>
      apply fits.insert
      intro row mem
      exact fits c rows found row (List.mem_filter.1 mem).1
  | replacePartition c members =>
    simp only [reached, Catalogue.perform]
    cases Member.repeated? [] members with
    | some id => exact fits
    | none => exact (fits.mono (Nat.le_add_right _ _)).insert (IndexEntry.fits_numbered kind)
  | hasPartition | partitions | contains | count | select | selectAfter =>
    exact fits.mono (held.le_reached last _)

end Catalogue

/-! ### Other numbers -/

/-- The row under another number. -/
def IndexEntry.renumber (ρ : Nat → Nat) (row : IndexEntry) : IndexEntry :=
  { row with seq := ρ row.seq }

/-- The request with another number, where it names one. -/
def IndexCall.renumber (ρ : Nat → Nat) : IndexCall → IndexCall
  | .selectAfter c after limit type => .selectAfter c (ρ after) limit type
  | call => call

/-- The answer with other numbers. -/
def IndexCall.renumberAnswer (ρ : Nat → Nat) : (call : IndexCall) → call.Answer → (call.renumber ρ).Answer
  | .createPartition _, done => done
  | .dropPartition _, existed => existed
  | .hasPartition _, exists_ => exists_
  | .partitions, ids => ids
  | .insert _ _, row => row.renumber ρ
  | .remove _ _, existed => existed
  | .contains _ _, listed => listed
  | .count _ _, number => number
  | .select _ _, rows => rows.map (IndexEntry.renumber ρ)
  | .selectAfter _ _ _ _, rows => rows.map (IndexEntry.renumber ρ)
  | .replacePartition _ _, done => done

theorem IndexEntry.ofMember_renumber (ρ : Nat → Nat) (c : String) (m : Member) (n : Nat) :
    (ofMember c m n).renumber ρ = ofMember c m (ρ n) :=
  rfl

/-- Rows keep their order when all numbers do. -/
theorem IndexEntry.numbered_renumber {ρ : Nat → Nat} {c : String} {members : List Member} {n k : Nat}
    (fits : ∀ i, 1 ≤ i → i ≤ members.length → ρ (n + i) = k + i) :
    (numbered c n members).map (renumber ρ) = numbered c k members := by
  induction members generalizing n k with
  | nil => rfl
  | cons m rest ih =>
    have first : ρ (n + 1) = k + 1 := fits 1 le_rfl (by simp)
    have others : ∀ i, 1 ≤ i → i ≤ rest.length → ρ (n + 1 + i) = k + 1 + i := by
      intro i pos le
      have given := fits (i + 1) (by omega) (by rw [List.length_cons]; omega)
      have left : n + 1 + i = n + (i + 1) := by omega
      rw [left, given]
      omega
    rw [numbered, numbered, List.map_cons, ofMember_renumber, first, ih others]

theorem SortOrder.arrange_renumber {ρ : Nat → Nat} (up : StrictMono ρ) (order : SortOrder)
    (rows : List IndexEntry) :
    order.arrange (rows.map (IndexEntry.renumber ρ)) = (order.arrange rows).map (IndexEntry.renumber ρ) := by
  cases order with
  | insertion => rfl
  | newestFirst =>
    apply Eq.symm
    apply List.map_mergeSort
    intro a _ b _
    have seqs : compare (ρ b.seq) (ρ a.seq) = compare b.seq a.seq := by
      simp only [compare, compareOfLessAndEq, up.lt_iff_lt, up.injective.eq_iff]
    simp only [Partition.newer, IndexEntry.renumber, seqs]
  | memberId =>
    apply Eq.symm
    apply List.map_mergeSort
    intro a _ b _
    rfl

theorem IndexQuery.window_map {α β : Type} (query : IndexQuery) (f : α → β) (rows : List α) :
    query.window (rows.map f) = (query.window rows).map f := by
  rw [window, window]
  cases query.limit with
  | none => exact List.map_drop.symm
  | some limit =>
    simp only
    rw [List.map_take, List.map_drop]

theorem IndexQuery.answer_renumber {ρ : Nat → Nat} (up : StrictMono ρ) (query : IndexQuery)
    (rows : List IndexEntry) :
    query.answer (rows.map (IndexEntry.renumber ρ)) = (query.answer rows).map (IndexEntry.renumber ρ) := by
  rw [answer, SortOrder.arrange_renumber up, List.filter_map, window_map]
  rfl

theorem IndexEntry.following_renumber {ρ : Nat → Nat} (up : StrictMono ρ) (after limit : Nat)
    (type : Option MemberType) (rows : List IndexEntry) :
    following (ρ after) limit type (rows.map (renumber ρ)) =
      (following after limit type rows).map (renumber ρ) := by
  have same : (fun row => decide (ρ after < row.seq) && typePasses type row.type) ∘ renumber ρ =
      fun row => decide (after < row.seq) && typePasses type row.type := by
    funext row
    simp [renumber, up.lt_iff_lt]
  rw [following, following, List.filter_map, same, List.map_take]

namespace Catalogue

/-- The rows under other numbers. -/
def renumber (ρ : Nat → Nat) (held : Catalogue) : Catalogue :=
  held.map fun _ rows => rows.map (IndexEntry.renumber ρ)

variable {ρ : Nat → Nat} {held : Catalogue} {c : String}

@[simp]
theorem getElem?_renumber (ρ : Nat → Nat) (held : Catalogue) (c : String) :
    (renumber ρ held)[c]? = held[c]?.map (List.map (IndexEntry.renumber ρ)) :=
  Std.ExtTreeMap.getElem?_map

@[simp]
theorem contains_renumber (ρ : Nat → Nat) (held : Catalogue) (c : String) :
    (renumber ρ held).contains c = held.contains c :=
  Std.ExtTreeMap.contains_map

theorem renumber_insert (ρ : Nat → Nat) (held : Catalogue) (c : String) (rows : List IndexEntry) :
    renumber ρ (held.insert c rows) = (renumber ρ held).insert c (rows.map (IndexEntry.renumber ρ)) :=
  map_insert _ held c rows

theorem renumber_erase (ρ : Nat → Nat) (held : Catalogue) (c : String) :
    renumber ρ (held.erase c) = (renumber ρ held).erase c :=
  map_erase _ held c

theorem ask_renumber {α β : Type} {question : List IndexEntry → α} {question' : List IndexEntry → β} {f : α → β}
    (alike : ∀ rows : List IndexEntry, question' (rows.map (IndexEntry.renumber ρ)) = f (question rows)) :
    ask (renumber ρ held) c question' = (held.ask c question).map f := by
  rw [ask, ask, getElem?_renumber]
  cases held[c]? with
  | none => rfl
  | some rows => exact congrArg Except.ok (alike rows)

/-- Two ways to change numbers that agree on all numbers there are have the same outcome. -/
theorem renumber_congr {good : Member → Prop} {last : Nat} {ρ' : Nat → Nat} (fits : held.Fits good last)
    (agree : ∀ n ≤ last, ρ' n = ρ n) : renumber ρ' held = renumber ρ held := by
  apply Std.ExtTreeMap.ext_getElem?
  intro c
  rw [getElem?_renumber, getElem?_renumber]
  cases found : held[c]? with
  | none => rfl
  | some rows =>
    apply congrArg some
    apply List.map_congr_left
    intro row mem
    rw [IndexEntry.renumber, agree row.seq (fits c rows found row mem).number]
    rfl

/-- A new row is numbered as its counterpart is. -/
theorem perform_insert_renumber (held : Catalogue) {n k : Nat} (c : String) (m : Member)
    (fits : ∀ i, 1 ≤ i → n + i ≤ held.reached n (.insert c m) → ρ (n + i) = k + i) :
    perform (renumber ρ held) k (.insert c m) =
      ((held.perform n (.insert c m)).1.map (IndexEntry.renumber ρ), renumber ρ (held.perform n (.insert c m)).2) := by
  simp only [reached, perform, getElem?_renumber] at fits ⊢
  cases found : held[c]? with
  | none => rfl
  | some rows =>
    have ids : (rows.map (IndexEntry.renumber ρ)).map IndexEntry.memberId = rows.map IndexEntry.memberId := by
      rw [List.map_map]
      rfl
    simp only [found, Option.map_some, ids] at fits ⊢
    by_cases listed : m.id ∈ rows.map IndexEntry.memberId
    · rw [if_pos listed, if_pos listed]
      rfl
    · rw [if_neg listed] at fits
      have number : ρ (n + 1) = k + 1 := fits 1 le_rfl le_rfl
      rw [if_neg listed, if_neg listed, renumber_insert, List.map_append, List.map_singleton,
        IndexEntry.ofMember_renumber, number]
      simp only [Except.map, IndexEntry.ofMember_renumber, number]

/-- The rows of a partition that is written anew are numbered as their counterparts are. -/
theorem perform_replacePartition_renumber (held : Catalogue) {n k : Nat} (c : String) (members : List Member)
    (fits : ∀ i, 1 ≤ i → n + i ≤ held.reached n (.replacePartition c members) → ρ (n + i) = k + i) :
    perform (renumber ρ held) k (.replacePartition c members) =
      ((held.perform n (.replacePartition c members)).1, renumber ρ (held.perform n (.replacePartition c members)).2) := by
  simp only [reached, perform] at fits ⊢
  cases found : Member.repeated? [] members with
  | some id => rfl
  | none =>
    simp only [found] at fits
    have numbers : (IndexEntry.numbered c n members).map (IndexEntry.renumber ρ) =
        IndexEntry.numbered c k members := by
      apply IndexEntry.numbered_renumber
      intro i pos le
      exact fits i pos (Nat.add_le_add_left le n)
    simp only [renumber_insert, numbers]

/-- With other numbers in the same order, every request is answered alike and has the same effect, if the
rows that it adds get the numbers that their counterparts have. -/
theorem perform_renumber (up : StrictMono ρ) (held : Catalogue) {n k : Nat} (call : IndexCall)
    (fits : ∀ i, 1 ≤ i → n + i ≤ held.reached n call → ρ (n + i) = k + i) :
    perform (renumber ρ held) k (call.renumber ρ) =
      ((held.perform n call).1.map (call.renumberAnswer ρ), renumber ρ (held.perform n call).2) := by
  cases call with
  | createPartition c =>
    simp only [IndexCall.renumber, perform, contains_renumber]
    by_cases known : held.contains c = true
    · rw [if_pos known, if_pos known]
      rfl
    · rw [if_neg known, if_neg known, renumber_insert]
      rfl
  | dropPartition c =>
    simp only [IndexCall.renumber, perform, contains_renumber, ← renumber_erase]
    rfl
  | hasPartition c =>
    simp only [IndexCall.renumber, perform, contains_renumber]
    rfl
  | partitions =>
    simp only [IndexCall.renumber, perform, renumber, Std.ExtTreeMap.keys_map]
    rfl
  | insert c m => exact perform_insert_renumber held c m fits
  | remove c id =>
    simp only [IndexCall.renumber, perform, getElem?_renumber]
    cases found : held[c]? with
    | none => rfl
    | some rows =>
      simp only [Option.map_some, renumber_insert, List.any_map, List.filter_map]
      rfl
  | contains c id =>
    simp only [IndexCall.renumber, perform, getElem?_renumber, Option.any_map, List.any_map]
    rfl
  | count c type =>
    simp only [IndexCall.renumber, perform]
    rw [ask_renumber (f := fun number => number) fun rows => List.countP_map]
    rfl
  | select c query =>
    simp only [IndexCall.renumber, perform]
    rw [ask_renumber (query.answer_renumber up)]
    rfl
  | selectAfter c after limit type =>
    simp only [IndexCall.renumber, perform]
    rw [ask_renumber (IndexEntry.following_renumber up after limit type)]
    rfl
  | replacePartition c members =>
    simp only [IndexCall.renumber]
    rw [perform_replacePartition_renumber held c members fits]
    cases (held.perform n (.replacePartition c members)).1 <;> rfl

end Catalogue

end Containment
