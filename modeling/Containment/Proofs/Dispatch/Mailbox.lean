/-
Module: Containment.Proofs.Dispatch.Mailbox
Purpose: What a reader gets out of a mailbox. The receipts account for every report that was delivered, in order: it was
  received, or it is one of those that a note tells to be lost, or it is still to be read; and only what there was no room
  for is lost.
Main exports: Accounts, Mailbox.due, Mailbox.Attended, Mailbox.Attended.deliver, Mailbox.Attended.receive,
  Mailbox.Attended.receive_cases, powerOfTwoAbove_bounds
-/
import Containment.Dispatch.Mailbox
import Mathlib.Algebra.Group.Nat.Defs
import Mathlib.Data.List.Forall2

namespace Containment

/-- The smallest power of two, so it is less than twice as much. -/
theorem powerOfTwoAbove_bounds {n : Nat} (positive : 1 ≤ n) :
    (∃ k, powerOfTwoAbove n = 2 ^ k) ∧ n ≤ powerOfTwoAbove n ∧ powerOfTwoAbove n < 2 * n := by
  rw [powerOfTwoAbove]
  split
  · exact ⟨⟨0, rfl⟩, by omega, by omega⟩
  · rw [Nat.one_shiftLeft]
    have proper : n - 1 ≠ 0 := by omega
    have above : n - 1 < 2 ^ ((n - 1).log2 + 1) := Nat.lt_log2_self
    have below : 2 ^ (n - 1).log2 ≤ n - 1 := Nat.log2_self_le proper
    have twice : 2 ^ ((n - 1).log2 + 1) = 2 ^ (n - 1).log2 * 2 := Nat.pow_succ ..
    exact ⟨⟨_, rfl⟩, by omega, by omega⟩

/-! ### Receipts -/

/-- The places that a receipt takes among the reports: one for a report that is received, and an empty one for each that
is lost. -/
def Receipt.places : Receipt → List (Option Event)
  | .event e => [some e]
  | .lagged lost => List.replicate lost none
  | .empty | .closed => []

/-- The receipts tell of just these reports, in their order: each of them is received or among those told to be lost. -/
def Accounts (receipts : List Receipt) (reports : List Event) : Prop :=
  List.Forall₂ (fun place report => ∀ e ∈ place, e = report) (receipts.flatMap Receipt.places) reports

variable {receipts more : List Receipt} {reports others : List Event}

theorem accounts_nil : Accounts [] [] :=
  .nil

theorem Accounts.append (here : Accounts receipts reports) (there : Accounts more others) :
    Accounts (receipts ++ more) (reports ++ others) := by
  rw [Accounts, List.flatMap_append]
  exact List.rel_append here there

/-- Any reports can be told to be lost. -/
theorem accounts_lagged (reports : List Event) : Accounts [.lagged reports.length] reports := by
  simp only [Accounts, Receipt.places, List.flatMap_cons, List.flatMap_nil, List.append_nil]
  induction reports with
  | nil => exact .nil
  | cons report rest ih => exact .cons (fun e none => nomatch none) ih

theorem accounts_events (reports : List Event) : Accounts (reports.map .event) reports := by
  induction reports with
  | nil => exact .nil
  | cons report rest ih => exact .cons (fun e same => (Option.some.inj same).symm) ih

namespace Mailbox

/-- What a reader gets who asks on and on: the latest reports of those that it has not read, as many as there is room
for, after a note of how many were before them. -/
def due (room : Nat) (unread : List Event) : List Receipt :=
  if room < unread.length then
    .lagged (unread.length - room) :: (unread.drop (unread.length - room)).map .event
  else unread.map .event

theorem accounts_due (room : Nat) (unread : List Event) : Accounts (due room unread) unread := by
  rw [due]
  split
  · have split := (accounts_lagged (unread.take (unread.length - room))).append
      (accounts_events (unread.drop (unread.length - room)))
    rw [List.take_append_drop, List.length_take_of_le (Nat.sub_le ..)] at split
    exact split
  · exact accounts_events unread

/-- Nothing counts as read because it comes. -/
theorem consumed_deliverAll (box : Mailbox) (reports : List Event) :
    (reports.foldl deliver box).consumed = box.consumed := by
  induction reports generalizing box with
  | nil => rfl
  | cons report rest ih => exact ih (box.deliver report)

/-- The mailbox with this much room has been given these reports and read by these receipts: it keeps the latest ones for
which there is room, and the receipts account for those that are consumed. -/
structure Attended (box : Mailbox) (room : Nat) (reports : List Event) (heard : List Receipt) : Prop where
  capacity : box.capacity = room
  delivered : box.delivered = reports.length
  kept : box.kept = reports.drop (reports.length - room)
  consumed : box.consumed ≤ reports.length
  told : Accounts heard (reports.take box.consumed)

variable {box : Mailbox} {room : Nat} {heard : List Receipt}

theorem attended_ofCapacity (capacity : Nat) : (ofCapacity capacity).Attended (powerOfTwoAbove capacity) [] [] :=
  ⟨rfl, rfl, List.drop_nil.symm, Nat.le_refl 0, accounts_nil⟩

namespace Attended

theorem gone_eq (attended : box.Attended room reports heard) : box.gone = reports.length - room := by
  rw [gone, attended.delivered, attended.kept, List.length_drop]
  omega

/-- One report more. -/
theorem deliver (attended : box.Attended room reports heard) (report : Event) :
    (box.deliver report).Attended room (reports ++ [report]) heard := by
  obtain ⟨capacity, delivered, kept, consumed, told⟩ := attended
  constructor
  · exact capacity
  · simp only [Mailbox.deliver, delivered, List.length_append, List.length_singleton]
  · have tail : box.kept ++ [report] = (reports ++ [report]).drop (reports.length - room) := by
      rw [kept, List.drop_append_of_le_length (Nat.sub_le ..)]
    simp only [Mailbox.deliver, capacity, tail, List.drop_drop, List.length_drop, List.length_append, List.length_singleton]
    congr 1
    omega
  · simp only [Mailbox.deliver, List.length_append, List.length_singleton]
    omega
  · simp only [Mailbox.deliver]
    rw [List.take_append_of_le_length consumed]
    exact told

theorem deliverAll (attended : box.Attended room reports heard) (more : List Event) :
    (more.foldl Mailbox.deliver box).Attended room (reports ++ more) heard := by
  induction more generalizing box reports with
  | nil => exact (List.append_nil reports).symm ▸ attended
  | cons report rest ih =>
    have whole := ih (attended.deliver report)
    rwa [List.append_assoc] at whole

/-- The receipts that account for some reports, and one more for those that follow. -/
theorem told_more (attended : box.Attended room reports heard) {receipt : Receipt} {consumed : Nat}
    (onwards : box.consumed ≤ consumed)
    (next : Accounts [receipt] ((reports.drop box.consumed).take (consumed - box.consumed))) :
    Accounts (heard ++ [receipt]) (reports.take consumed) := by
  have split : reports.take consumed =
      reports.take box.consumed ++ (reports.drop box.consumed).take (consumed - box.consumed) := by
    rw [← List.take_add, Nat.add_sub_cancel' onwards]
  rw [split]
  exact attended.told.append next

/-- The next receipt is the first of those that are due, and the others stay due; if none is due, nothing changes. -/
theorem receive_cases (attended : box.Attended room reports heard) (isOpen : Bool) :
    (due room (reports.drop box.consumed) = [] ∧
        box.receive isOpen = (if isOpen then .empty else .closed, box)) ∨
      ∃ receipt consumed, box.receive isOpen = (receipt, { box with consumed }) ∧
        due room (reports.drop box.consumed) = receipt :: due room (reports.drop consumed) ∧
        ((∃ e, receipt = .event e) ∨ ∃ lost, receipt = .lagged lost) ∧
        Mailbox.Attended { box with consumed } room reports (heard ++ [receipt]) := by
  have gone := attended.gone_eq
  have unread : (reports.drop box.consumed).length = reports.length - box.consumed := List.length_drop
  by_cases late : box.consumed < box.gone
  · -- More is unread than there is room for.
    have short : room < (reports.drop box.consumed).length := by omega
    have after : box.consumed + (reports.length - box.consumed - room) = box.gone := by omega
    have rest : (reports.drop box.gone).length = room := by
      rw [List.length_drop]
      omega
    refine .inr ⟨.lagged (box.gone - box.consumed), box.gone, if_pos late, ?_, .inr ⟨_, rfl⟩, ?_⟩
    · rw [due, if_pos short, due, if_neg (by omega), unread, List.drop_drop, after]
      congr 2
      omega
    · refine ⟨attended.capacity, attended.delivered, attended.kept, gone ▸ Nat.sub_le ..,
        attended.told_more (Nat.le_of_lt late) ?_⟩
      have lost := accounts_lagged ((reports.drop box.consumed).take (box.gone - box.consumed))
      rwa [List.length_take_of_le (by omega)] at lost
  · have roomy : ¬ room < (reports.drop box.consumed).length := by omega
    have next : box.kept[box.consumed - box.gone]? = reports[box.consumed]? := by
      rw [attended.kept, ← gone, List.getElem?_drop, Nat.add_sub_cancel' (Nat.le_of_not_lt late)]
    cases there : reports[box.consumed]? with
    | none =>
      have received : box.receive isOpen = (if isOpen then .empty else .closed, box) := by
        rw [Mailbox.receive, if_neg late, next, there]
      refine .inl ⟨?_, received⟩
      rw [due, if_neg roomy, List.drop_eq_nil_of_le (List.getElem?_eq_none_iff.1 there), List.map_nil]
    | some event =>
      have received : box.receive isOpen = (.event event, { box with consumed := box.consumed + 1 }) := by
        rw [Mailbox.receive, if_neg late, next, there]
      obtain ⟨within, here⟩ := List.getElem?_eq_some_iff.1 there
      have split : reports.drop box.consumed = event :: reports.drop (box.consumed + 1) := by
        rw [List.drop_eq_getElem_cons within, here]
      refine .inr ⟨.event event, box.consumed + 1, received, ?_, .inl ⟨event, rfl⟩, ?_⟩
      · have roomier : ¬ room < (reports.drop (box.consumed + 1)).length := by
          rw [List.length_drop]
          omega
        rw [due, if_neg roomy, due, if_neg roomier, split, List.map_cons]
      · refine ⟨attended.capacity, attended.delivered, attended.kept, within, attended.told_more (Nat.le_succ _) ?_⟩
        rw [split, Nat.add_sub_cancel_left]
        exact accounts_events [event]

/-- Reading once more: the receipt counts among those heard. -/
theorem receive (attended : box.Attended room reports heard) (isOpen : Bool) :
    (box.receive isOpen).2.Attended room reports (heard ++ [(box.receive isOpen).1]) := by
  obtain ⟨_, received⟩ | ⟨receipt, consumed, received, _, _, onwards⟩ := attended.receive_cases isOpen
  · rw [received]
    have nothing : Accounts [if isOpen then .empty else .closed] [] := by cases isOpen <;> exact .nil
    have told := attended.told.append nothing
    rw [List.append_nil] at told
    exact { attended with told }
  · rw [received]
    exact onwards

/-- A reader has to ask no more often than once for each report that is kept, and once for the note before them. -/
theorem length_due_le (attended : box.Attended room reports heard) :
    (due room (reports.drop box.consumed)).length ≤ box.kept.length + 1 := by
  rw [attended.kept, due]
  split
  · simp only [List.length_cons, List.length_map, List.length_drop]
    omega
  · simp only [List.length_map, List.length_drop] at *
    omega

end Attended

end Mailbox

end Containment
