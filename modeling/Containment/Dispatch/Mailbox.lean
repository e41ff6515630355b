/-
Module: Containment.Dispatch.Mailbox
Purpose: What one subscriber has received and not read yet. A mailbox keeps a bounded number of the
  latest reports; a reader who is too slow is told once how many were lost and goes on with the oldest
  that is left.
Main exports: Mailbox, Receipt, Mailbox.deliver, Mailbox.receive
-/
import Containment.Event

namespace Containment

/-- The smallest power of two that is at least `n`. -/
def powerOfTwoAbove (n : Nat) : Nat :=
  if n ≤ 1 then 1 else 1 <<< ((n - 1).log2 + 1)

/-- The latest reports (the oldest first), how many were delivered in all, and how many of these the
reader has seen or been told to be lost. -/
structure Mailbox where
  capacity : Nat
  kept : List Event := []
  delivered : Nat := 0
  consumed : Nat := 0
deriving Inhabited

/-- What a reader gets. -/
inductive Receipt where
  | event (event : Event)
  | lagged (lost : Nat)
  | empty
  | closed

namespace Mailbox

/-- A mailbox for at least `capacity` reports. -/
def ofCapacity (capacity : Nat) : Mailbox :=
  { capacity := powerOfTwoAbove capacity }

/-- The number of reports that were delivered before the oldest one that is kept. -/
def gone (box : Mailbox) : Nat :=
  box.delivered - box.kept.length

/-- Put a report in; if there is no room, the oldest one goes. -/
def deliver (box : Mailbox) (event : Event) : Mailbox :=
  let kept := box.kept ++ [event]
  { box with kept := kept.drop (kept.length - box.capacity), delivered := box.delivered + 1 }

/-- Take the next report out. `open` tells whether more may come. -/
def receive (box : Mailbox) (isOpen : Bool) : Receipt × Mailbox :=
  if box.consumed < box.gone then
    (.lagged (box.gone - box.consumed), { box with consumed := box.gone })
  else
    match box.kept[box.consumed - box.gone]? with
    | some event => (.event event, { box with consumed := box.consumed + 1 })
    | none => (if isOpen then .empty else .closed, box)

end Mailbox

end Containment
