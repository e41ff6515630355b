/-
Module: Containment.Dispatch.Dispatcher
Purpose: Handing reports to subscribers. Every subscriber has a mailbox and a filter; one whose reader is
  gone is forgotten when the next report comes.
Main exports: Dispatcher, Dispatcher.subscribe, Dispatcher.drop, Dispatcher.offer, Dispatcher.dispatch,
  Dispatcher.receive
-/
import Containment.Dispatch.Mailbox

namespace Containment

/-- A subscriber: the number of its mailbox and what it asks for. -/
structure Subscriber where
  box : Nat
  filter : EventFilter
deriving Inhabited

/-- The subscribers in the order in which they came, the mailboxes whose readers are still there, and the
size of mailboxes. -/
structure Dispatcher where
  capacity : Nat
  subscribers : List Subscriber := []
  boxes : Std.ExtTreeMap Nat Mailbox := ∅
  made : Nat := 0
deriving Inhabited

namespace Dispatcher

/-- A dispatcher whose mailboxes hold at least `capacity` reports, and at least one. -/
def ofCapacity (capacity : Nat) : Dispatcher :=
  { capacity := max capacity 1 }

/-- The capacity where none is asked for. -/
def defaultCapacity : Nat := 1024

/-- Add a subscriber; the answer is the number of its mailbox. -/
def subscribe (d : Dispatcher) (filter : EventFilter) : Nat × Dispatcher :=
  (d.made,
    { d with
      subscribers := d.subscribers ++ [{ box := d.made, filter }]
      boxes := d.boxes.insert d.made (Mailbox.ofCapacity d.capacity)
      made := d.made + 1 })

/-- The reader of a mailbox goes away. -/
def drop (d : Dispatcher) (box : Nat) : Dispatcher :=
  { d with boxes := d.boxes.erase box }

/-- Whether a mailbox has a reader. -/
def isRead (d : Dispatcher) (box : Nat) : Bool :=
  d.boxes.contains box

/-- Put a report into a mailbox. Without a reader that fails. -/
def send (d : Dispatcher) (box : Nat) (event : Event) : Bool × Dispatcher :=
  match d.boxes[box]? with
  | none => (false, d)
  | some mailbox => (true, { d with boxes := d.boxes.insert box (mailbox.deliver event) })

/-- Send a report to a subscriber who asks for it; after anyone else only look. The answer tells whether the
subscriber stays. -/
def offer (d : Dispatcher) (event : Event) (s : Subscriber) : Bool × Dispatcher :=
  if s.filter.accepts event then d.send s.box event else (d.isRead s.box, d)

/-- Offer a report to some subscribers in turn. The answer are those who stay. -/
def offerEach (event : Event) : List Subscriber → Dispatcher → List Subscriber × Dispatcher
  | [], d => ([], d)
  | s :: rest, d =>
    let (stays, d) := d.offer event s
    let (others, d) := offerEach event rest d
    (if stays then s :: others else others, d)

/-- Hand one report to those who ask for it, and forget subscribers without a reader. -/
def route (d : Dispatcher) (event : Event) : Dispatcher :=
  let (subscribers, d) := offerEach event d.subscribers d
  { d with subscribers }

/-- Hand reports on in their order. -/
def dispatch (d : Dispatcher) (events : List Event) : Dispatcher :=
  events.foldl route d

/-- The dispatcher goes away: mailboxes stay until they are read out. -/
def close (d : Dispatcher) : Dispatcher :=
  { d with subscribers := [] }

/-- Take the next report out of a mailbox. -/
def receive (d : Dispatcher) (box : Nat) : Receipt × Dispatcher :=
  match d.boxes[box]? with
  | none => (.closed, d)
  | some mailbox =>
    let (receipt, mailbox) := mailbox.receive (d.subscribers.any (·.box == box))
    (receipt, { d with boxes := d.boxes.insert box mailbox })

/-- Take everything out of a mailbox, up to the point where nothing is left in it. -/
def receiveAll (d : Dispatcher) (box : Nat) : List Receipt × Dispatcher :=
  match d.boxes[box]? with
  | none => ([], d)
  | some mailbox => go (mailbox.kept.length + 1) d []
where
  /-- No more than `fuel` receipts, the earlier ones in front. -/
  go : Nat → Dispatcher → List Receipt → List Receipt × Dispatcher
    | 0, d, receipts => (receipts.reverse, d)
    | fuel + 1, d, receipts =>
      match d.receive box with
      | (.empty, d) | (.closed, d) => (receipts.reverse, d)
      | (receipt, d) => go fuel d (receipt :: receipts)

end Dispatcher

end Containment
