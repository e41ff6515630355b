/-
Module: Containment.Proofs.Dispatch.FanOut
Purpose: A dispatcher among its subscribers. Whatever else is done with it, a subscriber who is there gets every report that
  it asks for into its mailbox, in order, and stays listed; one whose reader is gone is struck off with the next report; and
  what one subscriber hears is what it would hear alone.
Main exports: Dispatcher.Use, Dispatcher.heard, Dispatcher.Supplies, Dispatcher.Supplies.dispatch,
  Dispatcher.Supplies.receiveAll, Dispatcher.fanOut_exact
-/
import Containment.Dispatch.Dispatcher
import Containment.Proofs.Dispatch.Mailbox
import Containment.Proofs.Maps

namespace Containment

namespace Dispatcher

/-- What is done with a dispatcher and the readers of its mailboxes. -/
inductive Use where
  | subscribe (filter : EventFilter)
  | dispatch (events : List Event)
  | receive (box : Nat)
  | drop (box : Nat)

/-- The reports that are handed on. -/
def Use.events : Use → List Event
  | .dispatch events => events
  | _ => []

/-- The same for a subscriber who is alone, and so has the mailbox zero, if it has to do with the subscriber of `box`. -/
def Use.alone (box : Nat) : Use → Option Use
  | .subscribe _ => none
  | .dispatch events => some (.dispatch events)
  | .receive other => if other = box then some (.receive 0) else none
  | .drop other => if other = box then some (.drop 0) else none

/-- The dispatcher after one thing is done. -/
def use (d : Dispatcher) : Use → Dispatcher
  | .subscribe filter => (d.subscribe filter).2
  | .dispatch events => d.dispatch events
  | .receive box => (d.receive box).2
  | .drop box => d.drop box

/-- The dispatcher after several things are done. -/
def after (d : Dispatcher) (uses : List Use) : Dispatcher :=
  uses.foldl use d

/-- What the reader of a mailbox gets at once. -/
def hears (d : Dispatcher) (box : Nat) : Use → List Receipt
  | .receive other => if other = box then [(d.receive box).1] else []
  | _ => []

/-- What the reader of a mailbox gets meanwhile. -/
def heard (box : Nat) : Dispatcher → List Use → List Receipt
  | _, [] => []
  | d, u :: rest => d.hears box u ++ heard box (d.use u) rest

variable {d : Dispatcher} {event : Event} {s : Subscriber} {l : List Subscriber} {k : Nat}

/-! ### One pass over the subscribers -/

/-- Whether it is sent a report or only looked after, a subscriber stays just if it has a reader. -/
theorem offer_fst (d : Dispatcher) (event : Event) (s : Subscriber) : (d.offer event s).1 = d.boxes.contains s.box := by
  rw [offer]
  split
  · rw [send, Std.ExtTreeMap.contains_eq_isSome_getElem?]
    split <;> simp_all
  · rfl

/-- A report reaches no mailbox but that of the subscriber, and this one only if it is asked for. -/
theorem getElem?_offer (d : Dispatcher) (event : Event) (s : Subscriber) (k : Nat) :
    (d.offer event s).2.boxes[k]? =
      if s.box = k ∧ s.filter.accepts event then d.boxes[k]?.map (·.deliver event) else d.boxes[k]? := by
  rw [offer]
  by_cases accepted : s.filter.accepts event = true
  · rw [if_pos accepted, send]
    obtain rfl | other := eq_or_ne s.box k
    · rw [if_pos ⟨rfl, accepted⟩]
      cases there : d.boxes[s.box]? with
      | none => exact there
      | some box => exact Std.ExtTreeMap.getElem?_insert_self
    · rw [if_neg fun both => other both.1]
      split
      · rfl
      · exact getElem?_insert_of_ne other
  · rw [if_neg accepted, if_neg fun both => accepted both.2]

/-- An offer changes mailboxes only. -/
theorem offer_snd (d : Dispatcher) (event : Event) (s : Subscriber) :
    (d.offer event s).2 = { d with boxes := (d.offer event s).2.boxes } := by
  rw [offer, send]
  split
  · split <;> rfl
  · rfl

theorem contains_offer (d : Dispatcher) (event : Event) (s : Subscriber) (k : Nat) :
    (d.offer event s).2.boxes.contains k = d.boxes.contains k := by
  rw [Std.ExtTreeMap.contains_eq_isSome_getElem?, Std.ExtTreeMap.contains_eq_isSome_getElem?, getElem?_offer]
  split
  · exact Option.isSome_map
  · rfl

/-- Offers to one subscriber after the other change mailboxes only. -/
theorem offerEach_snd (event : Event) (l : List Subscriber) (d : Dispatcher) :
    (offerEach event l d).2 = { d with boxes := (offerEach event l d).2.boxes } := by
  induction l generalizing d with
  | nil => rfl
  | cons s rest ih =>
    simp only [offerEach]
    rw [ih, offer_snd]

/-- Those with a reader stay, whether they ask for the report or not. -/
theorem offerEach_fst (event : Event) (l : List Subscriber) (d : Dispatcher) :
    (offerEach event l d).1 = l.filter fun s => d.boxes.contains s.box := by
  induction l generalizing d with
  | nil => rfl
  | cons s rest ih =>
    simp only [offerEach, ih, offer_fst, contains_offer, List.filter_cons]

/-- What a mailbox is sent of a report: it comes once for each subscriber with this mailbox who asks for it. -/
def copies (event : Event) (k : Nat) (l : List Subscriber) : List Event :=
  ((l.filter (·.box == k)).filter (·.filter.accepts event)).map fun _ => event

theorem copies_cons (event : Event) (k : Nat) (s : Subscriber) (l : List Subscriber) :
    copies event k (s :: l) =
      if s.box = k ∧ s.filter.accepts event then event :: copies event k l else copies event k l := by
  by_cases here : s.box = k
  · by_cases accepted : s.filter.accepts event = true <;> simp [copies, here, accepted]
  · simp [copies, here]

theorem getElem?_offerEach (event : Event) (k : Nat) (l : List Subscriber) (d : Dispatcher) :
    (offerEach event l d).2.boxes[k]? = d.boxes[k]?.map ((copies event k l).foldl Mailbox.deliver) := by
  induction l generalizing d with
  | nil => exact Option.map_id'.symm
  | cons s rest ih =>
    simp only [offerEach]
    rw [ih, getElem?_offer, copies_cons]
    split
    · exact Option.map_map ..
    · rfl

/-! ### One report -/

theorem subscribers_route (d : Dispatcher) (event : Event) :
    (d.route event).subscribers = d.subscribers.filter fun s => d.boxes.contains s.box :=
  offerEach_fst event d.subscribers d

theorem getElem?_route (d : Dispatcher) (event : Event) (k : Nat) :
    (d.route event).boxes[k]? = d.boxes[k]?.map ((copies event k d.subscribers).foldl Mailbox.deliver) :=
  getElem?_offerEach event k d.subscribers d

@[simp]
theorem capacity_route (d : Dispatcher) (event : Event) : (d.route event).capacity = d.capacity :=
  congrArg (·.capacity) (offerEach_snd event d.subscribers d)

@[simp]
theorem made_route (d : Dispatcher) (event : Event) : (d.route event).made = d.made :=
  congrArg (·.made) (offerEach_snd event d.subscribers d)

/-! ### A subscriber with a reader -/

/-- The mailbox `k` has a reader and just one subscriber, who asks by this filter. -/
structure Supplies (d : Dispatcher) (k : Nat) (filter : EventFilter) (box : Mailbox) : Prop where
  made : k < d.made
  there : d.boxes[k]? = some box
  listed : d.subscribers.filter (·.box == k) = [{ box := k, filter }]

/-- What the reader of the mailbox `k` gets by one use, and the mailbox then, if its subscriber asks by this filter. -/
def Use.onMailbox (k : Nat) (filter : EventFilter) (box : Mailbox) : Use → List Receipt × Mailbox
  | .subscribe _ | .drop _ => ([], box)
  | .dispatch events => ([], (events.filter filter.accepts).foldl Mailbox.deliver box)
  | .receive other => if other = k then ([(box.receive true).1], (box.receive true).2) else ([], box)

/-- What is done with others, or for others, leaves the mailbox alone; all else is the same as for a subscriber who is
alone. -/
theorem Use.alone_cases {u : Use} (remains : u ≠ .drop k) (filter : EventFilter) (box : Mailbox) :
    (u.alone k = none ∧ u.onMailbox k filter box = ([], box)) ∨
      ∃ v, u.alone k = some v ∧ v ≠ .drop 0 ∧ v.onMailbox 0 filter box = u.onMailbox k filter box := by
  cases u with
  | subscribe _ => exact .inl ⟨rfl, rfl⟩
  | dispatch events => exact .inr ⟨.dispatch events, rfl, Use.noConfusion, rfl⟩
  | receive other =>
    by_cases own : other = k
    · exact .inr ⟨.receive 0, if_pos own, Use.noConfusion, (if_pos own).symm⟩
    · exact .inl ⟨if_neg own, if_neg own⟩
  | drop other =>
    have others : other ≠ k := fun own => remains (own ▸ rfl)
    exact .inl ⟨if_neg others, rfl⟩

/-- What the reader gets and what is handed on enters the account of the mailbox. -/
theorem Use.attended_onMailbox {box : Mailbox} {room : Nat} {reports : List Event} {told : List Receipt}
    (attended : box.Attended room reports told) (k : Nat) (filter : EventFilter) (u : Use) :
    (u.onMailbox k filter box).2.Attended room (reports ++ u.events.filter filter.accepts)
      (told ++ (u.onMailbox k filter box).1) := by
  cases u with
  | subscribe _ | drop _ => simpa [onMailbox, events] using attended
  | dispatch more => simpa [onMailbox, events] using attended.deliverAll (more.filter filter.accepts)
  | receive other =>
    rw [onMailbox]
    split
    · simpa [events] using attended.receive true
    · simpa [events] using attended

namespace Supplies

variable {filter : EventFilter} {box : Mailbox}

theorem mem_subscribers (supplies : d.Supplies k filter box) : { box := k, filter } ∈ d.subscribers := by
  have mem : { box := k, filter } ∈ d.subscribers.filter (·.box == k) := supplies.listed ▸ List.mem_cons_self
  exact List.mem_of_mem_filter mem

theorem isOpen (supplies : d.Supplies k filter box) : d.subscribers.any (·.box == k) = true :=
  List.any_eq_true.2 ⟨_, supplies.mem_subscribers, BEq.rfl⟩

/-- A new subscriber has a mailbox of its own. -/
theorem subscribe (supplies : d.Supplies k filter box) (other : EventFilter) :
    (d.subscribe other).2.Supplies k filter box := by
  have ne : d.made ≠ k := Nat.ne_of_gt supplies.made
  constructor
  · exact Nat.lt_succ_of_lt supplies.made
  · rw [Dispatcher.subscribe, getElem?_insert_of_ne ne]
    exact supplies.there
  · rw [Dispatcher.subscribe, List.filter_append, supplies.listed, List.filter_cons_of_neg (by simpa using ne),
      List.filter_nil, List.append_nil]

theorem route (supplies : d.Supplies k filter box) (event : Event) :
    (d.route event).Supplies k filter (if filter.accepts event then box.deliver event else box) := by
  constructor
  · exact (made_route d event).symm ▸ supplies.made
  · rw [getElem?_route, supplies.there, copies, supplies.listed, Option.map_some]
    by_cases accepted : filter.accepts event = true <;> simp [accepted]
  · have read : d.boxes.contains k = true := by
      rw [Std.ExtTreeMap.contains_eq_isSome_getElem?, supplies.there, Option.isSome_some]
    rw [subscribers_route, List.filter_comm, supplies.listed]
    exact List.filter_cons_of_pos read

/-- The mailbox gets just the reports that are asked for, in their order. -/
theorem dispatch (supplies : d.Supplies k filter box) (events : List Event) :
    (d.dispatch events).Supplies k filter ((events.filter filter.accepts).foldl Mailbox.deliver box) := by
  induction events generalizing d box with
  | nil => exact supplies
  | cons event rest ih =>
    have whole := ih (supplies.route event)
    rw [List.filter_cons]
    split at whole
    · next accepted => rwa [if_pos accepted, List.foldl_cons]
    · next refused => rwa [if_neg refused]

theorem receive_eq (supplies : d.Supplies k filter box) :
    d.receive k = ((box.receive true).1, { d with boxes := d.boxes.insert k (box.receive true).2 }) := by
  rw [Dispatcher.receive, supplies.there]
  simp only [supplies.isOpen]

theorem receive (supplies : d.Supplies k filter box) :
    (d.receive k).2.Supplies k filter (box.receive true).2 := by
  rw [supplies.receive_eq]
  exact { supplies with there := Std.ExtTreeMap.getElem?_insert_self }

/-- Reading another mailbox does not touch this one. -/
theorem receive_other (supplies : d.Supplies k filter box) {other : Nat} (ne : other ≠ k) :
    (d.receive other).2.Supplies k filter box := by
  rw [Dispatcher.receive]
  split
  · exact supplies
  · refine { supplies with there := ?_ }
    rw [getElem?_insert_of_ne ne]
    exact supplies.there

theorem drop_other (supplies : d.Supplies k filter box) {other : Nat} (ne : other ≠ k) :
    (d.drop other).Supplies k filter box := by
  refine { supplies with there := ?_ }
  rw [Dispatcher.drop, getElem?_erase_of_ne ne]
  exact supplies.there

/-- As long as the reader is there, a use of the dispatcher is for this subscriber what it is for the mailbox. -/
theorem use (supplies : d.Supplies k filter box) {u : Use} (remains : u ≠ .drop k) :
    d.hears k u = (u.onMailbox k filter box).1 ∧ (d.use u).Supplies k filter (u.onMailbox k filter box).2 := by
  cases u with
  | subscribe other => exact ⟨rfl, supplies.subscribe other⟩
  | dispatch events => exact ⟨rfl, supplies.dispatch events⟩
  | receive other =>
    rw [hears, Use.onMailbox]
    by_cases own : other = k
    · subst own
      rw [if_pos rfl, if_pos rfl, supplies.receive_eq]
      exact ⟨rfl, supplies.receive⟩
    · rw [if_neg own, if_neg own]
      exact ⟨rfl, supplies.receive_other own⟩
  | drop other => exact ⟨rfl, supplies.drop_other fun own => remains (own ▸ rfl)⟩

/-- A whole run: the receipts account for the reports that were asked for, and the subscriber is still supplied. -/
theorem after {room : Nat} {reports : List Event} {told : List Receipt} (supplies : d.Supplies k filter box)
    (attended : box.Attended room reports told) {uses : List Use} (remains : Use.drop k ∉ uses) :
    ∃ box', (d.after uses).Supplies k filter box' ∧
      box'.Attended room (reports ++ (uses.flatMap Use.events).filter filter.accepts) (told ++ heard k d uses) := by
  induction uses generalizing d box reports told with
  | nil => exact ⟨box, supplies, by simpa [heard] using attended⟩
  | cons u rest ih =>
    obtain ⟨here, later⟩ := not_or.1 (mt List.mem_cons.2 remains)
    obtain ⟨hears, onwards⟩ := supplies.use (Ne.symm here)
    obtain ⟨box', there, whole⟩ := ih onwards (Use.attended_onMailbox attended k filter u) later
    refine ⟨box', there, ?_⟩
    simpa [heard, hears] using whole

/-- Two runs with the same mailbox, one with others and one without: the readers get the same. -/
theorem heard_alone {e : Dispatcher} (supplies : d.Supplies k filter box) (single : e.Supplies 0 filter box)
    {uses : List Use} (remains : Use.drop k ∉ uses) :
    heard k d uses = heard 0 e (uses.filterMap (Use.alone k)) := by
  induction uses generalizing d e box with
  | nil => rfl
  | cons u rest ih =>
    obtain ⟨here, later⟩ := not_or.1 (mt List.mem_cons.2 remains)
    obtain ⟨hears, onwards⟩ := supplies.use (Ne.symm here)
    obtain ⟨skipped, nothing⟩ | ⟨v, kept, stays, same⟩ := Use.alone_cases (Ne.symm here) filter box
    · rw [nothing] at hears onwards
      rw [heard, hears, List.filterMap_cons_none skipped]
      exact ih onwards single later
    · obtain ⟨hears', onwards'⟩ := single.use stays
      rw [same] at hears' onwards'
      rw [List.filterMap_cons_some kept, heard, heard, hears, hears', ih onwards onwards' later]

/-- Everything that is due is taken out. -/
theorem receiveAll_go {room : Nat} {reports : List Event} {told : List Receipt} (supplies : d.Supplies k filter box)
    (attended : box.Attended room reports told) {fuel : Nat}
    (enough : (Mailbox.due room (reports.drop box.consumed)).length ≤ fuel) (receipts : List Receipt) :
    (receiveAll.go k fuel d receipts).1 = receipts.reverse ++ Mailbox.due room (reports.drop box.consumed) := by
  induction fuel generalizing d box told receipts with
  | zero =>
    rw [List.eq_nil_of_length_eq_zero (Nat.le_zero.1 enough), List.append_nil]
    rfl
  | succ fuel ih =>
    have received := supplies.receive_eq
    have onwards := supplies.receive
    obtain ⟨nothing, same⟩ | ⟨receipt, consumed, next, first, real, told⟩ := attended.receive_cases true
    · rw [same] at received
      rw [receiveAll.go, received, nothing, List.append_nil]
      rfl
    · rw [received, next] at onwards
      rw [next] at received
      rw [first, List.length_cons] at enough
      rw [receiveAll.go, received, first]
      have rest := ih onwards told (Nat.le_of_succ_le_succ enough) (receipt :: receipts)
      rw [List.reverse_cons, List.append_assoc] at rest
      obtain ⟨e, rfl⟩ | ⟨lost, rfl⟩ := real <;> exact rest

theorem receiveAll {room : Nat} {reports : List Event} {told : List Receipt} (supplies : d.Supplies k filter box)
    (attended : box.Attended room reports told) :
    (d.receiveAll k).1 = Mailbox.due room (reports.drop box.consumed) := by
  rw [Dispatcher.receiveAll, supplies.there]
  exact supplies.receiveAll_go attended attended.length_due_le []

end Supplies

/-! ### A subscriber without a reader -/

/-- The mailbox `k` was made, and its reader has gone. -/
structure Gone (d : Dispatcher) (k : Nat) : Prop where
  made : k < d.made
  nobody : d.boxes[k]? = none

namespace Gone

/-- The next report strikes the subscriber off, whatever it asked for. -/
theorem route (gone : d.Gone k) (event : Event) :
    (d.route event).Gone k ∧ k ∉ (d.route event).subscribers.map Subscriber.box := by
  refine ⟨⟨(made_route d event).symm ▸ gone.made, ?_⟩, ?_⟩
  · rw [getElem?_route, gone.nobody, Option.map_none]
  · intro listed
    obtain ⟨s, mem, rfl⟩ := List.mem_map.1 listed
    rw [subscribers_route] at mem
    have read : d.boxes.contains s.box = true := (List.mem_filter.1 mem).2
    rw [Std.ExtTreeMap.contains_eq_isSome_getElem?, gone.nobody] at read
    cases read

theorem dispatch (gone : d.Gone k) (events : List Event) :
    (d.dispatch events).Gone k ∧
      (k ∈ (d.dispatch events).subscribers.map Subscriber.box ↔
        k ∈ d.subscribers.map Subscriber.box ∧ events = []) := by
  induction events generalizing d with
  | nil => exact ⟨gone, (and_iff_left rfl).symm⟩
  | cons event rest ih =>
    obtain ⟨still, struck⟩ := gone.route event
    obtain ⟨stays, listed⟩ := ih still
    exact ⟨stays, iff_of_false (fun mem => struck (listed.1 mem).1) fun both => List.cons_ne_nil _ _ both.2⟩

theorem use (gone : d.Gone k) (u : Use) :
    (d.use u).Gone k ∧
      (k ∈ (d.use u).subscribers.map Subscriber.box ↔ k ∈ d.subscribers.map Subscriber.box ∧ u.events = []) := by
  cases u with
  | subscribe filter =>
    have ne : d.made ≠ k := Nat.ne_of_gt gone.made
    refine ⟨⟨Nat.lt_succ_of_lt gone.made, ?_⟩, ?_⟩
    · rw [Dispatcher.use, Dispatcher.subscribe, getElem?_insert_of_ne ne]
      exact gone.nobody
    · simp [Dispatcher.use, Dispatcher.subscribe, Use.events, ne.symm]
  | dispatch events => exact gone.dispatch events
  | receive other =>
    rw [Dispatcher.use, Dispatcher.receive]
    split
    · exact ⟨gone, (and_iff_left rfl).symm⟩
    · next there =>
      have ne : other ≠ k := by
        rintro rfl
        rw [gone.nobody] at there
        cases there
      refine ⟨⟨gone.made, ?_⟩, (and_iff_left rfl).symm⟩
      rw [getElem?_insert_of_ne ne]
      exact gone.nobody
  | drop other =>
    refine ⟨⟨gone.made, ?_⟩, (and_iff_left rfl).symm⟩
    rw [Dispatcher.use, Dispatcher.drop, Std.ExtTreeMap.getElem?_erase, gone.nobody, ite_self]

/-- A whole run: the subscriber stays listed until a report comes. -/
theorem after (gone : d.Gone k) (uses : List Use) :
    k ∈ (d.after uses).subscribers.map Subscriber.box ↔
      k ∈ d.subscribers.map Subscriber.box ∧ uses.flatMap Use.events = [] := by
  induction uses generalizing d with
  | nil => exact (and_iff_left rfl).symm
  | cons u rest ih =>
    obtain ⟨still, listed⟩ := gone.use u
    rw [List.flatMap_cons, List.append_eq_nil_iff, ← and_assoc, ← listed]
    exact ih still

end Gone

/-! ### Every dispatcher -/

/-- The dispatcher makes mailboxes of this size, and has given out no number before its time. -/
structure Orderly (d : Dispatcher) (size : Nat) : Prop where
  capacity : d.capacity = size
  made : ∀ s ∈ d.subscribers, s.box < d.made

namespace Orderly

variable {size : Nat}

theorem dispatch (orderly : d.Orderly size) (events : List Event) : (d.dispatch events).Orderly size := by
  induction events generalizing d with
  | nil => exact orderly
  | cons event rest ih =>
    refine ih ⟨(capacity_route d event).trans orderly.capacity, fun s mem => ?_⟩
    rw [subscribers_route] at mem
    exact (made_route d event).symm ▸ orderly.made s (List.mem_of_mem_filter mem)

theorem use (orderly : d.Orderly size) (u : Use) : (d.use u).Orderly size := by
  cases u with
  | subscribe filter =>
    refine ⟨orderly.capacity, fun s mem => ?_⟩
    obtain old | new := List.mem_append.1 mem
    · exact Nat.lt_succ_of_lt (orderly.made s old)
    · exact List.eq_of_mem_singleton new ▸ Nat.lt_succ_self d.made
  | dispatch events => exact orderly.dispatch events
  | receive box =>
    rw [Dispatcher.use, Dispatcher.receive]
    split <;> exact { orderly with }
  | drop box => exact { orderly with }

theorem after (orderly : d.Orderly size) (uses : List Use) : (d.after uses).Orderly size := by
  induction uses generalizing d with
  | nil => exact orderly
  | cons u rest ih => exact ih (orderly.use u)

/-- Someone who subscribes is supplied from an empty mailbox. -/
theorem supplies (orderly : d.Orderly size) (filter : EventFilter) :
    (d.subscribe filter).2.Supplies d.made filter (Mailbox.ofCapacity size) := by
  constructor
  · exact Nat.lt_succ_self d.made
  · exact orderly.capacity ▸ Std.ExtTreeMap.getElem?_insert_self
  · have nobody : d.subscribers.filter (·.box == d.made) = [] :=
      List.filter_eq_nil_iff.2 fun s mem same => Nat.ne_of_lt (orderly.made s mem) (beq_iff_eq.1 same)
    rw [subscribe, List.filter_append, nobody, List.nil_append]
    exact List.filter_cons_of_pos BEq.rfl

end Orderly

theorem orderly_ofCapacity (capacity : Nat) : (ofCapacity capacity).Orderly (max capacity 1) :=
  ⟨rfl, fun _ mem => nomatch mem⟩

/-- When the reader goes, the subscriber is still listed. -/
theorem Supplies.drop {filter : EventFilter} {box : Mailbox} (supplies : d.Supplies k filter box) :
    (d.drop k).Gone k ∧ k ∈ (d.drop k).subscribers.map Subscriber.box :=
  ⟨⟨supplies.made, Std.ExtTreeMap.getElem?_erase_self⟩, List.mem_map_of_mem supplies.mem_subscribers⟩

/-- **Nothing is lost in silence.** A dispatcher of any size is used in any way, then someone subscribes, and the use goes
on. As long as that reader is there, the subscriber stays listed; the receipts tell of the reports that it asks for from
the first one on, each once and in order, and what is still to be read are the latest of the others; and they are the ones
that it would get alone. When the reader goes, the subscriber is listed until the next report, whichever it is. -/
theorem fanOut_exact (capacity : Nat) (before later : List Use) (filter : EventFilter) :
    let k := (((ofCapacity capacity).after before).subscribe filter).1
    let start := (((ofCapacity capacity).after before).subscribe filter).2
    let room := powerOfTwoAbove (max capacity 1)
    let wanted := (later.flatMap Use.events).filter filter.accepts
    (∃ exponent, room = 2 ^ exponent) ∧ max capacity 1 ≤ room ∧ room < 2 * max capacity 1 ∧
    (Use.drop k ∉ later →
      (∃ reported unread, wanted = reported ++ unread ∧ Accounts (heard k start later) reported ∧
        ((start.after later).receiveAll k).1 = Mailbox.due room unread ∧
        Accounts (heard k start later ++ ((start.after later).receiveAll k).1) wanted) ∧
      (start.after later).subscribers.filter (·.box == k) = [{ box := k, filter }] ∧
      heard k start later =
        heard 0 ((ofCapacity capacity).subscribe filter).2 (later.filterMap (Use.alone k))) ∧
    ∀ first rest, later = first ++ .drop k :: rest → Use.drop k ∉ first →
      (k ∈ (start.after later).subscribers.map Subscriber.box ↔ rest.flatMap Use.events = []) := by
  have supplies := ((orderly_ofCapacity capacity).after before).supplies filter
  have single := (orderly_ofCapacity capacity).supplies filter
  have fresh := Mailbox.attended_ofCapacity (max capacity 1)
  obtain ⟨power, least, below⟩ := powerOfTwoAbove_bounds (Nat.le_max_right capacity 1)
  refine ⟨power, least, below, fun remains => ?_, fun first rest split remains => ?_⟩
  · obtain ⟨box, still, attended⟩ := supplies.after fresh remains
    rw [List.nil_append, List.nil_append] at attended
    have due := still.receiveAll attended
    have whole := attended.told.append (Mailbox.accounts_due (powerOfTwoAbove (max capacity 1))
      (((later.flatMap Use.events).filter filter.accepts).drop box.consumed))
    rw [List.take_append_drop, ← due] at whole
    exact ⟨⟨_, _, (List.take_append_drop box.consumed _).symm, attended.told, due, whole⟩, still.listed,
      supplies.heard_alone single remains⟩
  · obtain ⟨box, still, _⟩ := supplies.after fresh remains
    obtain ⟨gone, listed⟩ := still.drop
    rw [split, after, List.foldl_append]
    exact (gone.after rest).trans (and_iff_right listed)

/-- Three reports for a mailbox with room for two, with another reader who leaves between them: nothing of it is read yet,
so a note comes first that one is lost. -/
theorem fanOut_exact_unread :
    let report (secs : Int) : Event := { kind := .memberAdded, containerId := "a", timestamp := ⟨secs, 0⟩ }
    let later : List Use := [.dispatch [report 1, report 2], .drop 0, .dispatch [report 3]]
    let d := (((ofCapacity 2).after [.subscribe {}]).subscribe {}).2.after later
    Use.drop 1 ∉ later ∧ d.subscribers.filter (·.box == 1) = [{ box := 1, filter := {} }] ∧
      (d.receiveAll 1).1 = [.lagged 1, .event (report 2), .event (report 3)] ∧
      Accounts (d.receiveAll 1).1 [report 1, report 2, report 3] := by
  intro report later d
  have remains : Use.drop 1 ∉ later := by simp [later]
  have number : (((ofCapacity 2).after [.subscribe {}]).subscribe {}).1 = 1 := rfl
  have room : powerOfTwoAbove (max 2 1) = 2 := by decide +kernel
  have silent : heard 1 (((ofCapacity 2).after [.subscribe {}]).subscribe {}).2 later = [] := rfl
  have asked : (later.flatMap Use.events).filter ({} : EventFilter).accepts = [report 1, report 2, report 3] := rfl
  have latest : Mailbox.due 2 [report 1, report 2, report 3] = [.lagged 1, .event (report 2), .event (report 3)] := rfl
  obtain ⟨_, _, _, stays, _⟩ := fanOut_exact 2 [.subscribe {}] later {}
  rw [number, room, silent, asked, List.nil_append] at stays
  obtain ⟨⟨reported, unread, wanted, begun, due, told⟩, listed, _⟩ := stays remains
  have nothing : reported = [] := by cases begun; rfl
  rw [nothing, List.nil_append] at wanted
  rw [← wanted, latest] at due
  exact ⟨remains, listed, due, told⟩

end Dispatcher

end Containment
