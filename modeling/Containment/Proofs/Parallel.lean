/-
Module: Containment.Proofs.Parallel
Purpose: Two worlds that differ in the kind of their index. A program that keeps the order of times cannot tell them apart:
  it makes the same requests in both and ends alike, and afterwards the worlds still differ in their indexes only,
  which list the same members in the order of their times.
Main exports: Dealing.reading?, Dealing.rows, Store.Dated, World.Parallel, World.Parallel.answer,
  Program.Orderly.run_parallel
-/
import Containment.Proofs.Dealings
import Containment.Proofs.Index.Alongside
import Containment.Proofs.Repository.Timekeeping
import Containment.Proofs.Store.Swapping

namespace Containment

open Time

namespace Dealing

/-- The reading that was taken, if the clock was asked. -/
def reading? : Dealing → Option Instant
  | ⟨.readClock, time⟩ => some time
  | _ => none

/-- How many rows the request may make. -/
def rows : Dealing → Nat
  | ⟨.index call, _⟩ => call.members.length
  | _ => 0

/-- The record that the request brings to the store, if it brings one. -/
def record? : Dealing → Option Record
  | ⟨.store call, _⟩ => call.record?
  | _ => none

end Dealing

/-- The readings that were taken, in order. -/
def readings (dealings : List Dealing) : List Instant :=
  dealings.filterMap Dealing.reading?

/-- How many rows were made at most. -/
def rowsMade (dealings : List Dealing) : Nat :=
  (dealings.map Dealing.rows).sum

/-! ### Stores -/

/-- The members of every record are in the order of their times. -/
def MemoryStore.Dated (b : Instant) (S : MemoryStore) : Prop :=
  ∀ (id : String) (r : Record), S.records[id]? = some r → r.Dated b

namespace MemoryStore

variable {b b' : Instant} {S : MemoryStore}

theorem Dated.mono (dated : S.Dated b) (later : b.NotAfter b') : S.Dated b' :=
  fun id r found => (dated id r found).mono later

theorem Dated.put (dated : S.Dated b) {r : Record} (new : r.Dated b) : (S.put r).Dated b := by
  intro id r' found
  rw [records_put] at found
  split at found
  · cases found
    exact new
  · exact dated id r' found

theorem Dated.erase (dated : S.Dated b) (id : String) (retired : Std.ExtTreeSet String) :
    Dated b { records := S.records.erase id, retired } := by
  intro other r found
  simp only [Std.ExtTreeMap.getElem?_erase] at found
  split at found
  · cases found
  · exact dated other r found

/-- A timely request leaves the members of every record in order. -/
theorem Dated.perform (dated : S.Dated b) {call : StoreCall} (timely : (Effect.store call).IsTimely b) :
    (S.perform call).2.Dated b := by
  cases call with
  | insert r =>
    rcases S.insert_cases r with ⟨-, -, done⟩ | ⟨e, done⟩
    · rw [done]
      exact dated.put timely
    · rw [done]
      exact dated
  | update r expected =>
    rcases S.update_cases r expected with ⟨-, -, -, done⟩ | ⟨-, e, done⟩
    · rw [done]
      exact dated.put timely
    · rw [done]
      exact dated
  | delete id => exact dated.erase id _
  | retire id => exact dated.erase id _
  | read | isRetired | ids | «exists» => exact dated

end MemoryStore

namespace Store

/-- The members of every record that can be read are in the order of their times. -/
def Dated (b : Instant) (s : Store) : Prop :=
  ∃ S : MemoryStore, s.Shows S ∧ S.Dated b

variable {b b' : Instant} {s : Store}

theorem Dated.mono (dated : s.Dated b) (later : b.NotAfter b') : s.Dated b' := by
  obtain ⟨S, shows, dated⟩ := dated
  exact ⟨S, shows, dated.mono later⟩

theorem Dated.read (dated : s.Dated b) {id : String} {r : Record} (found : (s.perform (.read id)).1 = .ok (some r)) :
    r.Dated b := by
  obtain ⟨S, shows, dated⟩ := dated
  have same : (s.perform (.read id)).1 = .ok S.records[id]? := shows.read id
  rw [same] at found
  exact dated id r (Except.ok.inj found)

/-- A timely request leaves the members of every record in order, whether there is room for what it brings or not. -/
theorem Dated.perform (dated : s.Dated b) {call : StoreCall} (timely : (Effect.store call).IsTimely b)
    (expresses : ∀ r ∈ call.record?, s.Expresses r) : (s.perform call).2.Dated b := by
  obtain ⟨S, shows, ordered⟩ := id dated
  by_cases room : ∀ r ∈ call.record?, s.HasRoomFor r
  · exact ⟨_, (shows.perform expresses room).2, ordered.perform timely⟩
  · simp only [not_forall] at room
    obtain ⟨r, brought, full⟩ := room
    rw [perform_of_full brought full]
    exact dated

theorem expresses_perform (s : Store) (call : StoreCall) (r : Record) :
    (s.perform call).2.Expresses r ↔ s.Expresses r := by
  cases s with
  | memory m => rfl
  | directory d => rfl

end Store

/-! ### Worlds -/

/-- The worlds differ in their indexes only, one of which is in memory and the other in a database; what they hold is in
the order of times, up to the latest reading `b`. -/
structure World.Parallel (b : Instant) (last : Nat) (w w' : World) : Prop where
  same : w' = { w with index := w'.index }
  stored : w.store.Dated b
  listed : ∃ m t held, w.index = .memory m ∧ w'.index = .table t ∧ Alongside b m t last held

/-- Equal answers say the same. -/
theorem Effect.SameNews.of_eq {request : Effect} {answer answer' : request.Answer} (same : answer = answer') :
    request.SameNews answer answer' := by
  subst same
  cases request with
  | index call => cases call <;> exact rfl
  | store | readClock | drawId | publish => exact rfl

namespace World

variable {b b' : Instant} {last : Nat} {w w' : World}

theorem askStore_index (w : World) (index : Index) (call : StoreCall) :
    askStore { w with index } call = ((w.askStore call).1, { (w.askStore call).2 with index }) := by
  rw [askStore, askStore]
  dsimp only
  rcases Fault.strike (.store call.kind) call.id w.faults with ⟨struck, faults⟩
  cases struck with
  | some outcome => rfl
  | none => rfl

/-- A request reaches the store, or a fault hits it. -/
theorem store_askStore (w : World) (call : StoreCall) :
    (∃ e, (w.askStore call).1 = .error e ∧ (w.askStore call).2.store = w.store) ∨
      (w.askStore call).1 = (w.store.perform call).1 ∧ (w.askStore call).2.store = (w.store.perform call).2 := by
  rw [askStore]
  rcases Fault.strike (.store call.kind) call.id w.faults with ⟨struck, faults⟩
  cases struck with
  | some outcome => exact .inl ⟨_, rfl, rfl⟩
  | none => exact .inr ⟨rfl, rfl⟩

theorem index_askStore (w : World) (call : StoreCall) : (w.askStore call).2.index = w.index := by
  rw [askStore]
  split <;> rfl

theorem store_askIndex (w : World) (call : IndexCall) : (w.askIndex call).2.store = w.store := by
  rw [askIndex]
  split <;> rfl

/-- No request makes another kind of store of it. -/
theorem expresses_answer (w : World) (request : Effect) (r : Record) :
    (w.answer request).2.store.Expresses r ↔ w.store.Expresses r := by
  cases request with
  | store call =>
    change (w.askStore call).2.store.Expresses r ↔ _
    rcases w.store_askStore call with ⟨-, -, same⟩ | ⟨-, same⟩
    · rw [same]
    · rw [same]
      exact w.store.expresses_perform call r
  | index call =>
    change (w.askIndex call).2.store.Expresses r ↔ _
    rw [store_askIndex]
  | readClock | drawId | publish => exact Iff.rfl

namespace Parallel

theorem mono (parallel : w.Parallel b last w') (later : b.NotAfter b') : w.Parallel b' last w' := by
  obtain ⟨same, stored, m, t, held, kept, kept', alongside⟩ := parallel
  exact ⟨same, stored.mono later, m, t, held, kept, kept', alongside.mono later⟩

theorem store (parallel : w.Parallel b last w') {call : StoreCall} (timely : (Effect.store call).IsTimely b)
    (expresses : ∀ r ∈ call.record?, w.store.Expresses r) :
    (w'.askStore call).1 = (w.askStore call).1 ∧ (Effect.store call).Promises b (w.askStore call).1 ∧
      (w.askStore call).2.Parallel b last (w'.askStore call).2 := by
  obtain ⟨same, stored, m, t, held, kept, kept', alongside⟩ := parallel
  have asked : w'.askStore call = ((w.askStore call).1, { (w.askStore call).2 with index := w'.index }) := by
    rw [same, askStore_index]
  rw [asked]
  refine ⟨rfl, ?_, rfl, ?_, m, t, held, (w.index_askStore call).trans kept, kept', alongside⟩
  · cases call with
    | read id =>
      intro r found
      rcases w.store_askStore (.read id) with ⟨e, failed, -⟩ | ⟨answered, -⟩
      · have found : (w.askStore (.read id)).1 = .ok (some r) := found
        rw [failed] at found
        cases found
      · exact stored.read (answered.symm.trans found)
    | insert | update | delete | retire | isRetired | ids | «exists» => trivial
  · rcases w.store_askStore call with ⟨-, -, store⟩ | ⟨-, store⟩
    · exact store ▸ stored
    · exact store ▸ stored.perform timely expresses

theorem index (parallel : w.Parallel b last w') (within : (Instant.ofMillis? b.toMillis).isSome) {call : IndexCall}
    (timely : (Effect.index call).IsTimely b) (room : last + call.members.length ≤ TableIndex.maxSeq) :
    (Effect.index call).SameNews (w.askIndex call).1 (w'.askIndex call).1 ∧
      ∃ last' ≤ last + call.members.length, (w.askIndex call).2.Parallel b last' (w'.askIndex call).2 := by
  obtain ⟨same, stored, m, t, held, kept, kept', alongside⟩ := parallel
  rw [same, askIndex, askIndex]
  dsimp only
  rcases Fault.strike (.index call.kind) call.container w.faults with ⟨struck, faults⟩
  cases struck with
  | some outcome =>
    exact ⟨.of_eq rfl, last, Nat.le_add_right _ _, rfl, stored, m, t, held, kept, kept', alongside⟩
  | none =>
    obtain ⟨news, last', held', le, next⟩ := alongside.perform within timely room
    rw [kept, kept']
    exact ⟨news, last', le, rfl, stored, _, _, held', rfl, rfl, next⟩

/-- A timely request is answered alike in both worlds, but for the row that an insertion makes, and they stay parallel. -/
theorem answer (parallel : w.Parallel b last w') (within : (Instant.ofMillis? b.toMillis).isSome) {request : Effect}
    (timely : request.IsTimely b)
    (expresses : ∀ r ∈ Dealing.record? ⟨request, (w.answer request).1⟩, w.store.Expresses r)
    (forward : ∀ time ∈ Dealing.reading? ⟨request, (w.answer request).1⟩,
      b.NotAfter time ∧ (Instant.ofMillis? time.toMillis).isSome)
    (room : last + Dealing.rows ⟨request, (w.answer request).1⟩ ≤ TableIndex.maxSeq) :
    request.SameNews (w.answer request).1 (w'.answer request).1 ∧ request.Promises b (w.answer request).1 ∧
      ∃ last' ≤ last + Dealing.rows ⟨request, (w.answer request).1⟩,
        (w.answer request).2.Parallel (request.latest b (w.answer request).1) last' (w'.answer request).2 := by
  cases request with
  | store call =>
    obtain ⟨answer, promises, next⟩ := parallel.store timely expresses
    exact ⟨.of_eq answer.symm, promises, last, le_rfl, next⟩
  | index call =>
    obtain ⟨news, last', le, next⟩ := parallel.index within timely room
    refine ⟨news, ?_, last', le, next⟩
    cases call <;> trivial
  | readClock =>
    have notAfter := forward _ rfl
    obtain ⟨same, stored, m, t, held, kept, kept', alongside⟩ := parallel.mono notAfter.1
    rw [same]
    exact ⟨rfl, notAfter, last, le_rfl, rfl, stored, m, t, held, kept, kept', alongside⟩
  | drawId | publish =>
    obtain ⟨same, stored, m, t, held, kept, kept', alongside⟩ := parallel
    rw [same]
    exact ⟨rfl, trivial, last, le_rfl, rfl, stored, m, t, held, kept, kept', alongside⟩

end Parallel

end World

/-! ### Programs -/

/-- A request that is answered is followed by readings that are not before the latest. -/
theorem Time.Forward.rest {b : Instant} {request : Effect} {answer : request.Answer} {dealings : List Dealing}
    {later : List Instant} (forward : Forward (b :: (readings (⟨request, answer⟩ :: dealings) ++ later))) :
    (∀ time ∈ Dealing.reading? ⟨request, answer⟩, b.NotAfter time ∧ (Instant.ofMillis? time.toMillis).isSome) ∧
      Forward (request.latest b answer :: (readings dealings ++ later)) := by
  cases request with
  | readClock =>
    have forward : Forward (b :: answer :: (readings dealings ++ later)) := forward
    obtain ⟨first, others⟩ := List.pairwise_cons.1 forward.ordered
    refine ⟨?_, others, fun t mem => forward.held t (List.mem_cons_of_mem b mem)⟩
    rintro time ⟨⟩
    exact ⟨first answer List.mem_cons_self, forward.held answer (List.mem_cons_of_mem b List.mem_cons_self)⟩
  | store | index | drawId | publish => exact ⟨fun time impossible => (nomatch impossible), forward⟩

theorem rowsMade_cons (d : Dealing) (dealings : List Dealing) : rowsMade (d :: dealings) = d.rows + rowsMade dealings :=
  List.sum_cons

namespace Program

variable {α : Type} {status : Option Cancellation}

theorem expresses_run (p : Program α) (w : World) (r : Record) :
    (p.run status w).2.store.Expresses r ↔ w.store.Expresses r := by
  induction p generalizing w with
  | done a => exact Iff.rfl
  | effect request next ih => exact (ih _ _).trans (w.expresses_answer request r)
  | check next ih => exact ih status w
  | acquire lock mode next ih => exact ih status w
  | release lock next ih => exact ih () w

/-- A program that keeps the order of times ends alike in parallel worlds, and they stay parallel. `later` are the
readings that will be taken when the program has ended, and `more` is the number of rows that are yet to come. -/
theorem Orderly.run_parallel {p : Program α} {b : Instant} {good : Instant → α → Prop} (orderly : p.Orderly b good)
    {last : Nat} {w w' : World} (parallel : w.Parallel b last w') {later : List Instant} {more : Nat}
    (forward : Forward (b :: (readings (p.dealings status w) ++ later)))
    (expresses : ∀ d ∈ p.dealings status w, ∀ r ∈ d.record?, w.store.Expresses r)
    (room : last + rowsMade (p.dealings status w) + more ≤ TableIndex.maxSeq) :
    (p.run status w').1 = (p.run status w).1 ∧ ∃ (b' : Instant) (last' : Nat), Forward (b' :: later) ∧
      last' + more ≤ TableIndex.maxSeq ∧ (p.run status w).2.Parallel b' last' (p.run status w').2 := by
  induction p generalizing b last w w' with
  | done a =>
    refine ⟨rfl, b, last, forward, ?_, parallel⟩
    exact (Int.add_le_add_right (by omega) _).trans room
  | effect request next ih =>
    obtain ⟨timely, blind, rest⟩ := orderly
    obtain ⟨reading, forward'⟩ := forward.rest
    have within := forward.held b List.mem_cons_self
    have here := expresses ⟨request, (w.answer request).1⟩ List.mem_cons_self
    simp only [dealings, rowsMade_cons] at room
    obtain ⟨news, promises, last', le, next'⟩ := parallel.answer within timely here reading (by omega)
    have blind := blind _ _ news
    have later := ih (w.answer request).1 (rest _ promises) next' forward'
      (fun d mem r brought => (w.expresses_answer request r).2 (expresses d (List.mem_cons_of_mem _ mem) r brought))
      (by omega)
    rw [run, run]
    dsimp only
    rw [← blind]
    exact later
  | check next ih => exact ih status (orderly status) parallel forward expresses room
  | acquire lock mode next ih => exact ih status (orderly status) parallel forward expresses room
  | release lock next ih => exact ih () orderly parallel forward expresses room

end Program

end Containment
