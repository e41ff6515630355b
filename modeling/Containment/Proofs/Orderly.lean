/-
Module: Containment.Proofs.Orderly
Purpose: Programs that keep the order of times. Whatever they list anew is dated by the latest reading of the clock, and
  what they write of earlier members was in order before. This can be told from their text, as long as the records that
  they read are in order. They do not look at the rows that the index makes, so that they cannot tell its kind.
Main exports: Member.DatedBy, Effect.IsTimely, Effect.Promises, Effect.SameNews, Program.Orderly, Action.Orderly,
  Action.Steady, Action.Orderly.bind, Action.Steady.bind
-/
import Containment.Proofs.Time.Forward
import Containment.Program

namespace Containment

open Time

/-- Members in the order of their times. A database can hold these, and none of them is after `b`. -/
structure Member.DatedBy (b : Instant) (members : List Member) : Prop where
  ordered : members.Pairwise fun m n => m.addedAt.NotAfter n.addedAt
  past : ∀ m ∈ members, m.addedAt.NotAfter b
  held : ∀ m ∈ members, (Instant.ofMillis? m.addedAt.toMillis).isSome

namespace Member

variable {b b' : Instant} {members members' : List Member}

theorem datedBy_nil (b : Instant) : DatedBy b [] :=
  ⟨List.Pairwise.nil, List.forall_mem_nil _, List.forall_mem_nil _⟩

theorem DatedBy.mono (dated : DatedBy b members) (later : b.NotAfter b') : DatedBy b' members :=
  ⟨dated.ordered, fun m mem => (dated.past m mem).trans later, dated.held⟩

theorem DatedBy.sublist (dated : DatedBy b members) (fewer : members'.Sublist members) : DatedBy b members' :=
  ⟨dated.ordered.sublist fewer, fun m mem => dated.past m (fewer.subset mem),
    fun m mem => dated.held m (fewer.subset mem)⟩

/-- The next member is dated by the latest reading. -/
theorem DatedBy.append (dated : DatedBy b members) {m : Member} (now : m.addedAt = b)
    (held : (Instant.ofMillis? b.toMillis).isSome) : DatedBy b (members ++ [m]) := by
  constructor
  · refine List.pairwise_append.2 ⟨dated.ordered, List.pairwise_singleton .., fun earlier mem last new => ?_⟩
    rw [List.mem_singleton.1 new, now]
    exact dated.past earlier mem
  · intro earlier mem
    rcases List.mem_append.1 mem with old | new
    · exact dated.past earlier old
    · rw [List.mem_singleton.1 new, now]
      exact .refl b
  · intro earlier mem
    rcases List.mem_append.1 mem with old | new
    · exact dated.held earlier old
    · rw [List.mem_singleton.1 new, now]
      exact held

end Member

/-! ### Requests -/

namespace Effect

/-- The request writes members in order, and dates what it lists anew by the latest reading. The index is not asked about
rows. -/
def IsTimely (b : Instant) : Effect → Prop
  | .store (.insert r) | .store (.update r _) => Member.DatedBy b r.container.members
  | .store _ => True
  | .index (.insert _ m) => m.addedAt = b
  | .index (.replacePartition _ members) => Member.DatedBy b members
  | .index (.createPartition _) | .index (.dropPartition _) | .index (.remove _ _) | .index .partitions => True
  | .index _ => False
  | .readClock | .drawId | .publish _ => True

/-- What can be relied on in an answer: records are in order, and the clock is not set back. -/
def Promises (b : Instant) : (request : Effect) → request.Answer → Prop
  | .store (.read _), found => ∀ r, found = .ok (some r) → Member.DatedBy b r.container.members
  | .readClock, time => b.NotAfter time ∧ (Instant.ofMillis? time.toMillis).isSome
  | _, _ => True

/-- The latest reading after a request. -/
def latest (b : Instant) : (request : Effect) → request.Answer → Instant
  | .readClock, time => time
  | _, _ => b

/-- Two answers say the same, but for the row that an insertion makes. -/
def SameNews : (request : Effect) → request.Answer → request.Answer → Prop
  | .index (.insert _ _), made, made' => (made.map fun _ => ()) = made'.map fun _ => ()
  | _, answer, answer' => answer = answer'

end Effect

/-! ### Programs -/

namespace Program

variable {α β : Type} {b : Instant}

/-- All requests of the program are timely, `b` being the latest reading at first, and the program does not look at the
rows that insertions make. If all answers keep their promises, then the latest reading and the value at the end are
good ones. -/
def Orderly : Program α → Instant → (Instant → α → Prop) → Prop
  | .done a, b, good => good b a
  | .effect request next, b, good =>
      request.IsTimely b ∧ (∀ answer answer', request.SameNews answer answer' → next answer = next answer') ∧
        ∀ answer, request.Promises b answer → (next answer).Orderly (request.latest b answer) good
  | .check next, b, good => ∀ status, (next status).Orderly b good
  | .acquire _ _ next, b, good => ∀ status, (next status).Orderly b good
  | .release _ next, b, good => (next ()).Orderly b good

/-- One program after another. -/
theorem Orderly.bind {p : Program α} {f : α → Program β} {good : Instant → α → Prop} {better : Instant → β → Prop}
    (first : p.Orderly b good) (second : ∀ b' a, good b' a → (f a).Orderly b' better) :
    (p.bind f).Orderly b better := by
  induction p generalizing b with
  | done a => exact second b a first
  | effect request next ih =>
    obtain ⟨timely, blind, rest⟩ := first
    refine ⟨timely, fun answer answer' same => ?_, fun answer promises => ih answer (rest answer promises)⟩
    exact congrArg (bind · f) (blind answer answer' same)
  | check next ih => exact fun status => ih status (first status)
  | acquire lock mode next ih => exact fun status => ih status (first status)
  | release lock next ih => exact ih () first

theorem Orderly.mono {p : Program α} {good better : Instant → α → Prop} (orderly : p.Orderly b better)
    (imp : ∀ b' a, better b' a → good b' a) : p.Orderly b good := by
  rw [← bind_done p]
  exact orderly.bind imp

end Program

namespace Action

variable {α β : Type} {b : Instant} {x : Action α} {f : α → Action β} {good : Instant → α → Prop}
  {better : Instant → β → Prop}

/-- The program keeps the order of times, `b` being the latest reading at first. If it succeeds, then the latest
reading and the answer are good ones. -/
def Orderly (x : Action α) (b : Instant) (good : Instant → α → Prop) : Prop :=
  Program.Orderly x.run b fun b' out => b.NotAfter b' ∧ ∀ a, out = .ok a → good b' a

/-- The program keeps the order of times and does not read the clock. If it succeeds, its answer is a good one. -/
abbrev Steady (x : Action α) (b : Instant) (good : α → Prop) : Prop :=
  x.Orderly b fun b' a => b' = b ∧ good a

theorem orderly_pure {a : α} (holds : good b a) : (pure a : Action α).Orderly b good := by
  refine ⟨.refl b, fun a' same => ?_⟩
  cases same
  exact holds

theorem steady_pure {good : α → Prop} {a : α} (holds : good a) : (pure a : Action α).Steady b good :=
  orderly_pure ⟨rfl, holds⟩

theorem orderly_throw (e : RepositoryError) : (throw e : Action α).Orderly b good :=
  ⟨.refl b, fun _ impossible => by cases impossible⟩

theorem Orderly.mono {weaker : Instant → α → Prop} (orderly : x.Orderly b good)
    (imp : ∀ b' a, b.NotAfter b' → good b' a → weaker b' a) : x.Orderly b weaker :=
  Program.Orderly.mono orderly fun b' _ ended => ⟨ended.1, fun a same => imp b' a ended.1 (ended.2 a same)⟩

/-- One program after another. -/
theorem Orderly.bind (first : x.Orderly b good)
    (second : ∀ b' a, b.NotAfter b' → good b' a → (f a).Orderly b' better) : (x >>= f).Orderly b better := by
  apply Program.Orderly.bind first
  intro b' outcome ended
  cases outcome with
  | error e => exact ⟨ended.1, fun a impossible => by cases impossible⟩
  | ok a =>
    apply Program.Orderly.mono (second b' a ended.1 (ended.2 a rfl))
    exact fun b'' out later => ⟨ended.1.trans later.1, later.2⟩

theorem Steady.bind {good : α → Prop} (first : x.Steady b good) (second : ∀ a, good a → (f a).Orderly b better) :
    (x >>= f).Orderly b better := by
  apply Orderly.bind first
  rintro b' a - ⟨rfl, holds⟩
  exact second a holds

theorem Orderly.map {g : α → β} (orderly : x.Orderly b fun b' a => better b' (g a)) : (g <$> x).Orderly b better := by
  rw [map_eq_pure_bind]
  exact orderly.bind fun b' a _ holds => orderly_pure holds

/-- Whatever the program went through, the handler goes on from there. -/
theorem Orderly.tryCatch {handler : RepositoryError → Action α} (orderly : x.Orderly b good)
    (handled : ∀ b' e, b.NotAfter b' → (handler e).Orderly b' good) :
    (tryCatch x handler : Action α).Orderly b good := by
  apply Program.Orderly.bind orderly
  intro b' outcome ended
  cases outcome with
  | error e =>
    apply Program.Orderly.mono (handled b' e ended.1)
    exact fun b'' out later => ⟨ended.1.trans later.1, later.2⟩
  | ok a => exact ended

theorem Orderly.onError {handler : RepositoryError → Action Unit} (orderly : x.Orderly b good)
    (handled : ∀ b' e, b.NotAfter b' → (handler e).Orderly b' fun _ _ => True) :
    (onError x handler).Orderly b good := by
  apply orderly.tryCatch
  intro b' e later
  exact (handled b' e later).bind fun _ _ _ _ => orderly_throw e

theorem Orderly.mapError {change : RepositoryError → RepositoryError} (orderly : x.Orderly b good) :
    (mapError x change).Orderly b good :=
  orderly.tryCatch fun _ e _ => orderly_throw (change e)

theorem Orderly.withLock {lock : LockName} {mode : Mode} (orderly : x.Orderly b good) :
    (withLock lock mode x).Orderly b good := by
  intro status
  cases status with
  | some reason => exact orderly_throw _
  | none =>
    apply Program.Orderly.bind orderly
    exact fun b' outcome ended => ended

theorem orderly_releaseAll (locks : List LockName) {good : Instant → Unit → Prop} (holds : good b ()) :
    (releaseAll locks).Orderly b good := by
  induction locks with
  | nil => exact holds
  | cons lock rest ih => exact ih

theorem orderly_acquireAll (taken locks : List LockName) : (acquireAll taken locks).Orderly b fun b' _ => b' = b := by
  induction locks generalizing taken with
  | nil => exact rfl
  | cons lock rest ih =>
    intro status
    cases status with
    | none => exact ih _
    | some reason => exact Program.Orderly.bind (orderly_releaseAll taken rfl) fun _ _ same => same

theorem Orderly.withContainers {ids : List String} (orderly : x.Orderly b good) :
    (withContainers ids x).Orderly b good := by
  apply Program.Orderly.bind (orderly_acquireAll _ _)
  rintro b' status rfl
  cases status with
  | some reason => exact orderly_throw (.canceled reason)
  | none =>
    apply Program.Orderly.bind orderly
    intro b' outcome ended
    exact Program.Orderly.bind (orderly_releaseAll _ ended) fun _ _ holds => holds

theorem steady_checkContext : checkContext.Steady b fun _ => True := by
  intro status
  cases status with
  | none => exact steady_pure trivial
  | some reason => exact orderly_throw _

theorem steady_ofContainer {outcome : Except ContainerError α} {good : α → Prop} (holds : ∀ a, outcome = .ok a → good a) :
    (ofContainer outcome).Steady b good := by
  cases outcome with
  | error e => exact orderly_throw _
  | ok a => exact steady_pure (holds a rfl)

/-! ### Requests -/

theorem orderly_now : now.Orderly b fun b' time => time = b' ∧ (Instant.ofMillis? b'.toMillis).isSome := by
  refine ⟨trivial, fun time time' same => ?_, fun time promises => ⟨promises.1, fun _ same => ?_⟩⟩
  · exact congrArg _ same
  · cases same
    exact ⟨rfl, promises.2⟩

theorem steady_freshId : freshId.Steady b fun _ => True := by
  refine ⟨trivial, fun id id' same => ?_, fun id _ => steady_pure trivial⟩
  exact congrArg _ same

theorem steady_publish (events : List Event) : (publish events).Steady b fun _ => True := by
  rw [publish]
  split
  · exact steady_pure trivial
  · exact ⟨trivial, fun _ _ _ => rfl, fun done _ => steady_pure trivial⟩

theorem steady_tryStore {call : StoreCall} (timely : (Effect.store call).IsTimely b) :
    (tryStore call).Steady b ((Effect.store call).Promises b) := by
  refine ⟨timely, fun answer answer' same => ?_, fun answer promises => steady_pure promises⟩
  exact congrArg _ same

theorem steady_store {call : StoreCall} (timely : (Effect.store call).IsTimely b) :
    (store call).Steady b fun a => (Effect.store call).Promises b (.ok a) := by
  apply (steady_tryStore timely).bind
  intro answer promises
  cases answer with
  | error e => exact orderly_throw _
  | ok a => exact steady_pure promises

/-- A request to the index whose answer makes no row. -/
theorem steady_tryIndex {call : IndexCall} (timely : (Effect.index call).IsTimely b)
    (rowless : ∀ answer answer', (Effect.index call).SameNews answer answer' → answer = answer') :
    (tryIndex call).Steady b fun _ => True := by
  refine ⟨timely, fun answer answer' same => ?_, fun answer _ => steady_pure trivial⟩
  exact congrArg _ (rowless answer answer' same)

theorem steady_index {call : IndexCall} (timely : (Effect.index call).IsTimely b)
    (rowless : ∀ answer answer', (Effect.index call).SameNews answer answer' → answer = answer') :
    (index call).Steady b fun _ => True := by
  apply (steady_tryIndex timely rowless).bind
  intro answer _
  cases answer with
  | error e => exact orderly_throw _
  | ok a => exact steady_pure trivial

end Action

end Containment
