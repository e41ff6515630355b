/-
Module: Containment.Proofs.Store.Swapping
Purpose: Clients that share a store and replace only what they have read. Their single requests come in any order. What is
  written under an identifier forms one chain, each record derived from the one before it, and a replacement is granted
  exactly as long as the record is still the one that its writer read.
Main exports: ClientCall, ClientTurn, Store.Attends, Writing, Linked, MemoryStore.Chronicles, MemoryStore.Takes,
  Store.KeepsUpdates, Store.Attends.keepsUpdates
-/
import Containment.Proofs.Store.Equivalence

namespace Containment

/-! ### Clients -/

/-- What a client does with a store: it brings a container that was never stored, gives an identifier up for ever, reads
a record, or replaces a record that it has read by the one that follows it. -/
inductive ClientCall where
  | insert (container : Container)
  | retire (id : String)
  | read (id : String)
  | update (base : Record) (container : Container)

/-- The request that a client makes. -/
abbrev ClientCall.request : ClientCall → StoreCall
  | insert container => .insert (.first container)
  | retire id => .retire id
  | read id => .read id
  | update base container => .update (base.next container) base.revision

/-- A client's call and the answer to it. -/
structure ClientTurn where
  client : Nat
  call : ClientCall
  answer : Except StoreError call.request.Answer

/-- The turn in which a client asks for an identifier and is given this record. -/
def ClientTurn.reading (client : Nat) (id : String) (r : Record) : ClientTurn :=
  ⟨client, .read id, .ok (some r)⟩

/-- The client has been given this record for an answer. -/
def HasRead (turns : List ClientTurn) (client : Nat) (r : Record) : Prop :=
  ∃ id, ClientTurn.reading client id r ∈ turns

/-- A client replaces only what it has read itself, and a changed container keeps its identifier. -/
def ClientCall.Grounded (turns : List ClientTurn) (client : Nat) : ClientCall → Prop
  | update base container => HasRead turns client base ∧ container.id = base.id
  | insert _ | retire _ | read _ => True

namespace Store

/-- A record that the store can tell from all others. Memory keeps a record as it is; a file needs a name, and numbers
and instants of the sizes that programs have for them. -/
def Expresses : Store → Record → Prop
  | memory _, _ => True
  | directory _, r => r.id ≠ "" ∧ r.Representable

/-- A file holds less than 4 GiB. -/
def HasRoomFor : Store → Record → Prop
  | memory _, _ => True
  | directory _, r => r.encode.length < 2 ^ 32

/-- The turns that clients take one after another, whoever comes next, and the store that they leave. -/
inductive Attends (start : Store) : List ClientTurn → Store → Prop
  | start : Attends start [] start
  | turn {turns : List ClientTurn} {s : Store} (client : Nat) (call : ClientCall)
      {answer : Except StoreError call.request.Answer} : Attends start turns s → call.Grounded turns client →
      (∀ r ∈ call.request.record?, s.Expresses r) → (s.perform call.request).1 = answer →
      Attends start (turns ++ [⟨client, call, answer⟩]) (s.perform call.request).2

end Store

/-! ### What was written -/

/-- A container that was stored, and the record that it was derived from, if any. -/
structure Writing where
  base : Option Record
  container : Container

/-- The record that was written. -/
def Writing.record (w : Writing) : Record :=
  match w.base with
  | none => .first w.container
  | some base => base.next w.container

/-- Each record was derived from the one before it, the first of them from this one. -/
def Linked : Option Record → List Writing → Prop
  | _, [] => True
  | last, w :: rest => w.base = last ∧ Linked (some w.record) rest

namespace ClientTurn

/-- What a turn wrote under an identifier. -/
def writing? (id : String) : ClientTurn → Option Writing
  | ⟨_, .insert container, .ok _⟩ => if container.id = id then some ⟨none, container⟩ else none
  | ⟨_, .update base container, .ok _⟩ => if container.id = id then some ⟨some base, container⟩ else none
  | _ => none

/-- The turn gave an identifier up. -/
def Retires (turn : ClientTurn) (id : String) : Prop :=
  ∃ client existed, turn = ⟨client, .retire id, .ok existed⟩

/-- The turn wrote something under an identifier, or gave it up. -/
def Changes (turn : ClientTurn) (id : String) : Prop :=
  (∃ w, turn.writing? id = some w) ∨ turn.Retires id

end ClientTurn

/-- All that was written under an identifier, in order. -/
def writings (id : String) (turns : List ClientTurn) : List Writing :=
  turns.filterMap (·.writing? id)

section Writings

variable {id : String} {turns : List ClientTurn} {turn : ClientTurn} {w : Writing} {ws : List Writing}

theorem Writing.id_record (w : Writing) : w.record.id = w.container.id := by
  cases w with
  | mk base container => cases base <;> rfl

theorem Writing.revision_record (w : Writing) :
    w.record.revision = (w.base.elim 0 Record.revision) + 1 := by
  cases w with
  | mk base container => cases base <;> rfl

theorem ClientTurn.id_of_writing? (wrote : turn.writing? id = some w) : w.record.id = id := by
  rw [w.id_record]
  rcases turn with ⟨client, call, answer⟩
  cases call with
  | insert container | update base container =>
    cases answer with
    | error e => cases wrote
    | ok u =>
      obtain ⟨same, stored⟩ := Option.ite_none_right_eq_some.1 wrote
      cases stored
      exact same
  | retire id | read id => cases wrote

theorem ClientTurn.not_changes_read {client : Nat} {other : String}
    {answer : Except StoreError (ClientCall.read other).request.Answer} :
    ¬ ClientTurn.Changes ⟨client, .read other, answer⟩ id := by
  rintro (⟨w, wrote⟩ | ⟨client, existed, retires⟩)
  · cases wrote
  · cases retires

theorem id_of_mem_writings (mem : w ∈ writings id turns) : w.record.id = id := by
  obtain ⟨turn, -, wrote⟩ := List.mem_filterMap.1 mem
  exact ClientTurn.id_of_writing? wrote

theorem writings_concat_of_none (none : turn.writing? id = none) :
    writings id (turns ++ [turn]) = writings id turns := by
  rw [writings, List.filterMap_append, List.filterMap_cons_none none]
  exact List.append_nil _

theorem writings_concat_of_some (wrote : turn.writing? id = some w) :
    writings id (turns ++ [turn]) = writings id turns ++ [w] := by
  rw [writings, List.filterMap_append, List.filterMap_cons_some wrote]
  rfl

theorem mem_writings_concat (mem : w ∈ writings id turns) : w ∈ writings id (turns ++ [turn]) := by
  rw [writings, List.filterMap_append]
  exact List.mem_append_left _ mem

/-- A chain grows at its end. -/
theorem Linked.concat {last : Option Record} (linked : Linked last ws)
    (base : w.base = (ws.getLast?.map Writing.record).or last) : Linked last (ws ++ [w]) := by
  induction ws generalizing last with
  | nil => exact ⟨base, trivial⟩
  | cons first rest ih =>
    refine ⟨linked.1, ih linked.2 ?_⟩
    rw [base, List.getLast?_cons]
    cases rest.getLast? <;> rfl

/-- The revisions of a chain have no gaps and no repeats. -/
theorem Linked.revisions {last : Option Record} (linked : Linked last ws) :
    ws.map (·.record.revision) = List.range' (last.elim 0 Record.revision + 1) ws.length := by
  induction ws generalizing last with
  | nil => rfl
  | cons first rest ih =>
    have next := first.revision_record
    rw [linked.1] at next
    rw [List.map_cons, List.length_cons, List.range'_succ, ih linked.2, Option.elim_some, next]

theorem Linked.revision_le (linked : Linked none ws) (mem : w ∈ ws) : w.record.revision ≤ ws.length := by
  have numbered : w.record.revision ∈ List.range' 1 ws.length :=
    linked.revisions ▸ List.mem_map_of_mem mem
  have bounds := List.mem_range'_1.1 numbered
  omega

theorem Linked.revision_concat (linked : Linked none (ws ++ [w])) : w.record.revision = ws.length + 1 := by
  have numbered := linked.revisions
  rw [List.map_append, List.length_append, List.length_singleton, Option.elim_none, List.range'_1_concat] at numbered
  have last := (List.append_inj' numbered rfl).2
  rw [List.map_singleton, List.cons.injEq] at last
  omega

/-- A revision is given once. -/
theorem Linked.eq_of_revision {w' : Writing} (linked : Linked none ws) (mem : w ∈ ws) (mem' : w' ∈ ws)
    (same : w.record.revision = w'.record.revision) : w = w' := by
  have distinct : (ws.map (·.record.revision)).Nodup := linked.revisions ▸ List.nodup_range'
  exact List.inj_on_of_nodup_map distinct mem mem' same

end Writings

/-! ### The store against what was written -/

/-- The store holds what was written last under each identifier that nobody has given up, what was written is a chain,
and whatever a client has read is a part of it, still stored exactly if no turn since has changed it. -/
structure MemoryStore.Chronicles (m : MemoryStore) (turns : List ClientTurn) : Prop where
  records : ∀ id, m.records[id]? =
    if m.retired.contains id then none else (writings id turns).getLast?.map Writing.record
  retired : ∀ id, m.retired.contains id = true ↔ ∃ turn ∈ turns, turn.Retires id
  linked : ∀ id, Linked none (writings id turns)
  read : ∀ client r, HasRead turns client r → ∃ w ∈ writings r.id turns, w.record = r
  since : ∀ before between client id r, turns = before ++ .reading client id r :: between →
    (m.records[id]? = some r ↔ ∀ turn ∈ between, ¬ turn.Changes id)

/-- What a turn makes of a store. What it reads is stored, what it writes is derived from what is stored, what it gives up
is gone, and it leaves all else alone. -/
structure MemoryStore.Takes (m : MemoryStore) (turn : ClientTurn) (m' : MemoryStore) : Prop where
  fresh : ∀ client id r, turn = .reading client id r → m.records[id]? = some r
  wrote : ∀ id w, turn.writing? id = some w →
    m.retired.contains id = false ∧ m'.retired.contains id = false ∧
      m.records[id]? = w.base ∧ m'.records[id]? = some w.record
  retires : ∀ id, turn.Retires id → m'.retired.contains id = true ∧ m'.records[id]? = none
  kept : ∀ id, ¬ turn.Changes id →
    m'.retired.contains id = m.retired.contains id ∧ m'.records[id]? = m.records[id]?

namespace MemoryStore.Chronicles

variable {m m' : MemoryStore} {turns : List ClientTurn} {turn : ClientTurn} {id : String} {r : Record}

theorem start : ({} : MemoryStore).Chronicles [] where
  records id := by simp [writings]
  retired id := by simp
  linked id := trivial
  read client r := by rintro ⟨id, mem⟩; cases mem
  since before between client id r := by
    intro split
    cases before <;> cases split

/-- What is stored is what was written last. -/
theorem stored (c : m.Chronicles turns) (found : m.records[id]? = some r) :
    m.retired.contains id = false ∧ ∃ w, (writings id turns).getLast? = some w ∧ w.record = r := by
  rw [c.records] at found
  split at found
  · cases found
  · rename_i kept
    exact ⟨Bool.eq_false_of_not_eq_true kept, Option.map_eq_some_iff.1 found⟩

theorem id_eq (c : m.Chronicles turns) (found : m.records[id]? = some r) : r.id = id := by
  obtain ⟨-, w, last, rfl⟩ := c.stored found
  exact id_of_mem_writings (List.mem_of_getLast? last)

/-- **A record with the revision that a client has read is the record that it has read.** -/
theorem eq_of_revision {client : Nat} {base current : Record} (c : m.Chronicles turns)
    (read : HasRead turns client base) (found : m.records[base.id]? = some current)
    (same : current.revision = base.revision) : current = base := by
  obtain ⟨w, mem, rfl⟩ := c.read client base read
  obtain ⟨-, last, isLast, rfl⟩ := c.stored found
  rw [(c.linked _).eq_of_revision (List.mem_of_getLast? isLast) mem same]

section Turn

variable (c : m.Chronicles turns) (takes : m.Takes turn m')
include c takes

theorem linked_concat (id : String) : Linked none (writings id (turns ++ [turn])) := by
  cases writes : turn.writing? id with
  | none =>
    rw [writings_concat_of_none writes]
    exact c.linked id
  | some w =>
    obtain ⟨alive, -, base, -⟩ := takes.wrote id w writes
    rw [writings_concat_of_some writes]
    refine (c.linked id).concat ?_
    rw [← base, c.records, alive, Option.or_none]
    rfl

theorem records_concat (id : String) : m'.records[id]? =
    if m'.retired.contains id then none else (writings id (turns ++ [turn])).getLast?.map Writing.record := by
  cases writes : turn.writing? id with
  | some w =>
    obtain ⟨-, alive, -, stored⟩ := takes.wrote id w writes
    rw [writings_concat_of_some writes, stored, alive, List.getLast?_concat]
    rfl
  | none =>
    rw [writings_concat_of_none writes]
    by_cases gone : turn.Retires id
    · obtain ⟨retired, absent⟩ := takes.retires id gone
      rw [retired, absent]
      rfl
    · have untouched : ¬ turn.Changes id := by
        rintro (⟨w, writes'⟩ | gone')
        · rw [writes] at writes'
          cases writes'
        · exact gone gone'
      obtain ⟨retired, records⟩ := takes.kept id untouched
      rw [retired, records, c.records]

theorem retired_concat (id : String) :
    m'.retired.contains id = true ↔ ∃ earlier ∈ turns ++ [turn], earlier.Retires id := by
  by_cases gone : turn.Retires id
  · exact iff_of_true (takes.retires id gone).1 ⟨turn, List.mem_append_right _ (List.mem_singleton.2 rfl), gone⟩
  · have same : m'.retired.contains id = m.retired.contains id := by
      by_cases changes : turn.Changes id
      · obtain ⟨w, writes⟩ := changes.resolve_right gone
        obtain ⟨alive, alive', -⟩ := takes.wrote id w writes
        rw [alive, alive']
      · exact (takes.kept id changes).1
    rw [same, c.retired]
    simp only [List.mem_append, List.mem_singleton, or_and_right, exists_or, exists_eq_left, gone, or_false]

theorem read_concat {client : Nat} (read : HasRead (turns ++ [turn]) client r) :
    ∃ w ∈ writings r.id (turns ++ [turn]), w.record = r := by
  obtain ⟨id, mem⟩ := read
  rcases List.mem_append.1 mem with before | last
  · obtain ⟨w, mem, same⟩ := c.read client r ⟨id, before⟩
    exact ⟨w, mem_writings_concat mem, same⟩
  · have found := takes.fresh client id r (List.mem_singleton.1 last).symm
    obtain ⟨-, w, isLast, same⟩ := c.stored found
    have mem := List.mem_of_getLast? isLast
    rw [← c.id_eq found] at mem
    exact ⟨w, mem_writings_concat mem, same⟩

/-- What was read is no longer stored after a turn that changes something under its identifier: what is written now has
a revision above all that could be read before. -/
theorem records_ne_of_changes {client : Nat} (read : ClientTurn.reading client id r ∈ turns)
    (changes : turn.Changes id) : m'.records[id]? ≠ some r := by
  intro found
  rcases changes with ⟨w, writes⟩ | gone
  · obtain ⟨-, -, -, stored⟩ := takes.wrote id w writes
    rw [stored] at found
    cases found
    obtain ⟨w', mem, same⟩ := c.read client _ ⟨id, read⟩
    rw [ClientTurn.id_of_writing? writes] at mem
    have below := (c.linked id).revision_le mem
    have above := (writings_concat_of_some writes ▸ c.linked_concat takes id).revision_concat
    rw [same] at below
    omega
  · rw [(takes.retires id gone).2] at found
    cases found

theorem since_concat {before between : List ClientTurn} {client : Nat}
    (split : turns ++ [turn] = before ++ .reading client id r :: between) :
    m'.records[id]? = some r ↔ ∀ turn ∈ between, ¬ turn.Changes id := by
  rcases List.eq_nil_or_concat between with rfl | ⟨between, last, rfl⟩
  · obtain ⟨-, isRead⟩ := List.append_inj' split rfl
    cases isRead
    rw [(takes.kept id ClientTurn.not_changes_read).2]
    exact iff_of_true (takes.fresh client id r rfl) fun turn mem => absurd mem List.not_mem_nil
  · rw [List.concat_eq_append] at split ⊢
    rw [← List.cons_append, ← List.append_assoc] at split
    obtain ⟨earlier, isLast⟩ := List.append_inj' split rfl
    cases isLast
    by_cases changes : turn.Changes id
    · have read : ClientTurn.reading client id r ∈ turns := earlier ▸ List.mem_append_right _ List.mem_cons_self
      refine iff_of_false (c.records_ne_of_changes takes read changes) fun still => ?_
      exact still turn (List.mem_append_right _ (List.mem_singleton.2 rfl)) changes
    · rw [(takes.kept id changes).2, c.since before between client id r earlier]
      simp only [List.mem_append, List.mem_singleton, or_imp, forall_and, forall_eq, changes, not_false_eq_true,
        and_true]

/-- One turn more. -/
theorem concat : m'.Chronicles (turns ++ [turn]) where
  records := c.records_concat takes
  retired := c.retired_concat takes
  linked := c.linked_concat takes
  read _ _ := c.read_concat takes
  since _ _ _ _ _ := c.since_concat takes

end Turn

end MemoryStore.Chronicles

section Requests

variable {m : MemoryStore}

/-- Neither a refused call nor a call on another identifier touches a record. -/
theorem MemoryStore.records_perform_of_frame {call : ClientCall} {id : String}
    (frame : call.request.id ≠ id ∨ ∃ e, (m.perform call.request).1 = .error e) :
    (m.perform call.request).2.records[id]? = m.records[id]? := by
  cases call with
  | read other => rfl
  | retire other =>
    have done : m.perform (ClientCall.retire other).request = _ := perform_retire other
    rw [done] at frame ⊢
    rcases frame with ne | ⟨e, refused⟩
    · exact (records_retiring other id).trans (if_neg ne)
    · cases refused
  | insert container =>
    rcases insert_cases m (.first container) with ⟨-, -, done⟩ | ⟨e, done⟩
    · have done : m.perform (ClientCall.insert container).request = _ := done
      rw [done] at frame ⊢
      rcases frame with ne | ⟨e, refused⟩
      · exact records_put_of_ne ne
      · cases refused
    · have done : m.perform (ClientCall.insert container).request = _ := done
      rw [done]
  | update base container =>
    rcases update_cases m (base.next container) base.revision with
      ⟨-, -, -, done⟩ | ⟨-, e, done⟩
    · have done : m.perform (ClientCall.update base container).request = _ := done
      rw [done] at frame ⊢
      rcases frame with ne | ⟨e, refused⟩
      · exact records_put_of_ne ne
      · cases refused
    · have done : m.perform (ClientCall.update base container).request = _ := done
      rw [done]

end Requests

namespace MemoryStore.Chronicles

variable {m : MemoryStore} {turns : List ClientTurn} {client : Nat} {call : ClientCall}

/-- A call that is refused is remembered, and that is all. -/
theorem refused (c : m.Chronicles turns) (client : Nat) (call : ClientCall) (e : StoreError) :
    m.Chronicles (turns ++ [⟨client, call, .error e⟩]) := by
  have same : ∀ id, ¬ ClientTurn.Changes ⟨client, call, .error e⟩ id := by
    rintro id (⟨w, wrote⟩ | ⟨client, existed, retires⟩)
    · cases call <;> cases wrote
    · cases retires
  refine c.concat ⟨?_, fun id w wrote => absurd (.inl ⟨w, wrote⟩) (same id),
    fun id retires => absurd (.inr retires) (same id), fun id _ => ⟨rfl, rfl⟩⟩
  intro client id r isRead
  cases isRead

/-- A record put where it belongs. -/
theorem put {answer : Except StoreError call.request.Answer} {w : Writing} (c : m.Chronicles turns)
    (writes : ∀ id, ClientTurn.writing? id ⟨client, call, answer⟩ = if w.record.id = id then some w else none)
    (alive : m.retired.contains w.record.id = false) (base : m.records[w.record.id]? = w.base) :
    (m.put w.record).Chronicles (turns ++ [⟨client, call, answer⟩]) := by
  have writes_self := writes w.record.id
  rw [if_pos rfl] at writes_self
  apply c.concat
  constructor
  case fresh =>
    intro client id r isRead
    cases isRead
    cases writes_self
  case wrote =>
    intro id w' wrote
    rw [writes] at wrote
    obtain ⟨rfl, same⟩ := Option.ite_none_right_eq_some.1 wrote
    cases same
    exact ⟨alive, alive, base, records_put_self _⟩
  case retires =>
    rintro id ⟨client, existed, retires⟩
    cases retires
    cases writes_self
  case kept =>
    intro id untouched
    refine ⟨rfl, records_put_of_ne fun same => untouched (.inl ⟨w, ?_⟩)⟩
    rw [writes, if_pos same]

/-- Reading leaves everything as it is. -/
theorem takes_read (m : MemoryStore) (client : Nat) (id : String) :
    m.Takes ⟨client, .read id, .ok m.records[id]?⟩ m := by
  constructor
  case fresh =>
    intro other id' r isRead
    injection isRead with _ asked given
    cases asked
    exact Except.ok.inj given
  case wrote =>
    intro id' w wrote
    cases wrote
  case retires =>
    rintro id' ⟨other, existed, retires⟩
    cases retires
  case kept => exact fun _ _ => ⟨rfl, rfl⟩

/-- Giving up one identifier leaves the others alone. -/
theorem takes_retire (m : MemoryStore) (client : Nat) (id : String) (existed : Bool) :
    m.Takes ⟨client, .retire id, .ok existed⟩ (m.retiring id) := by
  constructor
  case fresh =>
    intro other id' r isRead
    cases isRead
  case wrote =>
    intro id' w wrote
    cases wrote
  case retires =>
    rintro id' ⟨other, existed, retires⟩
    cases retires
    exact ⟨by simp [retiring], by rw [records_retiring, if_pos rfl]⟩
  case kept =>
    intro other untouched
    have ne : id ≠ other := by
      rintro rfl
      exact untouched (.inr ⟨client, existed, rfl⟩)
    exact ⟨by simp [retiring, Std.ExtTreeSet.contains_insert, ne], by rw [records_retiring, if_neg ne]⟩

/-- Whatever a client asks for, the store goes on holding what was written last. -/
theorem perform {answer : Except StoreError call.request.Answer} {m' : MemoryStore} (c : m.Chronicles turns)
    (grounded : call.Grounded turns client) (performs : m.perform call.request = (answer, m')) :
    m'.Chronicles (turns ++ [⟨client, call, answer⟩]) := by
  cases call with
  | read id =>
    have done : m.perform (.read id) = (.ok m.records[id]?, m) := rfl
    obtain ⟨rfl, rfl⟩ := Prod.mk.inj (done.symm.trans performs)
    exact c.concat (takes_read m client id)
  | retire id =>
    obtain ⟨rfl, rfl⟩ := Prod.mk.inj ((perform_retire id).symm.trans performs)
    exact c.concat (takes_retire m client id _)
  | insert container =>
    rcases insert_cases m (.first container) with ⟨absent, alive, done⟩ | ⟨e, done⟩
    · obtain ⟨rfl, rfl⟩ := Prod.mk.inj (done.symm.trans performs)
      exact c.put (w := ⟨none, container⟩) (fun id => rfl) alive absent
    · obtain ⟨rfl, rfl⟩ := Prod.mk.inj (done.symm.trans performs)
      exact c.refused client (.insert container) e
  | update base container =>
    obtain ⟨read, same⟩ := grounded
    have own : (base.next container).id = base.id := same
    rcases update_cases m (base.next container) base.revision with
      ⟨current, found, revision, done⟩ | ⟨-, e, done⟩
    · obtain ⟨rfl, rfl⟩ := Prod.mk.inj (done.symm.trans performs)
      have still : m.records[(base.next container).id]? = some base := by
        rw [own] at found ⊢
        rw [found, c.eq_of_revision read found revision]
      exact c.put (w := ⟨some base, container⟩) (fun id => rfl) (c.stored still).1 still
    · obtain ⟨rfl, rfl⟩ := Prod.mk.inj (done.symm.trans performs)
      exact c.refused client (.update base container) e

end MemoryStore.Chronicles

/-! ### Both kinds of store -/

namespace Store

/-- The store answers as this store in memory: it is that store, or a directory that shows it. -/
def Shows : Store → MemoryStore → Prop
  | memory m', m => m' = m
  | directory d, m => d.Shows m

section

variable {s s' : Store} {m : MemoryStore} {call : StoreCall} {answer : Except StoreError call.Answer}

theorem Shows.read (shows : s.Shows m) (id : String) : s.read id = .ok m.records[id]? := by
  cases s with
  | memory m' => cases shows; rfl
  | directory d => exact Directory.Shows.readFile shows id

/-- A store without room for a record says so and stays as it is. -/
theorem perform_of_full {r : Record} (brought : call.record? = some r) (full : ¬ s.HasRoomFor r) :
    s.perform call = (.error .tooLarge, s) := by
  cases s with
  | memory m => exact absurd trivial full
  | directory d =>
    have large : r.frame? = none := if_neg full
    cases call with
    | insert r' =>
      cases brought
      change (let (answer, d) := d.insert r; (answer, Store.directory d)) = _
      rw [Directory.insert, large]
    | update r' expected =>
      cases brought
      change (let (answer, d) := d.update r expected; (answer, Store.directory d)) = _
      rw [Directory.update, large]
    | read | delete | retire | isRetired | ids | «exists» => cases brought

/-- A store with room for what it is brought answers as the store in memory that it shows, and goes on showing it. -/
theorem Shows.perform (shows : s.Shows m) (expresses : ∀ r ∈ call.record?, s.Expresses r)
    (room : ∀ r ∈ call.record?, s.HasRoomFor r) :
    (s.perform call).1 = (m.perform call).1 ∧ (s.perform call).2.Shows (m.perform call).2 := by
  cases s with
  | memory m' =>
    cases shows
    exact ⟨rfl, rfl⟩
  | directory d =>
    exact Directory.Shows.perform shows fun r brought =>
      ⟨(expresses r brought).1, (expresses r brought).2, room r brought⟩

end

end Store

/-- What clients that share a store rely on after these turns. -/
structure Store.KeepsUpdates (s : Store) (turns : List ClientTurn) : Prop where
  granted_iff : ∀ client base (container : Container), HasRead turns client base → container.id = base.id →
    s.Expresses (base.next container) → s.HasRoomFor (base.next container) →
    ((s.perform (.update (base.next container) base.revision)).1 = .ok () ↔ s.read base.id = .ok (some base))
  still_iff : ∀ before between client base, turns = before ++ .reading client base.id base :: between →
    (s.read base.id = .ok (some base) ↔ ∀ turn ∈ between, ¬ turn.Changes base.id)
  linked : ∀ id, Linked none (writings id turns)
  revisions : ∀ id, (writings id turns).map (·.record.revision) = List.range' 1 (writings id turns).length
  stored : ∀ id, (∀ turn ∈ turns, ¬ turn.Retires id) →
    s.read id = .ok ((writings id turns).getLast?.map Writing.record)
  given_up : ∀ id, (∃ turn ∈ turns, turn.Retires id) → s.read id = .ok none
  frame : ∀ (call : ClientCall) id, (∀ r ∈ call.request.record?, s.Expresses r) →
    call.request.id ≠ id ∨ (∃ e, (s.perform call.request).1 = .error e) →
    (s.perform call.request).2.read id = s.read id

namespace Store

variable {start s : Store} {turns : List ClientTurn}

/-- A store that was never used. -/
def IsNew : Store → Prop
  | memory m => m = {}
  | directory d => d.files = ∅

theorem IsNew.shows (new : s.IsNew) : s.Shows {} := by
  cases s with
  | memory m => exact new
  | directory d =>
    have empty : d = { path := d.path } := congrArg (fun files => Directory.mk d.path files) new
    exact empty ▸ Directory.shows_empty d.path

theorem Attends.shows (attends : start.Attends turns s) (new : start.IsNew) :
    ∃ m, s.Shows m ∧ m.Chronicles turns := by
  induction attends with
  | start => exact ⟨{}, new.shows, .start⟩
  | @turn turns s client call answer attends grounded expresses answers ih =>
    obtain ⟨m, shows, chronicles⟩ := ih
    by_cases room : ∀ r ∈ call.request.record?, s.HasRoomFor r
    · obtain ⟨same, showsNext⟩ := shows.perform expresses room
      exact ⟨_, showsNext, chronicles.perform grounded (Prod.ext (same.symm.trans answers) rfl)⟩
    · simp only [not_forall] at room
      obtain ⟨r, brought, full⟩ := room
      have refused := perform_of_full brought full
      rw [refused] at answers ⊢
      exact ⟨m, shows, answers ▸ chronicles.refused client call .tooLarge⟩

/-- **No update is lost.** Begin with a store of either kind that was never used, and let any number of clients call it in
any order, each replacing only what it has read. A replacement is granted exactly if the stored record is still the one
that its writer read, which is so exactly if no turn since has changed it. What was written under an identifier is one
chain in which each record was derived from the one before it, with the revisions 1, 2, 3 and so on; what is stored is
the last of it, unless the identifier was given up. Calls that are refused and calls on other identifiers change
nothing. -/
theorem Attends.keepsUpdates (attends : start.Attends turns s) (new : start.IsNew) : s.KeepsUpdates turns := by
  obtain ⟨m, shows, c⟩ := attends.shows new
  constructor
  case granted_iff =>
    intro client base container read own expresses room
    have brings : ∀ {P : Record → Prop}, P (base.next container) →
        ∀ r ∈ (StoreCall.update (base.next container) base.revision).record?, P r := by
      rintro P holds r ⟨⟩
      exact holds
    rw [(shows.perform (brings expresses) (brings room)).1, shows.read, Except.ok.injEq]
    have same : (base.next container).id = base.id := own
    rcases MemoryStore.update_cases m (base.next container) base.revision with
      ⟨current, found, revision, done⟩ | ⟨other, e, done⟩
    · rw [same] at found
      rw [done, found, c.eq_of_revision read found revision]
      exact iff_of_true rfl rfl
    · rw [done]
      exact iff_of_false nofun fun still => other base (same ▸ still) rfl
  case still_iff =>
    intro before between client base split
    rw [shows.read, Except.ok.injEq]
    exact c.since before between client base.id base split
  case linked => exact c.linked
  case revisions => exact fun id => (c.linked id).revisions
  case stored =>
    intro id kept
    have alive : m.retired.contains id = false := by
      refine Bool.eq_false_of_not_eq_true fun retired => ?_
      obtain ⟨turn, mem, retires⟩ := (c.retired id).1 retired
      exact kept turn mem retires
    rw [shows.read, c.records, alive]
    rfl
  case given_up =>
    intro id given
    rw [shows.read, c.records, (c.retired id).2 given]
    rfl
  case frame =>
    intro call id expresses frame
    by_cases room : ∀ r ∈ call.request.record?, s.HasRoomFor r
    · obtain ⟨same, showsNext⟩ := shows.perform expresses room
      rw [same] at frame
      rw [shows.read, showsNext.read, MemoryStore.records_perform_of_frame frame]
    · simp only [not_forall] at room
      obtain ⟨r, brought, full⟩ := room
      rw [perform_of_full brought full]

/-- A turn with a record that fits into a file is answered as by the store in memory. -/
theorem turn_of_storable {m : MemoryStore} (run : ∃ s, start.Attends turns s ∧ s.Shows m) (client : Nat)
    (call : ClientCall) (answer : Except StoreError call.request.Answer)
    (grounded : call.Grounded turns client) (storable : ∀ r ∈ call.request.record?, r.Storable)
    (answers : (m.perform call.request).1 = answer) :
    ∃ s, start.Attends (turns ++ [⟨client, call, answer⟩]) s ∧ s.Shows (m.perform call.request).2 := by
  obtain ⟨s, attends, shows⟩ := run
  have expresses : ∀ r ∈ call.request.record?, s.Expresses r := by
    intro r brought
    cases s with
    | memory m => trivial
    | directory d => exact ⟨(storable r brought).named, (storable r brought).representable⟩
  have room : ∀ r ∈ call.request.record?, s.HasRoomFor r := by
    intro r brought
    cases s with
    | memory m => trivial
    | directory d => exact (storable r brought).short
  obtain ⟨same, showsNext⟩ := shows.perform expresses room
  exact ⟨_, attends.turn client call grounded expresses (same.trans answers), showsNext⟩

/-- A container without members. -/
def plainContainer (id parentId : String) : Container :=
  { (plainRecord id 1).container with parentId, memberIds := ∅, pending := [] }

/-- Two clients read the same record and both replace it; the second of them is refused. Then the identifier is given up,
and whoever comes with it again is refused. -/
def race : List ClientTurn :=
  let first : Record := .first (plainContainer "a" "")
  [⟨1, .insert (plainContainer "a" ""), .ok ()⟩, .reading 1 "a" first, .reading 2 "a" first,
    ⟨2, .update first (plainContainer "a" "p"), .ok ()⟩,
    ⟨1, .update first (plainContainer "a" "q"), .error (.revisionMismatch "a" 1 2)⟩,
    ⟨3, .retire "a", .ok true⟩, ⟨2, .insert (plainContainer "a" ""), .error (.alreadyExists "a")⟩]

/-- The clients of the race share a directory. -/
theorem race_keepsUpdates : (directory { path := "store" }).IsNew ∧
    ∃ s, (directory { path := "store" }).Attends race s ∧ s.KeepsUpdates race := by
  have new : (directory { path := "store" }).IsNew := rfl
  have run : ∃ s, (directory { path := "store" }).Attends [] s ∧ s.Shows {} :=
    ⟨_, .start, Directory.shows_empty "store"⟩
  have run := turn_of_storable run 1 (.insert (plainContainer "a" "")) (.ok ()) trivial (by decide +kernel)
    (by decide +kernel)
  have run := turn_of_storable run 1 (.read "a") (.ok (some (.first (plainContainer "a" "")))) trivial nofun
    (by decide +kernel)
  have run := turn_of_storable run 2 (.read "a") (.ok (some (.first (plainContainer "a" "")))) trivial nofun
    (by decide +kernel)
  have run := turn_of_storable run 2 (.update (.first (plainContainer "a" "")) (plainContainer "a" "p")) (.ok ())
    ⟨⟨"a", by simp [ClientTurn.reading]⟩, rfl⟩ (by decide +kernel) (by decide +kernel)
  have run := turn_of_storable run 1 (.update (.first (plainContainer "a" "")) (plainContainer "a" "q"))
    (.error (.revisionMismatch "a" 1 2)) ⟨⟨"a", by simp [ClientTurn.reading]⟩, rfl⟩ (by decide +kernel)
    (by decide +kernel)
  have run := turn_of_storable run 3 (.retire "a") (.ok true) trivial nofun (by decide +kernel)
  obtain ⟨s, attends, -⟩ := turn_of_storable run 2 (.insert (plainContainer "a" ""))
    (.error (.alreadyExists "a")) trivial (by decide +kernel) (by decide +kernel)
  exact ⟨new, s, attends, attends.keepsUpdates new⟩

end Store

end Containment
