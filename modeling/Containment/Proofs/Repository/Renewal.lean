/-
Module: Containment.Proofs.Repository.Renewal
Purpose: What readers see of rows that are written anew though they were right. Their numbers are new, and nothing else
  is. Pages and counts stay the same but for these numbers, and so does what a cursor yields that has not begun or
  counts rows. A cursor in insertion order that has begun remembers a number, and all new numbers are above it: it
  begins again with the first row, and yields once more what it had yielded.
Main exports: World.ReadsAlike, World.Offers.readsAlike, Repository.succeeds_renewal, Call.renewal_restarts_cursors
-/
import Containment.Proofs.Cursor.Numbers
import Containment.Proofs.Repository.Arising
import Containment.Proofs.Repository.Reading

namespace Containment

open IndexEntry

/-- A page without the numbers of its rows. -/
def MemberPage.unnumbered (page : MemberPage) : MemberPage :=
  { page with entries := page.entries.map IndexEntry.unnumbered }

/-- Readers of a container get the same in two worlds, but for the numbers of rows. -/
structure World.ReadsAlike (settings : Settings) (c : String) (w w' : World) : Prop where
  record : ∃ found, ((Call.get c).program settings).run none w = (.ok (.container found), w) ∧
    ((Call.get c).program settings).run none w' = (.ok (.container found), w')
  counts : ∀ type, ∃ n, ((Call.countMembers c type).program settings).run none w = (.ok (.count n), w) ∧
    ((Call.countMembers c type).program settings).run none w' = (.ok (.count n), w')
  pages : ∀ options, ∃ page page',
    ((Call.listMembers c options).program settings).run none w = (.ok (.page page), w) ∧
    ((Call.listMembers c options).program settings).run none w' = (.ok (.page page'), w') ∧
    page'.unnumbered = page.unnumbered
  drains : ∀ (cursor : Cursor) (batches : Nat), cursor.container = c → ¬ cursor.IsNumbered → ∃ entries entries',
    (Repository.drainWithin batches cursor).run.run none w = (.ok entries, w) ∧
    (Repository.drainWithin batches cursor).run.run none w' = (.ok entries', w') ∧
    entries'.map unnumbered = entries.map unnumbered

/-- A world with this record of a container, and with rows for it that repeat these members. -/
structure World.Offers (w : World) (c : String) (r : Record) (members : List Member) (rows : List IndexEntry) :
    Prop where
  clean : w.faults = []
  stored : ∃ S, w.store.ReadsAs S ∧ S.records[c]? = some r
  kept : ∃ held, w.index.Keeps held ∧ held[c]? = some rows
  repeats : Repeats c members rows

namespace World.Offers

variable {w w' : World} {c : String} {r : Record} {members : List Member} {rows rows' : List IndexEntry}

theorem drain (offers : w.Offers c r members rows) {cursor : Cursor} (own : cursor.container = c) (batches : Nat) :
    (Repository.drainWithin batches cursor).run.run none w = (.ok (cursor.drained batches rows), w) := by
  obtain ⟨held, keeps, found⟩ := offers.kept
  subst own
  obtain ⟨_, _, ended, rfl, rfl⟩ := Repository.succeeds_drainWithin offers.clean keeps found batches
  exact ended

theorem readsAlike (offers : w.Offers c r members rows) (offers' : w'.Offers c r members rows')
    (valid : r.container.Valid) (settings : Settings) : w.ReadsAlike settings c w' := by
  obtain ⟨held, keeps, found⟩ := offers.kept
  obtain ⟨held', keeps', found'⟩ := offers'.kept
  constructor
  · obtain ⟨S, readable, stored⟩ := offers.stored
    obtain ⟨S', readable', stored'⟩ := offers'.stored
    obtain ⟨got, _, ended, hydrated, rfl⟩ :=
      (Repository.succeeds_get readable offers.clean stored valid).answers Reply.container
    obtain ⟨got', _, ended', hydrated', rfl⟩ :=
      (Repository.succeeds_get readable' offers'.clean stored' valid).answers Reply.container
    obtain rfl : got = got' := Except.ok.inj (hydrated.symm.trans hydrated')
    exact ⟨got, ended, ended'⟩
  · intro type
    obtain ⟨_, _, ended, rfl, rfl⟩ :=
      (Repository.succeeds_countMembers offers.clean keeps found type).answers Reply.count
    obtain ⟨_, _, ended', rfl, rfl⟩ :=
      (Repository.succeeds_countMembers offers'.clean keeps' found' type).answers Reply.count
    rw [offers.repeats.countP offers'.repeats] at ended'
    exact ⟨_, ended, ended'⟩
  · intro options
    obtain ⟨_, _, ended, rfl, rfl⟩ :=
      (Repository.succeeds_listMembers offers.clean keeps found settings.limits options).answers Reply.page
    obtain ⟨_, _, ended', rfl, rfl⟩ :=
      (Repository.succeeds_listMembers offers'.clean keeps' found' settings.limits options).answers Reply.page
    refine ⟨_, _, ended, ended', ?_⟩
    simp only [MemberPage.unnumbered, MemberPage.ofRows, offers.repeats.countP offers'.repeats,
      offers.repeats.answer offers'.repeats]
  · intro cursor batches own unnumbered
    have same := offers.repeats.drained offers'.repeats unnumbered batches
    exact ⟨_, _, offers.drain own batches, offers'.drain own batches, same⟩

end World.Offers

namespace MemoryIndex

variable {m m' : MemoryIndex} {c : String} {p : Partition}

theorem Rewritten.wellFormed {lists : Listing} {done : List String} (wf : m.WellFormed)
    (rewritten : m.Rewritten lists done m') : m'.WellFormed := by
  intro id p found
  by_cases written : id ∈ done
  · have carried := rewritten.carries id written
    cases meant : lists id with
    | none =>
      rw [meant, Carries, found] at carried
      cases carried
    | some members =>
      rw [meant] at carried
      obtain ⟨q, there, own, -⟩ := carried
      rw [found] at there
      cases there
      exact own
  · rw [rewritten.others id written] at found
    exact (wf id p found).mono rewritten.later

/-- The rows of a partition in memory repeat its members. -/
theorem WellFormed.repeats (wf : m.WellFormed) (found : m.partitions[c]? = some p) : Repeats c p.members p.entries := by
  have own := wf c p found
  constructor
  · exact own.entries_sorted
  · intro row mem
    exact (own.row row.seq row (own.mem_entries.1 mem)).2.2
  · rfl

theorem WellFormed.keeps_partition (wf : m.WellFormed) (found : m.partitions[c]? = some p) :
    ∃ held, (Index.memory m).Keeps held ∧ held[c]? = some p.entries := by
  refine ⟨m.catalogue, .memory wf, ?_⟩
  rw [getElem?_catalogue, found]
  rfl

/-- Rows that are shown are those of a partition. -/
theorem WellFormed.exists_partition (wf : m.WellFormed) {rows : List IndexEntry}
    (shown : (Index.memory m).rows c = .ok rows) : ∃ p, m.partitions[c]? = some p ∧ p.entries = rows := by
  cases found : m.partitions[c]? with
  | none =>
    simp only [Index.rows, Index.perform, perform, ask, found] at shown
    cases shown
  | some p =>
    obtain ⟨held, keeps, listed⟩ := wf.keeps_partition found
    exact ⟨p, rfl, Except.ok.inj ((keeps.rows listed).symm.trans shown)⟩

end MemoryIndex

namespace Repository

variable {w : World} {S : MemoryStore} {m : MemoryIndex} {c : String} {r : Record}

/-- One partition or all of them are written anew, and the one of `c` in particular. -/
theorem succeeds_renewal (settings : Settings) (readable : w.store.ReadsAs S) (clean : w.faults = [])
    (kept : w.index = .memory m) (wf : m.WellFormed)
    (valid : ∀ (id : String) (r : Record), S.records[id]? = some r → r.container.Valid)
    (stored : S.records[c]? = some r) {call : Call} (asked : call = .rebuild c ∨ call = .rebuildAll) :
    ∃ reply m', (call.program settings).run none w = (.ok reply, { w with index := .memory m' }) ∧ m'.WellFormed ∧
      ∃ p, m'.partitions[c]? = some p ∧ p.members = r.container.members ∧ ∀ row ∈ p.entries, m.lastSeq < row.seq := by
  rcases asked with rfl | rfl
  · obtain ⟨rows, _, ended, -, m', rfl, rewritten⟩ :=
      (succeeds_rebuild readable clean kept stored (valid c r stored)).answers Reply.count
    have carried := rewritten.carries c (List.mem_singleton_self c)
    rw [listing_of_stored stored] at carried
    obtain ⟨p, found, -, members⟩ := carried
    refine ⟨_, m', ended, rewritten.wellFormed wf, p, found, members, ?_⟩
    exact rewritten.fresh c (List.mem_singleton_self c) p found
  · obtain ⟨summary, _, ended, -, m', rfl, renewed⟩ :=
      (succeeds_rebuildAll readable clean kept valid).answers Reply.summary
    obtain ⟨_, ⟨rfl⟩, wf', -⟩ := MemoryIndex.lists_of_carries renewed.carries
    have carried := renewed.carries c
    rw [listing_of_stored stored] at carried
    obtain ⟨p, found, -, members⟩ := carried
    exact ⟨_, m', ended, wf', p, found, members, renewed.fresh c p found⟩

end Repository

/-- **Rows that are right and written anew keep all but their numbers, and cursors that remember one start over.** Take
any state that calls lead to, and a container whose rows repeat its members. Let one call write its partition anew,
or all of them, undisturbed. The call succeeds, and readers get the same afterwards but for the numbers of rows: the
same record, counts, pages, and the same of every cursor that remembers no number. But a cursor in insertion order
that remembers a number given out before, such as that of a row there, goes on as if it were back at the first row. -/
theorem Call.renewal_restarts_cursors {settings : Settings} {h : Holdings} {w : World} {c : String} {r : Record}
    {m : MemoryIndex} {rows : List IndexEntry} {call : Call} (arises : h.Arises settings) (serves : w.Serves h)
    (stored : h.store.records[c]? = some r) (kept : h.index = .memory m) (shown : h.index.rows c = .ok rows)
    (agrees : rows.map toMember = r.container.members) (asked : call = .rebuild c ∨ call = .rebuildAll) :
    ∃ reply w', (call.program settings).run none w = (.ok reply, w') ∧ w.ReadsAlike settings c w' ∧
      (∀ row ∈ rows, row.seq ≤ m.lastSeq) ∧
      ∀ (cursor : Cursor) (seq batches : Nat), cursor.container = c → cursor.options.sort = .insertion →
        cursor.position = .afterSeq seq → seq ≤ m.lastSeq → ∃ entries entries',
          (Repository.drainWithin batches cursor).run.run none w' = (.ok entries', w') ∧
          (Repository.drainWithin batches cursor.restarted).run.run none w = (.ok entries, w) ∧
          entries'.map unnumbered = entries.map unnumbered := by
  obtain ⟨-, _, known, wf, -⟩ := arises.indexed
  obtain rfl : m = _ := Index.memory.inj (kept.symm.trans known)
  have valid : ∀ (id : String) (r : Record), h.store.records[id]? = some r → r.container.Valid :=
    fun id r stored => (arises.sane.record stored).2
  have here : w.index = .memory m := serves.holds.index.trans kept
  obtain ⟨p, found, rfl⟩ := wf.exists_partition (kept ▸ shown)
  obtain ⟨reply, m', ended, wf', p', found', members, fresh⟩ :=
    Repository.succeeds_renewal settings serves.readable serves.clean here wf valid stored asked
  have same : p'.members = p.members := members.trans agrees.symm
  have offers : w.Offers c r p.members p.entries :=
    { clean := serves.clean
      stored := ⟨h.store, serves.readable, stored⟩
      kept := here ▸ wf.keeps_partition found
      repeats := wf.repeats found }
  have offers' : ({ w with index := .memory m' } : World).Offers c r p.members p'.entries :=
    { clean := serves.clean
      stored := ⟨h.store, serves.readable, stored⟩
      kept := wf'.keeps_partition found'
      repeats := same ▸ wf'.repeats found' }
  refine ⟨reply, _, ended, offers.readsAlike offers' (valid c r stored) settings, ?_, ?_⟩
  · intro row mem
    have own := wf c p found
    exact (own.row row.seq row (own.mem_entries.1 mem)).2.1
  · intro cursor seq batches own sorted reached given
    have behind : ∀ row ∈ p'.entries, seq < row.seq := fun row mem => given.trans_lt (fresh row mem)
    have back : cursor.restarted.container = c := own
    refine ⟨_, _, offers'.drain own batches, offers.drain back batches, ?_⟩
    rw [Cursor.drained_of_below sorted reached behind]
    exact offers.repeats.drained offers'.repeats Cursor.not_isNumbered_restarted batches

/-- A container of three documents. -/
def documentCalls : List (Option Cancellation × Call) :=
  [(none, .create (.new "a" "" .basic none)), (none, .addMember "a" "m1.txt"), (none, .addMember "a" "m2.txt"),
    (none, .addMember "a" "m3.txt")]

/-- The world with that container. -/
def documentWorld : World :=
  World.after {} default documentCalls

/-- A cursor that has yielded the first two documents. -/
def twoYielded : Cursor :=
  { Cursor.start {} "a" {} 2 with position := .afterSeq 2, yielded := 2 }

/-- The rows there repeat the members. -/
theorem documentWorld_agrees :
    ∃ h r m rows, h.Arises {} ∧ documentWorld.Serves h ∧ h.store.records["a"]? = some r ∧ h.index = .memory m ∧
      h.index.rows "a" = .ok rows ∧ rows.map toMember = r.container.members ∧ rows.map IndexEntry.seq = [1, 2, 3] := by
  have start : (default : World).Holds {} := ⟨rfl, rfl⟩
  obtain ⟨h, holds, clean, arises⟩ := start.arises_after documentCalls rfl (.empty : Holdings.Arises {} {})
  have serves : documentWorld.Serves h := ⟨holds, clean⟩
  obtain ⟨-, m, kept, -⟩ := arises.indexed
  have numbers : (documentWorld.index.rows "a").map (List.map IndexEntry.seq) = .ok [1, 2, 3] := by
    decide +kernel
  have alike : (documentWorld.store.perform (.read "a")).1.toOption.join.map (fun r => r.container.members) =
      (documentWorld.index.rows "a").toOption.map (List.map toMember) := by
    decide +kernel
  rw [serves.holds.index] at numbers
  obtain ⟨rows, shown, numbers⟩ := exists_ok_of_map numbers
  rw [serves.readable.read, serves.holds.index, shown] at alike
  obtain ⟨r, stored, members⟩ := Option.map_eq_some_iff.1 alike
  exact ⟨h, r, m, rows, arises, serves, stored, kept, shown, members.symm, numbers⟩

theorem documentWorld_renewed :
    ∃ reply w', ((Call.rebuild "a").program {}).run none documentWorld = (.ok reply, w') ∧
      documentWorld.ReadsAlike {} "a" w' ∧
      ∃ entries, (Repository.drainWithin 2 twoYielded).run.run none w' = (.ok entries, w') ∧
        entries.map IndexEntry.memberId = ["m1.txt", "m2.txt", "m3.txt"] := by
  obtain ⟨h, r, m, rows, arises, serves, stored, kept, shown, agrees, numbers⟩ := documentWorld_agrees
  obtain ⟨reply, w', ended, alike, given, cursors⟩ :=
    Call.renewal_restarts_cursors arises serves stored kept shown agrees (.inl rfl)
  have second : 2 ≤ m.lastSeq := by
    have listed : 2 ∈ rows.map IndexEntry.seq := by
      rw [numbers]
      decide
    obtain ⟨row, mem, same⟩ := List.mem_map.1 listed
    exact same ▸ given row mem
  obtain ⟨entries, entries', after, before, unnumbered⟩ := cursors twoYielded 2 2 rfl rfl rfl second
  refine ⟨reply, w', ended, alike, entries', after, ?_⟩
  have yielded : ((Repository.drainWithin 2 twoYielded.restarted).run.run none documentWorld).1.map
      (List.map IndexEntry.memberId) = .ok ["m1.txt", "m2.txt", "m3.txt"] := by
    decide +kernel
  rw [before] at yielded
  have names := congrArg (List.map IndexEntry.memberId) unnumbered
  rw [List.map_map, List.map_map] at names
  exact names.trans (Except.ok.inj yielded)

/-- So writing rows anew that were right is not always unseen: a cursor that has begun may yield again what it had
yielded. -/
theorem not_renewal_unseen :
    ¬ ∀ {h : Holdings} {w w' : World} {c : String} {r : Record} {rows entries entries' : List IndexEntry}
        {cursor : Cursor} {batches : Nat} {reply : Reply}, h.Arises {} → w.Serves h → h.store.records[c]? = some r →
      h.index.rows c = .ok rows → rows.map toMember = r.container.members →
      ((Call.rebuild c).program {}).run none w = (.ok reply, w') → cursor.container = c →
      ((Repository.drainWithin batches cursor).run.run none w).1 = .ok entries →
      ((Repository.drainWithin batches cursor).run.run none w').1 = .ok entries' →
      entries'.map unnumbered = entries.map unnumbered := by
  intro unseen
  obtain ⟨h, r, m, rows, arises, serves, stored, kept, shown, agrees, numbers⟩ := documentWorld_agrees
  have renewal : (((Call.rebuild "a").program {}).run none documentWorld).1.map (fun _ => ()) = .ok () := by
    decide +kernel
  have before : ((Repository.drainWithin 2 twoYielded).run.run none documentWorld).1.map
      (List.map IndexEntry.memberId) = .ok ["m3.txt"] := by
    decide +kernel
  have after : ((Repository.drainWithin 2 twoYielded).run.run none
      (((Call.rebuild "a").program {}).run none documentWorld).2).1.map
      (List.map IndexEntry.memberId) = .ok ["m1.txt", "m2.txt", "m3.txt"] := by
    decide +kernel
  obtain ⟨reply, done, -⟩ := exists_ok_of_map renewal
  obtain ⟨entries, yielded, names⟩ := exists_ok_of_map before
  obtain ⟨entries', yielded', names'⟩ := exists_ok_of_map after
  have same := unseen arises serves stored shown agrees (Prod.ext done rfl) rfl yielded yielded'
  have lengths := congrArg List.length same
  have three := congrArg List.length names'
  have one := congrArg List.length names
  rw [List.length_map] at one three
  rw [List.length_map, List.length_map, one, three] at lengths
  cases lengths

end Containment
