/-
Module: Containment.Proofs.Cli.Repairing
Purpose: Repairs from the command line. Writing the index anew repairs it whatever its rows were. The command that compares
  first and then repairs what it found can repair only what the comparison can read: one row that stands for no entry,
  in the partition of a stored container, ends it before the repair begins.
Main exports: Cli.Desk.Leaves, Cli.Desk.Complains, Cli.Step.run_call, Cli.Command.repair_exact
-/
import Containment.Cli.Run
import Containment.Proofs.Repository.Restoring

namespace Containment.Cli

open Time

/-- The desk after a command that changes the index, and perhaps prints something. -/
def Desk.Leaves (desk : Desk) (x : Step Unit) (ix : Index) : Prop :=
  ∃ printed, x.run desk = (.ok (), { desk with world := { desk.world with index := ix }, printed })

/-- The command ends with a complaint. -/
def Desk.Complains (desk : Desk) (x : Step Unit) : Prop :=
  ∃ complaint later, x.run desk = (.error complaint, later)

namespace Step

variable {α β : Type} {desk desk' : Desk} {action : Action α} {f : α → Step β}

theorem run_bind {x : Step α} {a : α} (first : x.run desk = (.ok a, desk')) : (x >>= f).run desk = (f a).run desk' := by
  change (match x.run desk with
    | (outcome, later) => (ExceptT.bindCont f outcome).run later) = _
  rw [first]
  rfl

theorem run_bind_error {x : Step α} {complaint : Complaint} (first : x.run desk = (.error complaint, desk')) :
    (x >>= f).run desk = (.error complaint, desk') := by
  change (match x.run desk with
    | (outcome, later) => (ExceptT.bindCont f outcome).run later) = _
  rw [first]
  rfl

theorem run_get (desk : Desk) : (get : Step Desk).run desk = (.ok desk, desk) :=
  rfl

/-- A call ends a command just if it fails. -/
theorem run_call {outcome : Except RepositoryError α} {world : World}
    (ended : action.run.run desk.status desk.world = (outcome, world)) :
    (call action).run desk = (outcome.mapError fun e => e.message :: e.causes, { desk with world }) := by
  rw [call, run_bind (run_get desk), ended]
  cases outcome with
  | ok a => rfl
  | error e => rfl

theorem exists_run_call (live : desk.status = none) {P : α → World → Prop} (succeeds : action.Succeeds desk.world P) :
    ∃ a world, P a world ∧ (call action).run desk = (.ok a, { desk with world }) := by
  obtain ⟨a, world, ended, good⟩ := succeeds
  rw [← live] at ended
  exact ⟨a, world, good, run_call ended⟩

/-- A call that fails and leaves everything as it was ends the command there. -/
theorem run_call_declines (live : desk.status = none) {e : RepositoryError} (declines : action.Declines desk.world e) :
    (call action >>= f).run desk = (.error (e.message :: e.causes), desk) := by
  have ended : action.run.run desk.status desk.world = (.error e, desk.world) := by
    rw [live]
    exact declines
  exact run_bind_error (run_call ended)

theorem complains_call {f : α → Step Unit} (live : desk.status = none) {e : RepositoryError}
    (fails : action.Fails desk.world e) : desk.Complains (call action >>= f) := by
  obtain ⟨world, ended⟩ := fails
  rw [← live] at ended
  exact ⟨_, _, run_bind_error (run_call ended)⟩

theorem exists_run_lines (texts : List String) (desk : Desk) :
    ∃ printed, (lines texts).run desk = (.ok (), { desk with printed }) := by
  induction texts generalizing desk with
  | nil => exact ⟨desk.printed, rfl⟩
  | cons text rest ih =>
    obtain ⟨printed, ended⟩ := ih { desk with printed := desk.printed ++ [text] }
    exact ⟨printed, ended⟩

theorem exists_run_present (json : Text.Json) (spread : Bool) (texts : List String) (desk : Desk) :
    ∃ printed, (present json spread texts).run desk = (.ok (), { desk with printed }) := by
  rw [present, run_bind (run_get desk)]
  split
  · exact ⟨_, rfl⟩
  · exact exists_run_lines texts desk

theorem exists_run_done (text : String) (desk : Desk) :
    ∃ printed, (done text).run desk = (.ok (), { desk with printed }) := by
  rw [done, run_bind (run_get desk)]
  split
  · exact ⟨_, rfl⟩
  · exact ⟨desk.printed, rfl⟩

end Step

variable {desk : Desk} {S : MemoryStore} {t : TableIndex} {ix : Index}

open Step

/-- Writing the index anew is a command of its own. -/
theorem leaves_rebuild (live : desk.status = none)
    (restored : Repository.rebuildAll.Succeeds desk.world fun _ w' => w' = { desk.world with index := ix }) :
    desk.Leaves (Command.rebuild none).step ix := by
  obtain ⟨summary, _, rfl, called⟩ := exists_run_call live restored
  have shown : ∀ desk : Desk, ∃ printed, (present summary.toJson true
      [s!"✓ Rebuilt {summary.partitionsRebuilt} partition(s), {summary.rowsWritten} row(s); " ++
        s!"dropped {summary.orphansDropped} orphan partition(s)"]).run desk = (.ok (), { desk with printed }) :=
    exists_run_present _ _ _
  obtain ⟨printed, ended⟩ := shown { desk with world := { desk.world with index := ix } }
  exact ⟨printed, (run_bind called).trans ended⟩

/-- The repair of what a comparison has found. -/
def repairFound : Step Unit := do
  let summary ← call Repository.rebuildAll
  done (s!"Repaired: {summary.partitionsRebuilt} partition(s) rebuilt, " ++
    s!"{summary.orphansDropped} orphan(s) dropped")

/-- A comparison that ends well is followed by the repair, if there is something to repair. -/
theorem repair_cases (live : desk.status = none)
    (compared : Repository.verify.Succeeds desk.world fun report w' => w' = desk.world ∧
      (report.divergences = [] → desk.world.index.RepeatsKinds S)) :
    desk.world.index.RepeatsKinds S ∧ desk.Leaves (Command.verify true).step desk.world.index ∨
      ∃ printed, (Command.verify true).step.run desk = repairFound.run { desk with printed } := by
  obtain ⟨report, _, ⟨rfl, silent⟩, called⟩ := exists_run_call live compared
  have called : (call Repository.verify).run desk = (.ok report, desk) := called
  obtain ⟨printed, shown⟩ : ∃ printed, (showReport report).run desk = (.ok (), { desk with printed }) :=
    exists_run_present _ _ _ _
  have begun : (Command.verify true).step.run desk =
      (if !report.isConsistent then repairFound else pure () : Step Unit).run { desk with printed } :=
    (run_bind called).trans (run_bind shown)
  cases consistent : report.isConsistent with
  | true =>
    rw [consistent] at begun
    exact .inl ⟨silent (List.isEmpty_iff.1 consistent), printed, begun⟩
  | false =>
    rw [consistent] at begun
    exact .inr ⟨printed, begun⟩

theorem leaves_repair (live : desk.status = none)
    (compared : Repository.verify.Succeeds desk.world fun report w' => w' = desk.world ∧
      (report.divergences = [] → desk.world.index.RepeatsKinds S))
    (restored : Repository.rebuildAll.Succeeds desk.world fun _ w' => w' = { desk.world with index := ix }) :
    desk.world.index.RepeatsKinds S ∧ desk.Leaves (Command.verify true).step desk.world.index ∨
      desk.Leaves (Command.verify true).step ix := by
  rcases repair_cases live compared with already | ⟨printed, begun⟩
  · exact .inl already
  · let later : Desk := { desk with printed }
    have live' : later.status = none := live
    have restored' : Repository.rebuildAll.Succeeds later.world fun _ w' => w' = { later.world with index := ix } :=
      restored
    obtain ⟨summary, _, rfl, called⟩ := exists_run_call live' restored'
    obtain ⟨printed', ended⟩ := exists_run_done (s!"Repaired: {summary.partitionsRebuilt} partition(s) rebuilt, " ++
      s!"{summary.orphansDropped} orphan(s) dropped")
      { desk with world := { desk.world with index := ix }, printed }
    exact .inr ⟨printed', begun.trans ((run_bind called).trans ended)⟩

/-- A repair that fails. -/
theorem complains_repair (live : desk.status = none)
    (compared : Repository.verify.Succeeds desk.world fun report w' => w' = desk.world ∧
      (report.divergences = [] → desk.world.index.RepeatsKinds S))
    {e : RepositoryError} (fails : Repository.rebuildAll.Fails desk.world e) :
    desk.world.index.RepeatsKinds S ∨ desk.Complains (Command.verify true).step := by
  rcases repair_cases live compared with already | ⟨printed, begun⟩
  · exact .inl already.1
  · let later : Desk := { desk with printed }
    have live' : later.status = none := live
    have fails' : Repository.rebuildAll.Fails later.world e := fails
    obtain ⟨complaint, last, ended⟩ : later.Complains repairFound := complains_call live' fails'
    exact .inr ⟨complaint, last, begun.trans ended⟩

/-- **The repair repairs what the comparison can read.** Take any store of valid records that can be read, and an index in
a database with any rows at all that its tables permit and with enough numbers left. If a row can tell the time of every
member, then writing the index anew ends well, and the index repeats what is stored. Comparing with a repair does so
too, or finds nothing to repair in an index that lists just the stored members, as long as every row in the partition of
a stored container stands for an entry. If one does not, the command ends with the complaint about such a row, and
nothing is repaired. If there is a member with a time that no row can tell, neither command comes to a good end, unless
there is nothing to repair. -/
theorem Command.repair_exact {desk : Desk} {S : MemoryStore} {t : TableIndex} {last : Nat}
    (readable : desk.world.store.ReadsAs S)
    (valid : ∀ (id : String) (r : Record), S.records[id]? = some r → Container.validate r.container = .ok ())
    (damaged : desk.world.index = .table t) (permitted : t.Permitted last)
    (room : ((last + (S.records.values.map fun r => r.container.members.length).sum : Nat) : Int) ≤ TableIndex.maxSeq)
    (clean : desk.world.faults = []) (live : desk.status = none) :
    ((∀ (id : String) (r : Record), S.records[id]? = some r → ∀ m ∈ r.container.members, m.IsTellable) →
      ∃ ix : Index, ix.RepeatsFloored S ∧ desk.Leaves (Command.rebuild none).step ix ∧
        ((∀ id ∈ S.records, ∀ row ∈ t.rowsOf id, row.Stands) →
          ∃ ix' : Index, desk.Leaves (Command.verify true).step ix' ∧ ix'.RepeatsKinds S ∧
            (ix' = ix ∨ ix' = desk.world.index))) ∧
      ((∃ id ∈ S.records, ∃ row ∈ t.rowsOf id, ¬ row.Stands) →
        ∃ id ∈ S.records, ∃ row ∈ t.rowsOf id, ∃ fault, row.decode = .error (.corrupt fault) ∧
          (Command.verify true).step.run desk =
            (.error [s!"index error: corrupt index row: {fault.message}", s!"corrupt index row: {fault.message}"],
              desk)) ∧
      ((∃ (id : String) (r : Record), S.records[id]? = some r ∧ ∃ m ∈ r.container.members, ¬ m.IsTellable) →
        desk.Complains (Command.rebuild none).step ∧
          (¬ desk.world.index.RepeatsKinds S → desk.Complains (Command.verify true).step)) := by
  have proper : ∀ (id : String) (r : Record), S.records[id]? = some r → r.container.Valid :=
    fun id r stored => Container.validate_eq_ok_iff.1 (valid id r stored)
  have refused : (∃ id ∈ S.records, ∃ row ∈ t.rowsOf id, ¬ row.Stands) → ∃ id row fault,
      Repository.Spoils S t id row fault ∧ Repository.verify.Declines desk.world (.index (.corrupt fault)) :=
    Repository.exists_declines_verify readable clean damaged permitted
  have compared := Repository.succeeds_verify_table readable clean damaged permitted
  refine ⟨?_, ?_, ?_⟩
  · intro told
    obtain ⟨ix, repeats, restored⟩ :=
      Repository.exists_restored readable clean damaged proper told permitted.toNumbered room
    refine ⟨ix, repeats, leaves_rebuild live restored, fun stand => ?_⟩
    rcases leaves_repair live (compared stand) restored with ⟨already, leaves⟩ | leaves
    · exact ⟨desk.world.index, leaves, already, .inr rfl⟩
    · exact ⟨ix, leaves, repeats.repeatsKinds, .inl rfl⟩
  · intro bad
    obtain ⟨id, row, fault, ⟨stored, mem, failed⟩, declines⟩ := refused bad
    exact ⟨id, stored, row, mem, fault, failed, run_call_declines live declines⟩
  · intro far
    obtain ⟨e, fails⟩ :=
      Repository.exists_fails_rebuildAll readable clean damaged proper far permitted.toNumbered room
    refine ⟨complains_call live fails, fun differs => ?_⟩
    by_cases stand : ∀ id ∈ S.records, ∀ row ∈ t.rowsOf id, row.Stands
    · exact (complains_repair live (compared stand) fails).resolve_left differs
    · push Not at stand
      obtain ⟨id, row, fault, -, declines⟩ := refused stand
      exact complains_call live declines.fails

/-- A container with one document. -/
def oneDocument : MemoryStore :=
  { records := Std.ExtTreeMap.ofList [("a", recordListing "a" [("b.txt", .resource)])] }

/-- A table where the document is said to be of a kind that there is not. There is a row for nothing as well, of a time that
there is not. -/
def misnamedTable : TableIndex :=
  let misnamed : TableRow :=
    { seq := 1, containerId := "a", memberId := "b.txt", memberType := "blob", insertedAtMs := 0 }
  let stray : TableRow :=
    { seq := 5, containerId := "g", memberId := "c.txt", memberType := "resource", insertedAtMs := TableIndex.maxSeq }
  { partitions := Std.ExtTreeSet.ofList ["a", "g"]
    rows := Std.ExtTreeMap.ofList [(misnamed.seq, misnamed), (stray.seq, stray)]
    lastSeq := 5 }

/-- A desk with that container and that table. -/
def misnamedDesk : Desk :=
  { world := { (default : World) with store := .memory oneDocument, index := .table misnamedTable }, limits := {} }

theorem misnamedTable_permitted : misnamedTable.Permitted 5 := by
  have each : ∀ entry ∈ misnamedTable.rows.toList, entry.2.seq = entry.1 ∧ entry.1 ≤ 5 := by decide +kernel
  have distinct : (misnamedTable.rows.values.map TableRow.memberId).Nodup := by decide +kernel
  have owned : ∀ row ∈ misnamedTable.rows.values, misnamedTable.partitions.contains row.containerId = true := by
    decide +kernel
  refine ⟨⟨by decide, ?_⟩, ?_, ?_⟩
  · intro n row found
    exact each (n, row) (Std.ExtTreeMap.mem_toList_iff_getElem?_eq_some.2 found)
  · intro c
    exact distinct.sublist (List.filter_sublist.map _)
  · intro c nonempty
    obtain ⟨row, mem⟩ := List.exists_mem_of_ne_nil _ nonempty
    obtain ⟨there, own⟩ := List.mem_filter.1 mem
    exact eq_of_beq own ▸ owned row there

theorem oneDocument_valid (id : String) (r : Record) (stored : oneDocument.records[id]? = some r) :
    Container.validate r.container = .ok () ∧ ∀ m ∈ r.container.members, m.IsTellable := by
  have each : ∀ entry ∈ oneDocument.records.toList, Container.validate entry.2.container = .ok () ∧
      ∀ m ∈ entry.2.container.members, m.IsTellable := by
    decide +kernel
  exact each (id, r) (Std.ExtTreeMap.mem_toList_iff_getElem?_eq_some.2 stored)

theorem misnamedTable_unrepaired :
    ∃ ix : Index, ix.RepeatsFloored oneDocument ∧ misnamedDesk.Leaves (Command.rebuild none).step ix ∧
      ∃ fault : RowFault, (Command.verify true).step.run misnamedDesk =
        (.error [s!"index error: corrupt index row: {fault.message}", s!"corrupt index row: {fault.message}"],
          misnamedDesk) := by
  have readable : misnamedDesk.world.store.ReadsAs oneDocument := Store.readsAs_memory oneDocument
  obtain ⟨rebuilt, refused, -⟩ := Command.repair_exact readable (fun id r stored => (oneDocument_valid id r stored).1)
    rfl misnamedTable_permitted (by decide +kernel) rfl rfl
  obtain ⟨ix, repeats, leaves, -⟩ := rebuilt fun id r stored => (oneDocument_valid id r stored).2
  have fallen : ∃ row ∈ misnamedTable.rowsOf "a", ¬ row.Stands := by decide +kernel
  obtain ⟨-, -, -, -, fault, -, ended⟩ := refused ⟨"a", by decide +kernel, fallen⟩
  exact ⟨ix, repeats, leaves, fault, ended⟩

/-- So not every damage is repaired that writing the index anew would repair. -/
theorem Command.not_repair_all :
    ¬ ∀ {desk : Desk} {S : MemoryStore} {t : TableIndex} {last : Nat},
      desk.world.store.ReadsAs S →
      (∀ (id : String) (r : Record), S.records[id]? = some r → Container.validate r.container = .ok ()) →
      desk.world.index = .table t → t.Permitted last →
      ((last + (S.records.values.map fun r => r.container.members.length).sum : Nat) : Int) ≤ TableIndex.maxSeq →
      desk.world.faults = [] → desk.status = none →
      ∃ ix : Index, desk.Leaves (Command.verify true).step ix ∧ ix.RepeatsKinds S := by
  intro repaired
  have readable : misnamedDesk.world.store.ReadsAs oneDocument := Store.readsAs_memory oneDocument
  obtain ⟨ix, ⟨printed, ended⟩, -⟩ := repaired readable (fun id r stored => (oneDocument_valid id r stored).1)
    rfl misnamedTable_permitted (by decide +kernel) rfl rfl
  have refused : ((Command.verify true).step.run misnamedDesk).1.isOk = false := by decide +kernel
  rw [ended] at refused
  cases refused

end Containment.Cli
