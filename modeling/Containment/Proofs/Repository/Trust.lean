/-
Module: Containment.Proofs.Repository.Trust
Purpose: What readers may take from a comparison that found nothing. Comparisons look at identifiers, kinds and order, and
  never at times. So pages then show the members of the record, each once and in the record's order or by
  identifier, but with the times of their rows, and these decide which of them count as new.
Main exports: Member.kinds_filter, SortOrder.kinds_ofMembers, ListOptions.pageOf, Call.verify_silent_listing,
  not_verify_silent_listing_exact
-/
import Containment.Proofs.Repository.Listing

namespace Containment

/-! ### Lists that differ in times at most -/

section Kinds

variable {members members' : List Member}

/-- A filter of kinds does not look at times. -/
theorem Member.kinds_filter (type : Option MemberType) (same : members.map Member.kind = members'.map Member.kind) :
    (members.filter fun m => typePasses type m.type).map Member.kind =
      (members'.filter fun m => typePasses type m.type).map Member.kind := by
  have filtered : ∀ list : List Member, (list.filter fun m => typePasses type m.type).map Member.kind =
      (list.map Member.kind).filter fun kind => typePasses type kind.2 := by
    intro list
    rw [List.filter_map]
    rfl
  rw [filtered, filtered, same]

/-- Of the orders of a listing, only the newest first looks at times. -/
theorem SortOrder.kinds_ofMembers {order : SortOrder} (timeless : order ≠ .newestFirst)
    (same : members.map Member.kind = members'.map Member.kind) :
    (order.ofMembers members).map Member.kind = (order.ofMembers members').map Member.kind := by
  cases order with
  | insertion => exact same
  | newestFirst => exact absurd rfl timeless
  | memberId =>
    have sorted : ∀ list : List Member, (SortOrder.memberId.ofMembers list).map Member.kind =
        (list.map Member.kind).insertionSort fun a b => Text.Utf8.encode a.1 ≤ Text.Utf8.encode b.1 := by
      intro list
      apply List.map_insertionSort
      exact fun a _ b _ => Iff.rfl
    rw [sorted, sorted, same]

/-- Lists with the same identifiers, kinds and times are the same. -/
theorem Member.eq_of_kinds_of_times (kinds : members.map Member.kind = members'.map Member.kind)
    (times : members.map Member.addedAt = members'.map Member.addedAt) : members = members' := by
  induction members generalizing members' with
  | nil => exact (List.map_eq_nil_iff.1 kinds.symm).symm
  | cons m rest ih =>
    cases members' with
    | nil => cases kinds
    | cons m' rest' =>
      obtain ⟨kind, kinds⟩ := List.cons.inj kinds
      obtain ⟨time, times⟩ := List.cons.inj times
      obtain ⟨id, type⟩ := Prod.mk.inj kind
      have first : m = m' := by
        rcases m with ⟨_, _, _⟩
        rcases m' with ⟨_, _, _⟩
        cases id
        cases type
        cases time
        rfl
      rw [first, ih kinds times]

end Kinds

/-- The members on the page that a listing asks for, computed from a membership list. -/
def ListOptions.pageOf (options : ListOptions) (limits : Limits) (members : List Member) : List Member :=
  ((options.sort.ofMembers (members.filter fun m => typePasses options.memberType m.type)).drop options.offset).take
    (limits.pageLimit options.limit)

theorem ListOptions.kinds_pageOf {options : ListOptions} {members members' : List Member}
    (timeless : options.sort ≠ .newestFirst) (limits : Limits)
    (same : members.map Member.kind = members'.map Member.kind) :
    (options.pageOf limits members).map Member.kind = (options.pageOf limits members').map Member.kind := by
  have sorted := SortOrder.kinds_ofMembers timeless (Member.kinds_filter options.memberType same)
  rw [pageOf, pageOf, List.map_take, List.map_drop, sorted, List.map_take, List.map_drop]

namespace Repository

variable {w w' : World} {S : MemoryStore} {lists : Listing} {report : ConsistencyReport}

/-- A comparison that finds nothing has seen rows that repeat every record by identifier and kind. -/
theorem repeatsKinds_of_silent (settings : Settings) (readable : w.store.ReadsAs S) (known : w.index.Lists lists)
    (clean : w.faults = []) (ended : (Call.verify.program settings).run none w = (.ok (.report report), w'))
    (silent : report.divergences = []) : w' = w ∧ w.index.RepeatsKinds S := by
  obtain ⟨_, _, compared, rfl, found⟩ := (succeeds_verify readable known clean).answers Reply.report
  obtain ⟨told, rfl⟩ := Prod.mk.inj (ended.symm.trans compared)
  obtain rfl := Reply.report.inj (Except.ok.inj told)
  refine ⟨rfl, (none_real_iff known).1 fun d real => ?_⟩
  have there := (found d).2 real
  rw [silent] at there
  cases there

end Repository

/-- **What a comparison that finds nothing vouches for.** Take any store of valid records that can be read, and an index
in memory in any state that its own requests lead to, and suppose that a comparison finds nothing. Then every stored
container has rows that repeat its members by identifier and kind, in their order. Whatever a page of the container is
asked for, it is answered: its total is the number of members in the record that pass the filter, and its entries are
the page computed from the record's members, each with the time of its row for its own. In the order of insertion
and by identifier these are the record's members by identifier and kind, and if the rows have the times of the
record, pages in every order are those of the record, times included. -/
theorem Call.verify_silent_listing (settings : Settings) {w w' : World} {S : MemoryStore}
    (readable : w.store.ReadsAs S) {calls : List IndexCall} (reached : w.index = Index.empty.after calls)
    (clean : w.faults = []) {report : ConsistencyReport}
    (ended : (Call.verify.program settings).run none w = (.ok (.report report), w'))
    (silent : report.divergences = []) {id : String} {r : Record} (stored : S.records[id]? = some r) :
    ∃ rows, w'.index.rows id = .ok rows ∧ (rows.Pairwise fun a b => a.seq < b.seq) ∧
      rows.map IndexEntry.kind = r.container.members.map Member.kind ∧
      ∀ options : ListOptions, ∃ page,
        ((Call.listMembers id options).program settings).run none w' = (.ok (.page page), w') ∧
        page.total = (r.container.members.filter fun m => typePasses options.memberType m.type).length ∧
        page.offset = options.offset ∧ page.limit = settings.limits.pageLimit options.limit ∧
        (∀ entry ∈ page.entries, entry.containerId = id) ∧
        page.entries.map IndexEntry.toMember = options.pageOf settings.limits (rows.map IndexEntry.toMember) ∧
        (options.sort ≠ .newestFirst → page.entries.map IndexEntry.kind =
          (options.pageOf settings.limits r.container.members).map Member.kind) ∧
        (rows.map IndexEntry.insertedAt = r.container.members.map Member.addedAt →
          page.entries.map IndexEntry.toMember = options.pageOf settings.limits r.container.members) := by
  obtain ⟨lists, known⟩ := Index.lists_empty.after calls
  rw [← reached] at known
  obtain ⟨rfl, repeated⟩ := Repository.repeatsKinds_of_silent settings readable known clean ended silent
  obtain ⟨rows, shown, ordered, kinds⟩ := repeated.rows id r stored
  obtain ⟨m, kept, wf, -⟩ := known
  rw [kept] at shown
  obtain ⟨p, found, rfl⟩ := wf.exists_partition shown
  obtain ⟨held, keeps, there⟩ := wf.keeps_partition found
  have distinct : ((p.entries.map IndexEntry.toMember).map Member.id).Nodup := by
    rw [List.map_map]
    exact (wf id p found).distinct
  have seen : (p.entries.map IndexEntry.toMember).map Member.kind = r.container.members.map Member.kind := by
    rw [List.map_map]
    exact kinds
  refine ⟨p.entries, kept ▸ shown, ordered, kinds, fun options => ?_⟩
  obtain ⟨_, _, answered, rfl, rfl⟩ :=
    (Repository.succeeds_listMembers clean (kept ▸ keeps) there settings.limits options).answers Reply.page
  have entries : (MemberPage.ofRows settings.limits options p.entries).entries.map IndexEntry.toMember =
      options.pageOf settings.limits (p.entries.map IndexEntry.toMember) := by
    rw [Repository.entries_ofRows, List.map_take, List.map_drop,
      (wf.repeats found).map_matched distinct options]
    rfl
  refine ⟨_, answered, ?_, rfl, rfl, ?_, entries, fun timeless => ?_, fun times => ?_⟩
  · have lengths := congrArg List.length (Member.kinds_filter options.memberType seen)
    rw [List.length_map, List.length_map, ← List.countP_eq_length_filter, List.countP_map] at lengths
    exact lengths
  · intro entry mem
    exact (wf.repeats found).own entry ((options.query (settings.limits.pageLimit options.limit)).mem_of_mem_answer mem)
  · have named := congrArg (List.map Member.kind) entries
    rw [List.map_map] at named
    exact named.trans (ListOptions.kinds_pageOf timeless settings.limits seen)
  · have same : p.entries.map IndexEntry.toMember = r.container.members := by
      apply Member.eq_of_kinds_of_times seen
      rw [List.map_map]
      exact times
    rw [entries, same]

/-- Two documents, the second of them newer. -/
def twoDocuments : MemoryStore :=
  let document (id : String) (ms : Int) : Member := { id, type := .resource, addedAt := Time.Instant.ofMillis ms }
  let record := recordListing "a" []
  { records := Std.ExtTreeMap.ofList
      [("a", { record with container :=
        { record.container with members := [document "b.txt" 1, document "c.txt" 2] } })] }

/-- Requests that list the two documents with the time of the first put off. -/
def twoDocumentsRequests : List IndexCall :=
  let document (id : String) (ms : Int) : Member := { id, type := .resource, addedAt := Time.Instant.ofMillis ms }
  [.createPartition "a", .insert "a" (document "b.txt" 3), .insert "a" (document "c.txt" 2)]

/-- The world with these documents and rows. -/
def twoDocumentsWorld : World :=
  { (default : World) with store := .memory twoDocuments, index := Index.empty.after twoDocumentsRequests }

theorem twoDocuments_silent :
    ∃ report, ((Call.verify.program {}).run none twoDocumentsWorld) = (.ok (.report report), twoDocumentsWorld) ∧
      report.divergences = [] := by
  have readable : twoDocumentsWorld.store.ReadsAs twoDocuments := Store.readsAs_memory twoDocuments
  obtain ⟨lists, known⟩ := Index.lists_empty.after twoDocumentsRequests
  obtain ⟨report, w', ended, rfl, -⟩ :=
    (Repository.succeeds_verify (w := twoDocumentsWorld) readable known rfl).answers Reply.report
  have silent : ((Call.verify.program {}).run none twoDocumentsWorld).1.toOption.map (fun reply =>
      match reply with | .report report => report.divergences.length | _ => 1) = some 0 := by
    decide +kernel
  have ended : (Call.verify.program {}).run none twoDocumentsWorld = _ := ended
  rw [ended] at silent
  exact ⟨report, ended, List.eq_nil_of_length_eq_zero (Option.some.inj silent)⟩

theorem twoDocuments_record : ∃ r, twoDocuments.records["a"]? = some r ∧ r.container.members =
    [{ id := "b.txt", type := .resource, addedAt := Time.Instant.ofMillis 1 },
      { id := "c.txt", type := .resource, addedAt := Time.Instant.ofMillis 2 }] := by
  have read : twoDocuments.records["a"]?.map (fun r => r.container.members) =
      some [{ id := "b.txt", type := .resource, addedAt := Time.Instant.ofMillis 1 },
        { id := "c.txt", type := .resource, addedAt := Time.Instant.ofMillis 2 }] := by
    decide +kernel
  exact Option.map_eq_some_iff.1 read

theorem twoDocuments_by_name :
    ∃ r report, twoDocumentsWorld.store.ReadsAs twoDocuments ∧
      twoDocumentsWorld.index = Index.empty.after twoDocumentsRequests ∧ twoDocumentsWorld.faults = [] ∧
      (Call.verify.program {}).run none twoDocumentsWorld = (.ok (.report report), twoDocumentsWorld) ∧
      report.divergences = [] ∧ twoDocuments.records["a"]? = some r ∧
      ∃ page, ((Call.listMembers "a" { sort := .memberId }).program {}).run none twoDocumentsWorld =
          (.ok (.page page), twoDocumentsWorld) ∧
        page.entries.map IndexEntry.memberId = ["b.txt", "c.txt"] := by
  obtain ⟨report, ended, silent⟩ := twoDocuments_silent
  obtain ⟨r, stored, members⟩ := twoDocuments_record
  have readable : twoDocumentsWorld.store.ReadsAs twoDocuments := Store.readsAs_memory twoDocuments
  obtain ⟨rows, -, -, -, pages⟩ := Call.verify_silent_listing {} readable rfl rfl ended silent stored
  obtain ⟨page, answered, -, -, -, -, -, kinds, -⟩ := pages { sort := .memberId }
  have kinds := kinds SortOrder.noConfusion
  rw [members] at kinds
  have names := congrArg (List.map Prod.fst) kinds
  rw [List.map_map] at names
  exact ⟨r, report, readable, rfl, rfl, ended, silent, stored, page, answered, names.trans (by decide +kernel)⟩

/-- So a comparison that finds nothing does not vouch for times: rows with other times than the record's go unnoticed, and
its members are listed with them. -/
theorem not_verify_silent_listing_exact :
    ¬ ∀ {w : World} {S : MemoryStore} {calls : List IndexCall} {report : ConsistencyReport},
      w.store.ReadsAs S →
      (∀ (id : String) (r : Record), S.records[id]? = some r → Container.validate r.container = .ok ()) →
      w.index = Index.empty.after calls → w.faults = [] →
      (Call.verify.program {}).run none w = (.ok (.report report), w) → report.divergences = [] →
      ∀ (id : String) (r : Record), S.records[id]? = some r → ∀ options : ListOptions, ∃ page,
        ((Call.listMembers id options).program {}).run none w = (.ok (.page page), w) ∧
          page.entries.map IndexEntry.toMember = options.pageOf {} r.container.members := by
  intro exact_pages
  obtain ⟨report, ended, silent⟩ := twoDocuments_silent
  obtain ⟨r, stored, members⟩ := twoDocuments_record
  have each : ∀ entry ∈ twoDocuments.records.toList, Container.validate entry.2.container = .ok () := by
    decide +kernel
  have valid : ∀ (id : String) (r : Record), twoDocuments.records[id]? = some r →
      Container.validate r.container = .ok () := by
    intro id r stored
    exact each (id, r) (Std.ExtTreeMap.mem_toList_iff_getElem?_eq_some.2 stored)
  have readable : twoDocumentsWorld.store.ReadsAs twoDocuments := Store.readsAs_memory twoDocuments
  have indexed : twoDocumentsWorld.index = Index.empty.after twoDocumentsRequests := rfl
  obtain ⟨page, answered, entries⟩ := exact_pages readable valid indexed rfl ended silent "a" r stored {}
  have listed : (((Call.listMembers "a" {}).program {}).run none twoDocumentsWorld).1.toOption.map
      (fun reply => match reply with | .page page => page.entries.map IndexEntry.toMember | _ => []) =
        some [{ id := "b.txt", type := .resource, addedAt := Time.Instant.ofMillis 3 },
          { id := "c.txt", type := .resource, addedAt := Time.Instant.ofMillis 2 }] := by
    decide +kernel
  rw [answered] at listed
  rw [members] at entries
  have same := entries.symm.trans (Option.some.inj listed)
  exact absurd same (by decide +kernel)

end Containment
