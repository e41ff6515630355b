/-
Module: Containment.Proofs.Repository.Listing
Purpose: Pages of a container against its record. As long as no container is stored together with members that it came
  with, the index repeats every record, so that a page is a window of the record's members in the order asked for,
  and pages read one after the other show each of them once. A container stored with members has pages without them.
Main exports: Call.IsUnfilled, Holdings.ArisesUnfilled, Repository.readPages, Holdings.ArisesUnfilled.listing_exact
-/
import Containment.Proofs.Index.Ordering
import Containment.Proofs.Repository.Clean
import Containment.Proofs.Repository.Renewal
import Containment.Proofs.Repository.Seeding

namespace Containment

open Containment.Action Repository IndexEntry

/-! ### States in which the index repeats every record -/

/-- All calls but the creation of a container that comes with members. -/
def Call.IsUnfilled : Call → Prop
  | .create (.restored s) => s.members = []
  | _ => True

namespace Repository

variable {h : Holdings} {classifier : Classifier} {id : String}

theorem mirrored_addMember {member : String} (sane : h.store.contents.Sane) (right : h.Mirrored) :
    (addMember classifier id member).Keeps h fun h' => h'.store.contents.Sane ∧ h'.Mirrored := by
  intro fails out h' run none
  subst none
  have verdict := ensures_addMember sane _ _ _ run
  refine ⟨?_, verdict.mirrored right⟩
  cases out with
  | ok added =>
    obtain ⟨events, grown, -⟩ := verdict
    exact grown.sane sane
  | error e => exact Kept.sane verdict

theorem mirrored_addMembers (members : List String) (sane : h.store.contents.Sane) (right : h.Mirrored) :
    (addMembers classifier id members).Keeps h fun h' => h'.store.contents.Sane ∧ h'.Mirrored := by
  induction members generalizing h with
  | nil => exact keeps_pure ⟨sane, right⟩ 0
  | cons member rest ih =>
    refine (mirrored_addMember sane right).bind ?_
    intro _ h₁ kept
    refine (ih kept.1 kept.2).bind ?_
    intro count h₂ kept
    exact keeps_pure kept _

end Repository

/-- As long as no request fails, such calls keep an index that repeats every record. -/
theorem Call.keeps_mirrored {settings : Settings} {h : Holdings} {call : Call} (unfilled : call.IsUnfilled)
    (sane : h.store.contents.Sane) (right : h.Mirrored) :
    (call.action settings).Keeps h fun h' => h'.Mirrored := by
  by_cases ordinary : call.IsOrdinary
  · intro fails out h' run none
    have verdict := Call.ensures ordinary sane _ _ _ run
    subst none
    exact verdict.mirrored right
  cases call with
  | create draft => cases draft <;> exact absurd unfilled ordinary
  | addMembers id members => exact ((mirrored_addMembers members sane right).mono fun _ kept => kept.2).map
  | _ => exact absurd trivial ordinary

/-- Calls of any kind, one after the other, lead from an empty repository to this state, each in whatever context, and
none of them creates a container that comes with members. Some may be refused or cancelled, but no request that they
make of the store or the index fails. -/
inductive Holdings.ArisesUnfilled (settings : Settings) : Holdings → Prop
  | empty : ArisesUnfilled settings {}
  | call {h h' : Holdings} {call : Call} {outcome : Outcome} :
      ArisesUnfilled settings h → call.IsUnfilled → (call.program settings).Runs h [] outcome h' →
        ArisesUnfilled settings h'

namespace Holdings

variable {settings : Settings} {h : Holdings}

theorem ArisesUnfilled.cleanly (arises : h.ArisesUnfilled settings) : h.ArisesCleanly settings := by
  induction arises with
  | empty => exact .empty
  | call _ _ run before => exact .call before run

theorem ArisesUnfilled.mirrored (arises : h.ArisesUnfilled settings) : h.Mirrored := by
  induction arises with
  | empty => exact mirrored_empty
  | call earlier unfilled run before =>
    exact Call.keeps_mirrored unfilled earlier.cleanly.tended.sane before _ _ _ run rfl

/-- The rows of a stored container, where the index repeats every record. -/
theorem Mirrored.repeats (mirrored : h.Mirrored) {id : String} {r : Record} (stored : h.store.records[id]? = some r) :
    ∃ held rows, h.index.Keeps held ∧ held[id]? = some rows ∧ Repeats id r.container.members rows := by
  obtain ⟨m, kept, wf, listed⟩ := mirrored
  have here : (m.partitions[id]?).map Partition.members = some r.container.members := by
    rw [← listing_of_stored stored, ← listed]
    rfl
  obtain ⟨p, found, members⟩ := Option.map_eq_some_iff.1 here
  obtain ⟨held, keeps, there⟩ := wf.keeps_partition found
  exact ⟨held, p.entries, kept ▸ keeps, there, members ▸ wf.repeats found⟩

end Holdings

/-- A world without planted faults goes through such states only. -/
theorem World.Holds.arisesUnfilled_after {settings : Settings} {w : World} {h : Holdings}
    (calls : List (Option Cancellation × Call)) (unfilled : ∀ entry ∈ calls, entry.2.IsUnfilled) (holds : w.Holds h)
    (clean : w.faults = []) (arises : h.ArisesUnfilled settings) :
    ∃ h', (w.after settings calls).Serves h' ∧ h'.ArisesUnfilled settings := by
  induction calls generalizing w h with
  | nil => exact ⟨h, ⟨holds, clean⟩, arises⟩
  | cons entry rest ih =>
    obtain ⟨h₁, run, holds₁, clean₁⟩ := Program.run_undisturbed entry.1 (entry.2.program settings) holds clean
    exact ih (fun other mem => unfilled other (List.mem_cons_of_mem entry mem)) holds₁ clean₁
      (.call arises (unfilled entry List.mem_cons_self) run)

/-! ### Pages -/

/-- The rows that pass a listing's filter, in its order. -/
def ListOptions.matched (options : ListOptions) (rows : List IndexEntry) : List IndexEntry :=
  (options.sort.arrange rows).filter fun row => typePasses options.memberType row.type

/-- Where the rows repeat members that are listed once, these are the members that match, in the listing's order. -/
theorem IndexEntry.Repeats.map_matched {container : String} {members : List Member} {rows : List IndexEntry}
    (repeats : Repeats container members rows) (nodup : (members.map Member.id).Nodup) (options : ListOptions) :
    (options.matched rows).map toMember =
      options.sort.ofMembers (members.filter fun m => typePasses options.memberType m.type) := by
  have distinct : (rows.map memberId).Nodup := by
    rw [← repeats.members, List.map_map] at nodup
    exact nodup
  rw [← repeats.members]
  exact options.sort.map_filter_arrange repeats.ordered distinct options.memberType

namespace Repository

/-- Read a container page by page, so many pages at most: each page begins where the last ended, until one says that no
member remains. -/
def readPages (limits : Limits) (container : String) : Nat → ListOptions → Action (List MemberPage)
  | 0, _ => pure []
  | turns + 1, options => do
    let page ← listMembers limits container options
    if page.hasMore then
      let rest ← readPages limits container turns { options with offset := options.offset + page.entries.length }
      pure (page :: rest)
    else pure [page]

variable {w : World} {held : Catalogue} {rows : List IndexEntry} {container : String} {limits : Limits}

theorem length_matched (options : ListOptions) (rows : List IndexEntry) :
    (options.matched rows).length = rows.countP fun row => typePasses options.memberType row.type := by
  rw [ListOptions.matched, ← List.countP_eq_length_filter]
  exact (options.sort.arrange_perm rows).countP_eq _

theorem entries_ofRows (options : ListOptions) (rows : List IndexEntry) :
    (MemberPage.ofRows limits options rows).entries =
      ((options.matched rows).drop options.offset).take (limits.pageLimit options.limit) :=
  rfl

theorem hasMore_ofRows (options : ListOptions) (rows : List IndexEntry) :
    (MemberPage.ofRows limits options rows).hasMore = true ↔
      options.offset + (MemberPage.ofRows limits options rows).entries.length < (options.matched rows).length := by
  rw [MemberPage.hasMore, decide_eq_true_eq, length_matched]
  rfl

/-- Pages that are not empty end after finitely many, and have each matching row once. -/
theorem succeeds_readPages (clean : w.faults = []) (keeps : w.index.Keeps held)
    (found : held[container]? = some rows) (options : ListOptions) (positive : 1 ≤ limits.pageLimit options.limit) :
    ∃ pages, pages.flatMap MemberPage.entries = (options.matched rows).drop options.offset ∧
      (∃ n, pages.map MemberPage.hasMore = List.replicate n true ++ [false]) ∧
      ∀ turns, (options.matched rows).length - options.offset < turns →
        (readPages limits container turns options).Succeeds w fun got w' => got = pages ∧ w' = w := by
  induction ahead : (options.matched rows).length - options.offset using Nat.strongRecOn generalizing options with
  | ind ahead ih =>
    subst ahead
    have page := succeeds_listMembers clean keeps found limits options
    have entries : (MemberPage.ofRows limits options rows).entries = _ := entries_ofRows options rows
    have length := congrArg List.length entries
    rw [List.length_take, List.length_drop] at length
    by_cases more : (MemberPage.ofRows limits options rows).hasMore = true
    · have remains := (hasMore_ofRows options rows).1 more
      obtain ⟨rest, joined, ⟨n, told⟩, reads⟩ := ih _ (by
        change (options.matched rows).length - (options.offset + _) < _
        omega) { options with
          offset := options.offset + (MemberPage.ofRows limits options rows).entries.length } positive rfl
      refine ⟨MemberPage.ofRows limits options rows :: rest, ?_, ⟨n + 1, ?_⟩, ?_⟩
      · have rest_rows : rest.flatMap MemberPage.entries = ((options.matched rows).drop options.offset).drop
            (MemberPage.ofRows limits options rows).entries.length := by
          rw [List.drop_drop]
          exact joined
        rw [List.flatMap_cons, rest_rows, entries, List.length_take, List.take_eq_take_min, List.take_append_drop]
      · rw [List.map_cons, told, more]
        rfl
      · intro turns enough
        cases turns with
        | zero => exact absurd enough (Nat.not_lt_zero _)
        | succ turns =>
          simp only [readPages]
          apply page.bind
          rintro _ _ ⟨rfl, rfl⟩
          rw [if_pos more]
          have later := reads turns (by
            change (options.matched rows).length - (options.offset + _) < _
            omega)
          apply later.bind
          rintro _ _ ⟨rfl, rfl⟩
          exact succeeds_pure ⟨rfl, rfl⟩
    · have whole : ((options.matched rows).drop options.offset).length ≤ limits.pageLimit options.limit := by
        have ended := mt (hasMore_ofRows options rows).2 more
        rw [List.length_drop]
        omega
      refine ⟨[MemberPage.ofRows limits options rows], ?_, ⟨0, ?_⟩, ?_⟩
      · rw [List.flatMap_singleton, entries, List.take_of_length_le whole]
      · rw [List.map_singleton, Bool.not_eq_true] at *
        rw [more]
        rfl
      · intro turns enough
        cases turns with
        | zero => exact absurd enough (Nat.not_lt_zero _)
        | succ turns =>
          simp only [readPages]
          apply page.bind
          rintro _ _ ⟨rfl, rfl⟩
          rw [if_neg more]
          exact succeeds_pure ⟨rfl, rfl⟩

end Repository

namespace Holdings

variable {settings : Settings} {h : Holdings}

/-- **Pages are windows of the record.** Take any state that calls lead to, none of which created a container that came
with members, and none of which met a request that failed. A page of a stored container that nothing disturbs is
answered, whatever its offset, limit, order and filter. Its total is the number of members in the record that pass the
filter, its limit is the one asked for or the usual one, bounded by the largest, and its entries are the window of
those members in the order asked for: as the record lists them, the newest first and among equally new ones the later
listed, or by the bytes of their identifiers. If that limit is not zero, pages read from the first on, each beginning
where the last ended, come to one that says that nothing follows, and show every matching member just once, in order. -/
theorem ArisesUnfilled.listing_exact (arises : h.ArisesUnfilled settings) {id : String} {r : Record}
    (stored : h.store.records[id]? = some r) {w : World} (serves : w.Serves h) (options : ListOptions) :
    let matching := r.container.members.filter fun m => typePasses options.memberType m.type
    (∃ page, ((Call.listMembers id options).program settings).run none w = (.ok (.page page), w) ∧
      page.total = matching.length ∧ page.offset = options.offset ∧
      page.limit = min (options.limit.getD settings.limits.defaultPageLimit) settings.limits.maxPageLimit ∧
      (∀ entry ∈ page.entries, entry.containerId = id) ∧
      page.entries.map IndexEntry.toMember = ((options.sort.ofMembers matching).drop options.offset).take page.limit) ∧
    (1 ≤ settings.limits.pageLimit options.limit → ∃ pages,
      (∀ turns, matching.length < turns →
        (readPages settings.limits id turns { options with offset := 0 }).run.run none w = (.ok pages, w)) ∧
      (∃ n, pages.map MemberPage.hasMore = List.replicate n true ++ [false]) ∧
      (pages.flatMap MemberPage.entries).map IndexEntry.toMember = options.sort.ofMembers matching ∧
      ∀ m ∈ matching, ((pages.flatMap MemberPage.entries).map IndexEntry.toMember).count m = 1) := by
  intro matching
  obtain ⟨held, rows, keeps, found, repeats⟩ := arises.mirrored.repeats stored
  have keeps : w.index.Keeps held := serves.holds.index ▸ keeps
  have nodup : (r.container.members.map Member.id).Nodup := (arises.cleanly.tended.sane.record stored).2.nodup
  have shown := repeats.map_matched nodup
  have total : (options.matched rows).length = matching.length := by
    rw [← List.length_map (f := IndexEntry.toMember), shown]
    exact (options.sort.ofMembers_perm matching).length_eq
  constructor
  · obtain ⟨_, _, ended, rfl, rfl⟩ :=
      (succeeds_listMembers serves.clean keeps found settings.limits options).answers Reply.page
    refine ⟨_, ended, (length_matched options rows).symm.trans total, rfl, rfl, ?_, ?_⟩
    · intro entry mem
      exact repeats.own entry ((options.query (settings.limits.pageLimit options.limit)).mem_of_mem_answer mem)
    · rw [entries_ofRows, List.map_take, List.map_drop, shown]
      rfl
  · intro positive
    obtain ⟨pages, joined, ended, reads⟩ :=
      succeeds_readPages serves.clean keeps found { options with offset := 0 } positive
    have entries : (pages.flatMap MemberPage.entries).map IndexEntry.toMember = options.sort.ofMembers matching := by
      rw [joined, List.drop_zero]
      exact shown options
    refine ⟨pages, ?_, ended, entries, ?_⟩
    · intro turns enough
      obtain ⟨_, _, read, rfl, rfl⟩ := reads turns (by
        change (options.matched rows).length - 0 < turns
        omega)
      exact read
    · intro m mem
      rw [entries, (options.sort.ofMembers_perm matching).count_eq]
      exact List.count_eq_one_of_mem ((nodup.of_map _).filter _) mem

end Holdings

/-- A container of documents with another container among them, and a call that is given up. -/
def listedCalls : List (Option Cancellation × Call) :=
  [(none, .create (.new "a" "" .basic none)), (none, .addMember "a" "z.txt"), (none, .create (.new "c" "a" .basic none)),
    (some .cancelled, .addMember "a" "y.txt"), (none, .addMembers "a" ["é.txt", "b.txt"])]

/-- The world after these calls. -/
def listedWorld : World :=
  World.after {} default listedCalls

/-- The members there. -/
def listedMembers : List Member :=
  let member (id : String) (type : MemberType) (ms : Int) : Member := { id, type, addedAt := Time.Instant.ofMillis ms }
  [member "z.txt" .resource 2, member "c" .container 4, member "é.txt" .resource 5, member "b.txt" .resource 6]

theorem listedWorld_pages :
    ∃ h r, h.ArisesUnfilled {} ∧ h.store.records["a"]? = some r ∧ listedWorld.Serves h ∧
      r.container.members = listedMembers ∧
      let options : ListOptions := { offset := 1, limit := some 2, sort := .memberId, memberType := some .resource }
      (∃ page, ((Call.listMembers "a" options).program {}).run none listedWorld = (.ok (.page page), listedWorld) ∧
        page.total = 3 ∧ page.entries.map IndexEntry.memberId = ["z.txt", "é.txt"]) ∧
      1 ≤ ({} : Limits).pageLimit options.limit ∧
      ∃ pages, (readPages {} "a" 4 { options with offset := 0 }).run.run none listedWorld = (.ok pages, listedWorld) ∧
        (pages.flatMap MemberPage.entries).map IndexEntry.memberId = ["b.txt", "z.txt", "é.txt"] := by
  have start : (default : World).Holds {} := ⟨rfl, rfl⟩
  have unfilled : ∀ entry ∈ listedCalls, entry.2.IsUnfilled := by simp [listedCalls, Call.IsUnfilled]
  obtain ⟨h, serves, arises⟩ := start.arisesUnfilled_after listedCalls unfilled rfl .empty
  have read : (listedWorld.store.perform (.read "a")).1.toOption.join.map (fun r => r.container.members) =
      some listedMembers := by
    decide +kernel
  have serves : listedWorld.Serves h := serves
  rw [serves.readable.read] at read
  obtain ⟨r, stored, members⟩ := Option.map_eq_some_iff.1 read
  refine ⟨h, r, arises, stored, serves, members, ?_⟩
  intro options
  obtain ⟨⟨page, ended, total, -, limit, -, entries⟩, pages⟩ := arises.listing_exact stored serves options
  obtain ⟨pages, reads, -, joined, -⟩ := pages (by decide)
  rw [members] at total entries reads joined
  refine ⟨⟨page, ended, total, ?_⟩, by decide, pages, reads 4 (by decide), ?_⟩
  · have names := congrArg (List.map Member.id) entries
    rw [List.map_map, limit] at names
    exact names.trans (by decide +kernel)
  · have names := congrArg (List.map Member.id) joined
    rw [List.map_map] at names
    exact names.trans (by decide +kernel)

/-- So not in every state that calls lead to are pages windows of the record: a container that came with members has
pages without them. -/
theorem not_listing_exact_filled :
    ¬ ∀ {h : Holdings} {w : World} {id : String} {r : Record}, h.ArisesCleanly {} → w.Serves h →
      h.store.records[id]? = some r →
      ∃ page, ((Call.listMembers id {}).program {}).run none w = (.ok (.page page), w) ∧
        page.total = r.container.members.length := by
  intro exact_page
  obtain ⟨h', run, holds, clean⟩ :=
    Program.run_undisturbed none ((Call.create (.restored filledSnapshot)).program {}) (w := default) (h := {})
      ⟨rfl, rfl⟩ rfl
  have arises : h'.ArisesCleanly {} := .call .empty run
  have serves : filledCreation.2.Serves h' := ⟨holds, clean⟩
  have read : (filledCreation.2.store.perform (.read "a")).1.toOption.join.map (fun r => r.container.members.length) =
      some 2 := by
    decide +kernel
  rw [serves.readable.read] at read
  obtain ⟨r, stored, two⟩ := Option.map_eq_some_iff.1 read
  obtain ⟨page, ended, total⟩ := exact_page arises serves stored
  have empty : (((Call.listMembers "a" {}).program {}).run none filledCreation.2).1.toOption.map
      (fun reply => match reply with | .page page => page.total | _ => 0) = some 0 := by
    decide +kernel
  rw [ended] at empty
  have none_listed : page.total = 0 := Option.some.inj empty
  rw [total, two] at none_listed
  cases none_listed

end Containment
