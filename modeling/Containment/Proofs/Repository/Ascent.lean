/-
Module: Containment.Proofs.Repository.Ascent
Purpose: Following parents upwards through whatever is stored, in order or not. The way up from a container is told
  without the program that follows it, with the four ends that it can come to. It always comes to one of them, and the
  program reports that one after reading the containers on the way once each.
Main exports: Shape.Ascends, Shape.Halts, Shape.Ascends.exists_halts, Repository.inquires_ancestors_of_halts,
  Call.path_exact
-/
import Containment.Proofs.Dealings
import Containment.Proofs.Hierarchy.Links
import Containment.Proofs.Repository.Repair

namespace Containment

namespace Shape

variable {f : Shape} {start current parent : String} {chain rest : List String} {depth : Nat}

/-- Following parents from `start`, and never back to a container met before, leads to `current` by way of `chain`,
which begins with `start` and ends in `current`. -/
inductive Ascends (f : Shape) (start : String) : List String → String → Prop
  | here : f.Ascends start [start] start
  | up {chain : List String} {current parent : String} :
      f.Ascends start chain current → f current = some parent → parent ≠ "" → parent ∉ chain →
        f.Ascends start (chain ++ [parent]) parent

/-- What the way up from `start` ends in, if no more than `depth` containers may stand on it. `chain` are the containers
met. Whether a parent was met before is asked before whether there is room for it. -/
inductive Halts (f : Shape) (depth : Nat) (start : String) :
    List String → Except RepositoryError (List String) → Prop
  | top {chain : List String} {current : String} :
      f.Ascends start chain current → chain.length ≤ depth → f current = some "" →
        f.Halts depth start chain (.ok chain)
  | missing {chain : List String} {current : String} :
      f.Ascends start chain current → chain.length ≤ depth → f current = none →
        f.Halts depth start chain (.error (.notFound current))
  | cycle {chain : List String} {current parent : String} :
      f.Ascends start chain current → chain.length ≤ depth → f current = some parent → parent ≠ "" → parent ∈ chain →
        f.Halts depth start chain (.error (.circularReference current parent))
  | deep {chain : List String} {current parent : String} :
      f.Ascends start chain current → chain.length = depth → f current = some parent → parent ≠ "" → parent ∉ chain →
        f.Halts depth start chain (.error (.depthExceeded start depth))

theorem Ascends.nodup (ascends : f.Ascends start chain current) : chain.Nodup := by
  induction ascends with
  | here => exact List.nodup_singleton start
  | up _ _ _ fresh ih => exact List.nodup_append.2 ⟨ih, List.nodup_singleton _, by grind⟩

/-- What is above the end of a way up is above its beginning. -/
theorem Ascends.chain_append (ascends : f.Ascends start chain current) (above : f.Chain current (current :: rest)) :
    f.Chain start (chain ++ rest) := by
  induction ascends generalizing rest with
  | here => exact above
  | up _ link proper _ ih =>
    have walk := ih (.step link proper above)
    rwa [List.append_assoc]

theorem Ascends.chain_of_top (ascends : f.Ascends start chain current) (top : f current = some "") :
    f.Chain start chain := by
  have walk := ascends.chain_append (.root top)
  rwa [List.append_nil] at walk

/-- A chain of parents up to a root is a way up. -/
theorem Chain.ascends (walk : f.Chain start chain) : ∃ top, f.Ascends start chain top ∧ f top = some "" := by
  -- The way up grows at its end, so it is followed from `start` on while the rest of the chain gets shorter.
  have onwards : ∀ {current : String} {rest met : List String}, f.Chain current (current :: rest) →
      f.Ascends start met current → (met ++ rest).Nodup →
        ∃ top, f.Ascends start (met ++ rest) top ∧ f top = some "" := by
    intro current rest
    induction rest generalizing current with
    | nil =>
      intro met walk ascends _
      rw [List.append_nil]
      exact ⟨current, ascends, walk.top_eq⟩
    | cons parent rest ih =>
      intro met walk ascends distinct
      obtain ⟨_, link, proper, above⟩ := walk.above (List.cons_ne_nil parent rest)
      obtain rfl := above.head_eq
      have fresh : parent ∉ met := by
        intro known
        exact (List.nodup_append.1 distinct).2.2 parent known parent List.mem_cons_self rfl
      rw [← List.singleton_append, ← List.append_assoc] at distinct ⊢
      exact ih above (.up ascends link proper fresh) distinct
  obtain ⟨rest, rfl⟩ := walk.exists_cons
  exact onwards walk .here walk.nodup

theorem Ascends.ends_in (ascends : f.Ascends start chain current) : ∃ before, chain = before ++ [current] := by
  cases ascends with
  | here => exact ⟨[], rfl⟩
  | up => exact ⟨_, rfl⟩

section Ends

variable {outcome : Except RepositoryError (List String)}

theorem Halts.length_le (halts : f.Halts depth start chain outcome) : chain.length ≤ depth := by
  cases halts with
  | top _ le _ => exact le
  | missing _ le _ => exact le
  | cycle _ le _ _ _ => exact le
  | deep _ full _ _ _ => exact full.le

theorem Halts.nodup (halts : f.Halts depth start chain outcome) : chain.Nodup := by
  cases halts with
  | top ascends _ _ => exact ascends.nodup
  | missing ascends _ _ => exact ascends.nodup
  | cycle ascends _ _ _ _ => exact ascends.nodup
  | deep ascends _ _ _ _ => exact ascends.nodup

/-- Within the bound the way up has come to one of its ends, or there is room for the next parent. -/
theorem Ascends.halts_or_up (ascends : f.Ascends start chain current) (within : chain.length ≤ depth) :
    (∃ outcome, f.Halts depth start chain outcome) ∨
      ∃ parent, f.Ascends start (chain ++ [parent]) parent ∧ chain.length < depth := by
  cases link : f current with
  | none => exact .inl ⟨_, .missing ascends within link⟩
  | some parent =>
    by_cases top : parent = ""
    · exact .inl ⟨_, .top ascends within (top ▸ link)⟩
    · by_cases known : parent ∈ chain
      · exact .inl ⟨_, .cycle ascends within link top known⟩
      · rcases within.eq_or_lt with full | room
        · exact .inl ⟨_, .deep ascends full link top known⟩
        · exact .inr ⟨parent, .up ascends link top known, room⟩

/-- Whatever is stored, the way up comes to one of its ends. -/
theorem Ascends.exists_halts (remaining : Nat) (ascends : f.Ascends start chain current)
    (room : chain.length + remaining = depth) : ∃ met outcome, f.Halts depth start met outcome := by
  induction remaining generalizing chain current with
  | zero =>
    rcases ascends.halts_or_up room.le with ended | ⟨parent, -, short⟩
    · exact ⟨chain, ended⟩
    · exact absurd room short.ne
  | succ remaining ih =>
    have within : chain.length ≤ depth := room ▸ Nat.le_add_right _ _
    rcases ascends.halts_or_up within with ended | ⟨parent, onwards, -⟩
    · exact ⟨chain, ended⟩
    · apply ih onwards
      rw [List.length_append, List.length_singleton, Nat.add_assoc, Nat.add_comm 1]
      exact room

/-- The way up from `start` leads to `id` within the bound, and `id` is missing. -/
def Loses (f : Shape) (depth : Nat) (start id : String) : Prop :=
  ∃ chain, f.Ascends start chain id ∧ chain.length ≤ depth ∧ f id = none

/-- The way up from `start` leads to `id` within the bound, and from there back to a parent met before. -/
def Returns (f : Shape) (depth : Nat) (start id parent : String) : Prop :=
  ∃ chain, f.Ascends start chain id ∧ chain.length ≤ depth ∧ f id = some parent ∧ parent ≠ "" ∧ parent ∈ chain

theorem halts_ok_iff :
    (∃ met, f.Halts depth start met (.ok chain)) ↔ f.Chain start chain ∧ chain.length ≤ depth := by
  constructor
  · rintro ⟨_, halts⟩
    cases halts with
    | top ascends within link => exact ⟨ascends.chain_of_top link, within⟩
  · rintro ⟨walk, within⟩
    obtain ⟨top, ascends, link⟩ := walk.ascends
    exact ⟨chain, .top ascends within link⟩

theorem halts_notFound_iff {id : String} :
    (∃ met, f.Halts depth start met (.error (.notFound id))) ↔ f.Loses depth start id := by
  constructor
  · rintro ⟨chain, halts⟩
    cases halts with
    | missing ascends within link => exact ⟨chain, ascends, within, link⟩
  · rintro ⟨chain, ascends, within, link⟩
    exact ⟨chain, .missing ascends within link⟩

theorem halts_circularReference_iff {id : String} :
    (∃ met, f.Halts depth start met (.error (.circularReference id parent))) ↔ f.Returns depth start id parent := by
  constructor
  · rintro ⟨chain, halts⟩
    cases halts with
    | cycle ascends within link proper known => exact ⟨chain, ascends, within, link, proper, known⟩
  · rintro ⟨chain, ascends, within, link, proper, known⟩
    exact ⟨chain, .cycle ascends within link proper known⟩

end Ends

end Shape

namespace Repository

open Containment.Action

variable {w : World} {S : MemoryStore} {limits : Limits} {id start current parent : String} {chain : List String}
  {asked : List Effect} {outcome : Except RepositoryError (List String)}

/-- The request for the record of a container. -/
def recordRequest (id : String) : Effect :=
  .store (.read id)

theorem inquires_load_missing (readable : w.store.ReadsAs S) (clean : w.faults = [])
    (missing : S.contents.shape id = none) :
    (load id).Inquires w [recordRequest id] (.error (.notFound id)) := by
  have absent : S.records[id]? = none := by
    cases found : S.records[id]? with
    | none => rfl
    | some r =>
      rw [MemoryStore.shape_eq_some found] at missing
      cases missing
  have read := readable.read id
  rw [absent] at read
  exact (inquires_store clean read).bind (inquires_throw _)

section Climbing

variable (readable : w.store.ReadsAs S) (clean : w.faults = [])
  (valid : ∀ (id : String) (r : Record), S.records[id]? = some r → r.container.Valid)
include readable clean valid

theorem exists_inquires_load {r : Record} (found : S.records[id]? = some r) :
    ∃ c, (load id).Inquires w [recordRequest id] (.ok (r, c)) ∧ c.toSnapshot = r.container := by
  obtain ⟨c, hydrated⟩ := Record.exists_hydrate (valid id r found)
  have read := readable.read id
  rw [found] at read
  refine ⟨c, ?_, (Record.sound_of_hydrate hydrated).2.1⟩
  apply (inquires_store clean read).bind
  simp only [hydrate, hydrated]
  exact inquires_pure (r, c)

theorem inquires_load (link : S.contents.shape id = some parent) :
    ∃ loaded, (load id).Inquires w [recordRequest id] (.ok loaded) ∧ loaded.1.parentId = parent := by
  obtain ⟨s, stored, named⟩ := Contents.shape_eq_some_iff.1 link
  obtain ⟨r, found, rfl⟩ := MemoryStore.contents_eq_some_iff.1 stored
  obtain ⟨c, told, -⟩ := exists_inquires_load readable clean valid found
  exact ⟨(r, c), told, named⟩

/-- A parent that is stored decides how the climb goes on. -/
theorem inquires_climb (remaining : Nat) (link : S.contents.shape current = some parent)
    (decided : (if parent.isEmpty then pure chain
      else if chain.contains parent then throw (.circularReference current parent)
      else match remaining with
        | 0 => throw (tooDeep limits start)
        | remaining + 1 => climb limits start remaining (chain ++ [parent]) parent :
          Action (List String)).Inquires w asked outcome) :
    (climb limits start remaining chain current).Inquires w (recordRequest current :: asked) outcome := by
  obtain ⟨loaded, told, rfl⟩ := inquires_load readable clean valid link
  unfold climb
  exact told.bind decided

/-- A program that has followed parents up to `current` goes on from there. -/
theorem inquires_ancestors_of_climb (ascends : S.contents.shape.Ascends start chain current)
    (within : chain.length ≤ limits.maxDepth)
    (onwards : (climb limits start (limits.maxDepth - chain.length) chain current).Inquires w asked outcome) :
    (ancestors limits start).Inquires w (chain.dropLast.map recordRequest ++ asked) outcome := by
  induction ascends generalizing asked with
  | here => exact onwards
  | @up chain current parent ascends link proper fresh ih =>
    rw [List.length_append, List.length_singleton] at within onwards
    have room : limits.maxDepth - chain.length = limits.maxDepth - (chain.length + 1) + 1 := by omega
    obtain ⟨before, rfl⟩ := ascends.ends_in
    rw [List.dropLast_concat, List.map_append, List.append_assoc]
    rw [List.dropLast_concat] at ih
    apply ih (Nat.le_of_succ_le within)
    rw [room]
    apply inquires_climb readable clean valid _ link
    rw [if_neg (mt String.isEmpty_iff.1 proper), if_neg (by simpa using fresh)]
    exact onwards

/-- The end that the way up comes to is what the program reports, having read what is on the way. -/
theorem inquires_ancestors_of_halts (halts : S.contents.shape.Halts limits.maxDepth start chain outcome) :
    (ancestors limits start).Inquires w (chain.map recordRequest) outcome := by
  have reported : ∀ {current : String}, S.contents.shape.Ascends start chain current →
      chain.length ≤ limits.maxDepth →
      (climb limits start (limits.maxDepth - chain.length) chain current).Inquires w [recordRequest current] outcome →
        (ancestors limits start).Inquires w (chain.map recordRequest) outcome := by
    intro current ascends within last
    have whole := inquires_ancestors_of_climb readable clean valid ascends within last
    obtain ⟨before, rfl⟩ := ascends.ends_in
    rw [List.dropLast_concat] at whole
    rwa [List.map_append]
  cases halts with
  | top ascends within link =>
    apply reported ascends within
    apply inquires_climb readable clean valid _ link
    exact inquires_pure chain
  | missing ascends within link =>
    apply reported ascends within
    unfold climb
    exact (inquires_load_missing readable clean link).stops
  | cycle ascends within link proper known =>
    apply reported ascends within
    apply inquires_climb readable clean valid _ link
    rw [if_neg (mt String.isEmpty_iff.1 proper), if_pos (by simpa using known)]
    exact inquires_throw _
  | deep ascends full link proper fresh =>
    apply reported ascends full.le
    apply inquires_climb readable clean valid _ link
    rw [if_neg (mt String.isEmpty_iff.1 proper), if_neg (by simpa using fresh), full, Nat.sub_self]
    exact inquires_throw _

theorem exists_inquires_ancestors (positive : 1 ≤ limits.maxDepth) (start : String) :
    ∃ (met : List String) (outcome : Except RepositoryError (List String)),
      (ancestors limits start).Inquires w (met.map recordRequest) outcome ∧
      met.length ≤ limits.maxDepth ∧ met.Nodup ∧
      ∀ outcome', outcome = outcome' ↔ ∃ chain, S.contents.shape.Halts limits.maxDepth start chain outcome' := by
  obtain ⟨met, outcome, halts⟩ := Shape.Ascends.exists_halts (limits.maxDepth - 1) (.here (f := S.contents.shape))
    (Nat.add_sub_of_le positive)
  have told := inquires_ancestors_of_halts readable clean valid halts
  refine ⟨met, outcome, told, halts.length_le, halts.nodup, fun outcome' => ⟨?_, ?_⟩⟩
  · rintro rfl
    exact ⟨met, halts⟩
  · rintro ⟨chain, also⟩
    have again := inquires_ancestors_of_halts readable clean valid also
    exact congrArg Prod.fst (told.ends.symm.trans again.ends)

end Climbing

end Repository

/-- **The way up is safe on whatever is stored.** Take any store of valid records that can be read, with cycles, missing
parents and chains of any length, and any bound that is positive. Following parents from any identifier comes to an
end after reading no more containers than the bound allows, no container twice, and nothing else, and changes nothing. It
finds a chain just if that is the chain of parents up to a root and within the bound, and then nothing is on it
twice. It reports the container that is missing just if the way up leads there within the bound, and the parent that
was met before just if it leads back to one within the bound. In every other case it reports that the bound is
exceeded. The path of the container is the same, read downwards. -/
theorem Call.path_exact (settings : Settings) {w : World} {S : MemoryStore} (readable : w.store.ReadsAs S)
    (clean : w.faults = [])
    (valid : ∀ (id : String) (r : Record), S.records[id]? = some r → Container.validate r.container = .ok ())
    (positive : 1 ≤ settings.limits.maxDepth) (start : String) :
    ∃ (met : List String) (outcome : Except RepositoryError (List String)),
      (Repository.ancestors settings.limits start).Inquires w (met.map Repository.recordRequest) outcome ∧
      ((Call.path start).action settings).Inquires w (met.map Repository.recordRequest)
        (outcome.map fun chain => .ids chain.reverse) ∧
      met.length ≤ settings.limits.maxDepth ∧ met.Nodup ∧
      (∀ chain, outcome = .ok chain ↔
        S.contents.shape.Chain start chain ∧ chain.length ≤ settings.limits.maxDepth) ∧
      (∀ chain, outcome = .ok chain → chain.Nodup) ∧
      (∀ id, outcome = .error (.notFound id) ↔ S.contents.shape.Loses settings.limits.maxDepth start id) ∧
      (∀ id parent, outcome = .error (.circularReference id parent) ↔
        S.contents.shape.Returns settings.limits.maxDepth start id parent) ∧
      (outcome = .error (.depthExceeded start settings.limits.maxDepth) ↔
        (∀ chain, S.contents.shape.Chain start chain → settings.limits.maxDepth < chain.length) ∧
        (∀ id, ¬ S.contents.shape.Loses settings.limits.maxDepth start id) ∧
        ∀ id parent, ¬ S.contents.shape.Returns settings.limits.maxDepth start id parent) := by
  obtain ⟨met, outcome, told, within, distinct, exact⟩ := Repository.exists_inquires_ancestors readable clean
    (fun id r stored => Container.validate_eq_ok_iff.1 (valid id r stored)) positive start
  have found : ∀ chain, outcome = .ok chain ↔
      S.contents.shape.Chain start chain ∧ chain.length ≤ settings.limits.maxDepth :=
    fun chain => (exact _).trans Shape.halts_ok_iff
  have lost : ∀ id, outcome = .error (.notFound id) ↔ S.contents.shape.Loses settings.limits.maxDepth start id :=
    fun id => (exact _).trans Shape.halts_notFound_iff
  have back : ∀ id parent, outcome = .error (.circularReference id parent) ↔
      S.contents.shape.Returns settings.limits.maxDepth start id parent :=
    fun id parent => (exact _).trans Shape.halts_circularReference_iff
  refine ⟨met, outcome, told, ?_, within, distinct, found, ?_, lost, back, ?_, ?_⟩
  · have path : (Repository.pathHeld settings.limits start).Inquires w (met.map Repository.recordRequest)
        (outcome.map List.reverse) := by
      rw [Repository.pathHeld, ← map_eq_pure_bind]
      exact told.map
    have held : (Repository.path settings.limits start).Inquires w (met.map Repository.recordRequest)
        (outcome.map List.reverse) := path.withLock
    have reply : (outcome.map fun chain => Reply.ids chain.reverse) = (outcome.map List.reverse).map Reply.ids := by
      cases outcome <;> rfl
    rw [reply]
    exact held.map
  · intro chain ended
    exact ((found chain).1 ended).1.nodup
  · intro ended
    refine ⟨fun chain walk => ?_, fun id loses => ?_, fun id parent returns => ?_⟩
    · by_contra short
      have other := (found chain).2 ⟨walk, Nat.le_of_not_lt short⟩
      rw [ended] at other
      cases other
    · have other := (lost id).2 loses
      rw [ended] at other
      cases other
    · have other := (back id parent).2 returns
      rw [ended] at other
      cases other
  · intro otherwise
    obtain ⟨long, kept, onwards⟩ := otherwise
    obtain ⟨chain, halts⟩ := (exact outcome).1 rfl
    cases halts with
    | top ascends within link => exact absurd within (Nat.not_le_of_lt (long _ (ascends.chain_of_top link)))
    | missing ascends within link => exact absurd ⟨chain, ascends, within, link⟩ (kept _)
    | cycle ascends within link proper known =>
      exact absurd ⟨chain, ascends, within, link, proper, known⟩ (onwards _ _)
    | deep => rfl

/-- A container with a parent of any sort. -/
def recordBelow (id parentId : String) : Record :=
  { revision := 1
    container :=
      { id, parentId, type := .basic, members := [], metadata := ∅
        createdAt := Time.Instant.epoch, updatedAt := Time.Instant.epoch } }

/-- Two containers that are each other's parents, and one below them. -/
def entangled : MemoryStore :=
  { records := Std.ExtTreeMap.ofList
      [("a", recordBelow "a" "b"), ("b", recordBelow "b" "a"), ("c", recordBelow "c" "a")] }

/-- A cycle that closes just when the bound is reached is still told apart from a chain that is too long. -/
theorem entangled_path :
    let w : World := { (default : World) with store := .memory entangled }
    let settings : Settings := { limits := { maxDepth := 3 } }
    w.store.ReadsAs entangled ∧ w.faults = [] ∧
      (∀ (id : String) (r : Record), entangled.records[id]? = some r → Container.validate r.container = .ok ()) ∧
      1 ≤ settings.limits.maxDepth ∧
      ∃ met : List String, met.length ≤ 3 ∧
        ((Call.path "c").action settings).Inquires w (met.map Repository.recordRequest)
          (.error (.circularReference "b" "a")) := by
  intro w settings
  have readable : w.store.ReadsAs entangled := Store.readsAs_memory entangled
  have each : ∀ entry ∈ entangled.records.toList, Container.validate entry.2.container = .ok () := by
    decide +kernel
  have valid : ∀ (id : String) (r : Record), entangled.records[id]? = some r →
      Container.validate r.container = .ok () := by
    intro id r stored
    exact each (id, r) (Std.ExtTreeMap.mem_toList_iff_getElem?_eq_some.2 stored)
  have parents : entangled.contents.shape "c" = some "a" ∧ entangled.contents.shape "a" = some "b" ∧
      entangled.contents.shape "b" = some "a" := by
    decide +kernel
  obtain ⟨toC, toA, toB⟩ := parents
  have around : entangled.contents.shape.Returns 3 "c" "b" "a" :=
    ⟨["c", "a", "b"], .up (.up .here toC (by decide) (by decide)) toA (by decide) (by decide), by decide, toB,
      by decide, by decide⟩
  obtain ⟨met, outcome, -, told, within, -, -, -, -, back, -⟩ :=
    Call.path_exact settings readable rfl valid (by decide) "c"
  have ended : outcome = .error (.circularReference "b" "a") := (back "b" "a").2 around
  rw [ended] at told
  exact ⟨readable, rfl, valid, by decide, met, within, told⟩

end Containment
