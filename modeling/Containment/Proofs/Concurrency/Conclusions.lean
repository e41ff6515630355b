/-
Module: Containment.Proofs.Concurrency.Conclusions
Purpose: Every operation among others whose requests may fail. Between two points at which it may wait it does
  nothing, or it writes the index anew. Its last stretch has its whole effect on what was there by then, or ends with
  an error that keeps what was there.
Main exports: Call.Idles, Draft.Uses, Call.Concludes, Call.Completes, Call.endures
-/
import Containment.Proofs.Concurrency.Bare
import Containment.Proofs.Concurrency.Creation
import Containment.Proofs.Repository.Beside
import Containment.Proofs.Repository.Calls
import Containment.Proofs.Repository.Spending

namespace Containment

open Containment.Action Repository
open Function (update)

/-! ### How a stretch of a call may end -/

/-- What a call may do between two points at which it may wait. It does nothing if it writes in one go. -/
structure Call.Idles (call : Call) (h h' : Holdings) : Prop where
  sane : h.store.contents.Sane → h'.store.contents.Sane
  shape : h'.store.contents.shape = h.store.contents.shape
  spends : h.Spends (fun _ => False) (fun _ => False) h'
  still : call.WritesOnce → h' = h

def Call.IsCreation : Call → Prop
  | .create _ => True
  | _ => False

theorem Call.IsCreation.exists_eq {call : Call} (creation : call.IsCreation) : ∃ draft, call = .create draft := by
  cases call <;> first | exact ⟨_, rfl⟩ | exact creation.elim

/-- What a creation makes of the identifiers. It uses up at most that of its container, and only if it was free. One
that names an identifier that is used up says so, if it has not been stopped and nothing else is wrong. -/
structure Draft.Uses (draft : Draft) (h : Holdings) (fails : List FaultPoint) (outcome : Outcome)
    (h' : Holdings) : Prop where
  fresh : h' = h ∨ ∃ c, draft.Describes c ∧ ¬ h.store.Spent c.id ∧ h.Spends (· = c.id) (· = c.id) h'
  taken : ∀ x ∈ draft.id?, h.store.Spent x → fails = [] → (∃ c, draft.Describes c) → ∀ e, outcome = .error e →
    (∀ reason, e ≠ .canceled reason) → e = .alreadyExists x

/-- What a call that succeeds makes of the index alone: one that writes rows anew writes those of a stored container. -/
def Call.Rewrites (call : Call) (h h' : Holdings) : Prop :=
  match call with
  | .rebuild id => ∃ r lists, h.store.records[id]? = some r ∧ h.Lists lists ∧
      h'.Lists (update lists id (some r.container.members))
  | _ => True

/-- How a call may end that has come from `h` to `h'` since it last might have waited. -/
structure Call.Concludes (settings : Settings) (call : Call) (h : Holdings) (fails : List FaultPoint)
    (outcome : Outcome) (h' : Holdings) : Prop where
  idles : ¬ call.WritesOnce → call.Idles h h'
  settled : call.WritesOnce → Settled h (call.Effects settings h.store) fails outcome h'
  verdict : call.WritesOnce → call.IsOrdinary → Verdict h (call.Effects settings h.store) fails outcome h'
  rewrites : ∀ reply, outcome = .ok reply → call.Rewrites h h'
  spends : ¬ call.IsCreation → h.Spends (fun _ => False) (fun _ => False) h'
  uses : ∀ draft, call = .create draft → draft.Uses h fails outcome h'

/-- A call has done its work since it last might have waited. -/
structure Call.Attains (settings : Settings) (call : Call) (outcome : Outcome) (m : Stretch) : Prop where
  wellKept : m.now.WellKept
  concludes : call.Concludes settings m.start m.fails outcome m.now
  unadded : ∀ draft e, call = .create draft → outcome = .error e → m.refusals ≤ 1 →
    m.now = m.start ∨ ∃ c, draft.Describes c ∧ m.start.Unadded c.id m.now

/-- A call has ended: the hierarchy is given back, and without having held it the call has not changed its shape. -/
structure Call.Completes (settings : Settings) (call : Call) (outcome : Outcome) (m : Stretch) : Prop extends
    call.Attains settings outcome m where
  held : m.held = none
  shape : m.guarded = false → m.now.store.contents.shape = m.start.store.contents.shape

namespace Call

variable {settings : Settings} {call : Call} {h h₁ h' : Holdings} {fails early : List FaultPoint} {outcome : Outcome}
  {e : RepositoryError} {m m' : Stretch}

/-- What holds of all creations holds of calls that are none. -/
theorem of_not_creation {P : Draft → Prop} (old : ¬ call.IsCreation) : ∀ draft, call = .create draft → P draft := by
  rintro draft rfl
  exact absurd trivial old

theorem idles_of_store_eq (same : h'.store = h.store) (still : call.WritesOnce → h' = h) : call.Idles h h' where
  sane sane := by
    rw [same]
    exact sane
  shape := by rw [same]
  spends := Holdings.spends_of_store_eq same
  still

theorem Idles.refl (h : Holdings) : call.Idles h h :=
  idles_of_store_eq rfl fun _ => rfl

theorem Idles.trans (first : call.Idles h h₁) (second : call.Idles h₁ h') : call.Idles h h' where
  sane sane := second.sane (first.sane sane)
  shape := second.shape.trans first.shape
  spends := first.spends.trans second.spends
  still once := (second.still once).trans (first.still once)

end Call

/-! ### Failures before the last part of a call -/

theorem Repository.Kept.earlier {h h' : Holdings} {early fails : List FaultPoint} {e : RepositoryError}
    (kept : Kept h fails e h') : Kept h (early ++ fails) e h' where
  published := kept.published
  sane := kept.sane
  contents all := kept.contents fun point mem => all point (List.mem_append_right early mem)
  clean none := kept.clean (List.append_eq_nil_iff.1 none).2
  single := by
    intro one mirrored
    cases fails with
    | nil =>
      obtain ⟨same, mirrored', -⟩ := kept.clean rfl mirrored
      rw [← same]
      exact ⟨.refl _, mirrored'⟩
    | cons point rest =>
      have last : (point :: rest).length = 1 := by
        rw [List.length_append, List.length_cons] at one
        rw [List.length_cons]
        omega
      exact kept.single last mirrored

theorem Repository.Verdict.earlier {α : Type} {h h' : Holdings} {effect : α → List Event → MemoryStore → Prop}
    {early fails : List FaultPoint} {out : Except RepositoryError α} (verdict : Verdict h effect fails out h') :
    Verdict h effect (early ++ fails) out h' := by
  cases out with
  | ok a =>
    obtain ⟨events, whole, published, mirrors⟩ := verdict
    exact ⟨events, whole, published, fun none => mirrors (List.append_eq_nil_iff.1 none).2⟩
  | error e => exact Kept.earlier verdict

theorem Repository.Settled.earlier {α : Type} {h h' : Holdings} {effect : α → List Event → MemoryStore → Prop}
    {early fails : List FaultPoint} {out : Except RepositoryError α} (settled : Settled h effect fails out h') :
    Settled h effect (early ++ fails) out h' := by
  cases out with
  | ok a => exact settled
  | error e => exact Kept.earlier settled

theorem Repository.Settled.map {α β : Type} {h h' : Holdings} {effect : α → List Event → MemoryStore → Prop}
    {weaker : β → List Event → MemoryStore → Prop} {fails : List FaultPoint} {out : Except RepositoryError α}
    {f : α → β} (settled : Settled h effect fails out h')
    (imp : ∀ a events S', effect a events S' → weaker (f a) events S') : Settled h weaker fails (out.map f) h' := by
  cases out with
  | ok a =>
    obtain ⟨events, whole, published⟩ := settled
    exact ⟨events, imp a events h'.store whole, published⟩
  | error e => exact settled

namespace Call.Concludes

variable {settings : Settings} {call : Call} {h h₁ h' : Holdings} {fails early : List FaultPoint} {outcome : Outcome}
  {e : RepositoryError}

theorem sane (concludes : call.Concludes settings h fails outcome h') (sane : h.store.contents.Sane) :
    h'.store.contents.Sane := by
  by_cases once : call.WritesOnce
  · have settled := concludes.settled once
    cases outcome with
    | ok reply =>
      obtain ⟨events, effects, -⟩ := settled
      exact effects.sane sane
    | error e => exact settled.sane
  · exact (concludes.idles once).sane sane

/-- The end of a call that does not write in one go. -/
theorem of_idles (never : ¬ call.WritesOnce) (idles : call.Idles h h') :
    call.Concludes settings h fails outcome h' where
  idles _ := idles
  settled once := absurd once never
  verdict once := absurd once never
  rewrites reply _ := by
    cases call <;> first | exact absurd trivial never | trivial
  spends _ := idles.spends
  uses := by
    rintro draft rfl
    exact absurd trivial never

/-- What a call has done by now belongs to its last stretch, too. -/
theorem after (concludes : call.Concludes settings h₁ fails outcome h') (rests : call.Idles h h₁) :
    call.Concludes settings h (early ++ fails) outcome h' := by
  by_cases once : call.WritesOnce
  · obtain rfl := rests.still once
    exact { idles := concludes.idles
            settled := fun once => (concludes.settled once).earlier
            verdict := fun once ordinary => (concludes.verdict once ordinary).earlier
            rewrites := concludes.rewrites
            spends := concludes.spends
            uses := by
              intro draft same
              obtain ⟨fresh, taken⟩ := concludes.uses draft same
              exact ⟨fresh, fun x named spent none => taken x named spent (List.append_eq_nil_iff.1 none).2⟩ }
  · exact .of_idles once (rests.trans (concludes.idles once))

/-- Ending with an error before anything is done. -/
theorem refused (idles : call.Idles h h') (sane : h'.store.contents.Sane) (harmless : fails = [] → ¬ e.IsWriteFault)
    (taken : ∀ draft, call = .create draft → ∀ x ∈ draft.id?, h.store.Spent x → fails = [] →
      (∃ c, draft.Describes c) → (∀ reason, e ≠ .canceled reason) → e = .alreadyExists x) :
    call.Concludes settings h fails (.error e) h' := by
  have kept : call.WritesOnce → Kept h fails e h' := by
    intro once
    obtain rfl := idles.still once
    exact Kept.refl sane harmless
  exact { idles := fun _ => idles
          settled := kept
          verdict := fun once _ => kept once
          rewrites := fun _ succeeded => by cases succeeded
          spends := fun _ => idles.spends
          uses := by
            rintro draft rfl
            refine ⟨.inl (idles.still trivial), fun x named spent none describes e' same => ?_⟩
            cases same
            exact taken draft rfl x named spent none describes }

/-- A call that is neither a creation nor writes rows anew. -/
theorem of_verdict (once : call.WritesOnce) (old : ¬ call.IsCreation) (rewrites : call.Rewrites h h')
    (verdict : Verdict h (call.Effects settings h.store) fails outcome h')
    (spends : h.Spends (fun _ => False) (fun _ => False) h') : call.Concludes settings h fails outcome h' where
  idles never := absurd once never
  settled _ := verdict.settled
  verdict _ _ := verdict
  rewrites _ _ := rewrites
  spends _ := spends
  uses := of_not_creation old

end Call.Concludes

namespace Call

variable {settings : Settings} {call : Call} {h h₁ h' : Holdings} {fails early : List FaultPoint} {outcome : Outcome}
  {e : RepositoryError} {m m' : Stretch}

theorem attains_refused (rests : call.Idles m.start m.now) (wellKept : m.now.WellKept)
    (harmless : m.fails = [] → ¬ e.IsWriteFault)
    (taken : ∀ draft, call = .create draft → ∀ x ∈ draft.id?, m.start.store.Spent x → m.fails = [] →
      (∃ c, draft.Describes c) → (∀ reason, e ≠ .canceled reason) → e = .alreadyExists x) :
    call.Attains settings (.error e) m where
  wellKept
  concludes := .refused rests wellKept.sane harmless taken
  unadded := by
    rintro draft _ rfl - -
    exact .inl (rests.still trivial)

theorem attains_canceled {reason : Cancellation} (rests : call.Idles m.start m.now) (wellKept : m.now.WellKept) :
    call.Attains settings (.error (.canceled reason)) m :=
  attains_refused rests wellKept (fun _ => not_false) fun _ _ _ _ _ _ _ uncanceled => absurd rfl (uncanceled reason)

/-- Before it writes, a call does not change the shape of the hierarchy. -/
theorem Attains.completes (attains : call.Attains settings outcome m) (rests : call.Idles m.start m.now)
    (held : m.held = none) : call.Completes settings outcome m :=
  { attains with
    held
    shape := fun _ => rests.shape }

theorem Attains.completes_of_guarded (attains : call.Attains settings outcome m) (guarded : m.guarded = true) :
    call.Completes settings outcome { m with held := none } :=
  { wellKept := attains.wellKept
    concludes := attains.concludes
    unadded := attains.unadded
    held := rfl
    shape := fun unguarded => by
      have impossible : m.guarded = false := unguarded
      rw [guarded] at impossible
      cases impossible }

/-- The last part of a call, when it is alone, with its answer put into a reply. -/
def Works {α : Type} (settings : Settings) (call : Call) (f : α → Reply) (h : Holdings) : Post α := fun fails out h' =>
  h'.Indexed ∧ call.Concludes settings h fails (out.map f) h'

/-- The last part of a call that is no creation ends its last stretch. -/
theorem Works.attains {α : Type} {f : α → Reply} {out : Except RepositoryError α} {n : Nat}
    (works : call.Works settings f m.now fails out h') (rests : call.Idles m.start m.now) (wellKept : m.now.WellKept)
    (old : ¬ call.IsCreation) : call.Attains settings (out.map f) (m.passed fails n h') where
  wellKept := ⟨works.2.sane wellKept.sane, works.1⟩
  concludes := works.2.after rests
  unadded := by
    rintro draft _ rfl
    exact absurd trivial old

/-! ### Calls that do not hold the hierarchy -/

variable {α : Type} {x : Action α} {f : α → Reply} {id : String}

/-- A call whose last part runs under the lock of one container. -/
theorem endures_writing (bare : x.Bare) (old : ¬ call.IsCreation)
    (ensures : ∀ h : Holdings, h.WellKept → x.Ensures h fun fails out h' =>
      call.Works settings f h fails out h' ∧ h'.store.contents.shape = h.store.contents.shape)
    (rests : call.Idles m.start m.now) (free : m.held = none) :
    (writing id x).Endures call.Idles m fun out m' => call.Completes settings (out.map f) m' := by
  apply endures_withLock rests fun top => absurd top (LockName.container_ne id)
  · intro reason h wellKept _
    exact (attains_canceled (Idles.refl h) wellKept).completes (Idles.refl h) free
  intro h wellKept _
  apply bare.endures (ensures h wellKept)
  rintro fails refusals out h' ⟨works, shape⟩
  exact { works.attains (Idles.refl h) wellKept old with
          held := free
          shape := fun _ => shape }

/-- The last part of a call that changes one container. -/
theorem ensures_works_single {effect : α → List Event → MemoryStore → Prop} {clear : Bool}
    {idle written : Except RepositoryError α → Prop} {stopped : Cancellation → Except RepositoryError α → Prop}
    (about : call.changed? = some id) (wellKept : h.WellKept)
    (verdict : x.Ensures h (Verdict h effect))
    (imp : ∀ a events S', effect a events S' → call.Effects settings h.store (f a) events S')
    (decides : Program.Decides (Effect.Within (fun _ => True) (fun _ => False) fun _ => False) x.run clear idle
      written stopped)
    (beside : x.Ensures h (BesideAfter id h)) :
    x.Ensures h fun fails out h' =>
      call.Works settings f h fails out h' ∧ h'.store.contents.shape = h.store.contents.shape := by
  intro fails out h' run
  refine ⟨⟨wellKept.indexed.runs run, ?_⟩, (beside fails out h' run).shape⟩
  have whole := (verdict fails out h' run).map imp
  have spends : h.Spends (fun _ => False) (fun _ => False) h' := Action.Decides.spends decides fails out h' run
  cases call with
  | addMember | removeMember | updateMetadata => exact .of_verdict trivial not_false trivial whole spends
  | create | get | contains | delete | addMembers | listMembers | countMembers | drain | nextBatch | children |
    parent | path | find | move | rebuild | rebuildAll | verify => cases about

/-- The last part of writing the rows of one container anew. -/
theorem ensures_works_rebuild (wellKept : h.WellKept) :
    (rebuildHeld id).Ensures h fun fails out h' => (Call.rebuild id).Works settings Reply.count h fails out h' ∧
      h'.store.contents.shape = h.store.contents.shape := by
  intro fails out h' run
  obtain ⟨lists, known⟩ := wellKept.indexed
  have tidied : (rebuildHeld id).Ensures h (Tidied h) := ensures_rebuildHeld wellKept.sane
  obtain ⟨only, -⟩ := tidied fails out h' run
  have rows := ensures_rebuildHeld_rows wellKept.sane known fails out h' run
  have verdict : Verdict h (fun (_ : Nat) events S' => events = [] ∧ S' = h.store) fails out h' :=
    tidied.verdict_of_tidied wellKept.sane (fun _ => ⟨rfl, rfl⟩) fails out h' run
  have whole : Verdict h ((Call.rebuild id).Effects settings h.store) fails (out.map Reply.count) h' :=
    verdict.map fun _ _ _ effect => effect
  refine ⟨⟨wellKept.indexed.runs run, ?_⟩, by rw [only.store]⟩
  exact { idles := fun never => absurd trivial never
          settled := fun _ => whole.settled
          verdict := fun _ _ => whole
          rewrites := by
            intro reply succeeded
            cases out with
            | error e => cases succeeded
            | ok n =>
              obtain ⟨r, found, listed⟩ := rows n rfl
              exact ⟨r, lists, found, known, listed⟩
          spends := fun _ => Holdings.spends_of_store_eq only.store
          uses := of_not_creation not_false }

end Call

/-! ### Programs that do no harm -/

namespace Action

variable {α β : Type} {idle : Holdings → Holdings → Prop} {x : Action α}

/-- The program may be interrupted at any time, and until then it does no more than `idle` allows. -/
def Rests (idle : Holdings → Holdings → Prop) (x : Action α) : Prop :=
  ∀ m : Stretch, idle m.start m.now → m.now.WellKept → x.Endures idle m fun _ m' => m.Later idle m'

theorem Looks.rests (looks : x.Looks LockName.IsContainer) (refl : ∀ h, idle h h) : x.Rests idle :=
  fun _ rests wellKept => looks.endures refl rests wellKept fun _ _ later => later

theorem Rests.bind {f : α → Action β} (first : x.Rests idle) (second : ∀ a, (f a).Rests idle) :
    (x >>= f).Rests idle := by
  intro m rests wellKept
  apply Endures.bind
  apply (first m rests wellKept).mono
  intro out m₁ later
  cases out with
  | ok a =>
    apply (second a m₁ later.rests later.wellKept).mono
    exact fun _ _ later' => later.trans later'
  | error e => exact later

theorem Rests.map (f : α → β) (rests : x.Rests idle) : (f <$> x).Rests idle := by
  intro m still wellKept
  apply Endures.map
  exact rests m still wellKept

theorem Rests.tryCatch {handler : RepositoryError → Action α} (first : x.Rests idle)
    (handled : ∀ e, (handler e).Rests idle) : (tryCatch x handler : Action α).Rests idle := by
  intro m rests wellKept
  apply Endures.tryCatch
  apply (first m rests wellKept).mono
  intro out m₁ later
  cases out with
  | ok a => exact later
  | error e =>
    apply (handled e m₁ later.rests later.wellKept).mono
    exact fun _ _ later' => later.trans later'

theorem rests_throw (e : RepositoryError) : (throw e : Action α).Rests idle :=
  fun _ rests wellKept => .refl rests wellKept

/-- What does no more than its call may do in between, it may do under the lock of a container. -/
theorem Bare.rests {call : Call} (bare : x.Bare)
    (ensures : ∀ h : Holdings, h.WellKept → x.Ensures h fun _ _ h' => call.Idles h h') : x.Rests call.Idles := by
  intro m rests wellKept
  have ended : x.Ensures m.now fun _ _ h' => call.Idles m.now h' ∧ h'.Indexed :=
    fun fails out h' run => ⟨ensures m.now wellKept fails out h' run, wellKept.indexed.runs run⟩
  apply bare.endures ended
  rintro fails n out h' ⟨idles, indexed⟩
  exact ⟨rests.trans idles, ⟨idles.sane wellKept.sane, indexed⟩, rfl, fun _ => idles.shape, id⟩

theorem Rests.writing {id : String} (refl : ∀ h, idle h h) (body : x.Rests idle) : (writing id x).Rests idle := by
  intro m rests wellKept
  apply endures_withLock rests (fun top => absurd top (LockName.container_ne id))
  · exact fun reason h wellKept' allowed => Stretch.later_resumed (refl h) wellKept' allowed
  · intro h wellKept' allowed
    have later := Stretch.later_resumed (refl h) wellKept' allowed
    apply (body _ later.rests later.wellKept).mono
    exact fun _ _ later' => later.trans later'

end Action

namespace Repository

/-! ### Writing the whole index anew -/

theorem rests_of_tidies {α : Type} {x : Action α} (bare : x.Bare)
    (tidies : ∀ h : Holdings, h.store.contents.Sane → x.Ensures h (Tidied h)) : x.Rests Call.rebuildAll.Idles :=
  bare.rests fun h wellKept => (tidies h wellKept.sane).mono fun _ _ _ ended =>
    Call.idles_of_store_eq ended.1.store False.elim

theorem rests_rebuildEach (ids : List String) (summary : RebuildSummary) :
    (rebuildEach ids summary).Rests Call.rebuildAll.Idles := by
  induction ids generalizing summary with
  | nil => exact (looks_pure summary).rests Call.Idles.refl
  | cons id rest ih =>
    simp only [rebuildEach]
    apply Rests.bind
    · apply Rests.tryCatch
      · have held := rests_of_tidies (bare_rebuildHeld id) fun h sane => ensures_rebuildHeld sane
        exact (held.writing Call.Idles.refl).map some
      · intro e
        cases e <;> first | exact (looks_pure none).rests Call.Idles.refl | exact rests_throw _
    · intro rows
      cases rows with
      | none => exact ih summary
      | some rows => exact ih _

theorem rests_dropOrphans (partitions : List String) (summary : RebuildSummary) :
    (dropOrphans partitions summary).Rests Call.rebuildAll.Idles := by
  induction partitions generalizing summary with
  | nil => exact (looks_pure summary).rests Call.Idles.refl
  | cons partition rest ih =>
    simp only [dropOrphans]
    have held := rests_of_tidies (bare_dropOrphan partition) fun h _ => ensures_dropOrphan partition
    exact (held.writing Call.Idles.refl).bind fun dropped => ih _

theorem rests_rebuildAll : rebuildAll.Rests Call.rebuildAll.Idles := by
  simp only [rebuildAll]
  apply ((looks_store .ids trivial).rests Call.Idles.refl).bind
  intro ids
  apply (rests_rebuildEach ids {}).bind
  intro summary
  apply ((looks_index .partitions trivial).rests Call.Idles.refl).bind
  exact fun partitions => rests_dropOrphans _ summary

/-! ### Adding several members -/

theorem rests_addMember {classifier : Classifier} {container : String} {members : List String} (member : String) :
    (addMember classifier container member).Rests (Call.addMembers container members).Idles := by
  simp only [addMember]
  apply Rests.bind
  · apply (bare_classify classifier container member).rests
    intro h _ fails out h' run
    obtain ⟨rfl, -⟩ := reads_classify fails out h' run
    exact .refl h'
  intro type
  apply Rests.writing Call.Idles.refl
  apply (bare_addMemberHeld container member type).rests
  intro h wellKept fails out h' run
  have beside := ensures_beside_addMemberHeld wellKept.sane fails out h' run
  exact { sane := fun _ => beside.sane
          shape := beside.shape
          spends := Action.Decides.spends (decides_addMemberHeld member type) fails out h' run
          still := False.elim }

theorem rests_addMembers {classifier : Classifier} {container : String} (members more : List String) :
    (addMembers classifier container members).Rests (Call.addMembers container more).Idles := by
  induction members with
  | nil => exact (looks_pure 0).rests Call.Idles.refl
  | cons member rest ih =>
    simp only [addMembers]
    apply (rests_addMember member).bind
    intro _
    exact ih.bind fun others => (looks_pure (others + 1)).rests Call.Idles.refl

end Repository

namespace Call

variable {settings : Settings} {call : Call} {h h₁ h' : Holdings} {fails early : List FaultPoint} {outcome : Outcome}
  {e : RepositoryError} {m m' : Stretch} {α : Type} {x : Action α} {f : α → Reply} {id : String}

/-- A call that does not write in one go may be interrupted at any time. -/
theorem attains_later (never : ¬ call.WritesOnce) (later : m.Later call.Idles m') :
    call.Attains settings outcome m' where
  wellKept := later.wellKept
  concludes := .of_idles never later.rests
  unadded := by
    rintro draft e rfl
    exact absurd trivial never

theorem endures_rests (never : ¬ call.WritesOnce) (body : x.Rests call.Idles) (rests : call.Idles m.start m.now)
    (wellKept : m.now.WellKept) (free : m.held = none) :
    x.Endures call.Idles m fun out m' => call.Completes settings (out.map f) m' := by
  apply (body m rests wellKept).mono
  exact fun out m' later => (attains_later never later).completes later.rests (later.held.trans free)

/-! ### Calls that hold the hierarchy -/

theorem endures_hierarchy {mode : Mode} (rests : call.Idles m.start m.now) (free : m.held = none)
    (body : ∀ h : Holdings, h.WellKept → x.Endures call.Idles (.resumed (some mode) h) fun out m' =>
      call.Attains settings (out.map f) m' ∧ m'.guarded = true) :
    (withLock .hierarchy mode x).Endures call.Idles m fun out m' => call.Completes settings (out.map f) m' := by
  apply endures_withLock rests fun _ => free
  · intro reason h wellKept _
    exact (attains_canceled (Idles.refl h) wellKept).completes (Idles.refl h) free
  intro h wellKept _
  apply (body h wellKept).mono
  rintro out m' ⟨attains, guarded⟩
  exact attains.completes_of_guarded guarded

theorem endures_question (question : call.IsQuestion) (rests : call.Idles m.start m.now) (wellKept : m.now.WellKept)
    (free : m.held = none) :
    (call.action settings).Endures call.Idles m fun outcome m' => call.Completes settings outcome m' := by
  have never : ¬ call.WritesOnce := by
    intro once
    cases call <;> first | exact question.elim | exact once.elim
  rcases Call.looks question with looks | ⟨body, same, looks⟩
  · apply (endures_rests (f := id) never (looks.rests Idles.refl) rests wellKept free).mono
    intro out m' completes
    cases out <;> exact completes
  · rw [same]
    apply (endures_hierarchy (f := id) rests free ?_).mono
    · intro out m' completes
      cases out <;> exact completes
    intro h wellKept'
    have still : body.Looks LockName.IsContainer := looks.widen fun _ impossible => impossible.elim
    have harmless : body.Rests call.Idles := still.rests Idles.refl
    apply (harmless (.resumed (some .shared) h) (Idles.refl h) wellKept').mono
    exact fun out m' later => ⟨attains_later never later, later.guarded rfl⟩

/-- The last part of a creation, when it is alone. -/
theorem ensures_works_create {draft : Draft} {c : Container} (describes : draft.Describes c) (wellKept : h.WellKept) :
    (createHeld settings.limits c).Ensures h ((Call.create draft).Works settings Reply.container h) := by
  intro fails out h' run
  obtain ⟨valid, named⟩ := describes.sound
  have whole : ∀ a events S', (a = c.takeEvents.2 ∧ Created h.store c events S' ∧
      h.store.contents.shape.HasRoom settings.limits.maxDepth c.parentId) →
        (Call.create draft).Effects settings h.store (.container a) events S' := by
    rintro a events S' ⟨rfl, created, -⟩
    exact ⟨c, describes, rfl, created⟩
  obtain ⟨settled, verdict⟩ := ensures_createHeld_any wellKept.sane valid fails out h' run
  refine ⟨wellKept.indexed.runs run, ?_⟩
  exact { idles := fun never => absurd trivial never
          settled := fun _ => settled.map whole
          verdict := fun _ ordinary => (verdict (describes.memberless ordinary)).map whole
          rewrites := fun _ _ => trivial
          spends := fun old => absurd trivial old
          uses := by
            rintro _ ⟨rfl⟩
            constructor
            · by_cases spent : h.store.Spent c.id
              · exact .inl (ensures_createHeld_spent spent fails out h' run).1
              · exact .inr ⟨c, describes, spent, ensures_createHeld_spends c fails out h' run⟩
            · intro x own spent none _ e same _
              rw [← named x own] at spent ⊢
              obtain ⟨-, e', rfl, refused⟩ := ensures_createHeld_spent spent fails out h' run
              cases same
              exact refused none }

theorem endures_create {draft : Draft} (wellKept : h.WellKept) :
    ((Call.create draft).action settings).Endures (Call.create draft).Idles (.resumed none h) fun outcome m' =>
      (Call.create draft).Completes settings outcome m' := by
  have drawn : (draw draft).Ensures h fun fails out h' => h' = h ∧
      match out with
      | .ok c => fails = [] ∧ draft.Describes c
      | .error e => (fails = [] → ¬ e.IsWriteFault) ∧ ∀ x ∈ draft.id?, ∀ c, ¬ draft.Describes c := by
    intro fails out h' run
    obtain ⟨same, ended⟩ := reads_draw draft fails out h' run
    cases out with
    | ok c => exact ⟨same, ended⟩
    | error e => exact ⟨same, ended, fun x named => (ensures_draw named fails _ h' run).2.2 e rfl⟩
  apply Endures.bind
  apply (bare_draw draft).endures drawn
  rintro fails n out h' ⟨rfl, ended⟩
  cases out with
  | error e =>
    obtain ⟨harmless, undescribed⟩ := ended
    have attains : (Call.create draft).Attains settings (.error e) ((Stretch.resumed none h').passed fails n h') := by
      refine attains_refused (Idles.refl h') wellKept harmless ?_
      rintro _ ⟨rfl⟩ x named - - ⟨c, describes⟩
      exact absurd describes (undescribed x named c)
    exact attains.completes (Idles.refl h') rfl
  | ok c =>
    obtain ⟨rfl, describes⟩ := ended
    apply Endures.map
    have accepted : Container.validate c.toSnapshot = .ok () := Container.validate_eq_ok_iff.2 describes.sound.1
    rw [Repository.create, accepted]
    apply endures_hierarchy (Idles.refl h') rfl
    intro h wellKept
    apply endures_withContainers Idles.refl (Idles.refl h) wellKept
    · exact fun reason m' later => ⟨attains_canceled later.rests later.wellKept, later.guarded rfl⟩
    intro m' later
    have untouched : m'.now = m'.start := later.rests.still trivial
    have alone : (createHeld settings.limits c).Endures (Call.create draft).Idles m' fun out m'' =>
        m''.start = m'.start ∧ m''.guarded = true ∧ m''.now.WellKept ∧
          (Call.create draft).Concludes settings m''.start m''.fails (out.map Reply.container) m''.now := by
      apply (bare_createHeld c).endures (ensures_works_create describes later.wellKept)
      rintro fails n out h' ⟨indexed, concludes⟩
      exact ⟨rfl, later.guarded rfl, ⟨concludes.sane later.wellKept.sane, indexed⟩, concludes.after later.rests⟩
    apply Endures.mono (Program.Endures.and alone (endures_createHeld later.wellKept.indexed))
    rintro out m'' ⟨⟨start, guarded, wellKept, concludes⟩, unadded⟩
    refine ⟨⟨wellKept, concludes, ?_⟩, guarded⟩
    rintro _ e ⟨rfl⟩ failed few
    cases out with
    | ok a => cases failed
    | error e' =>
      refine .inr ⟨c, describes, ?_⟩
      rw [start, ← untouched]
      exact unadded e' rfl (by omega)

theorem endures_deleteWithin {id : String} (attempts : Nat) (rests : (Call.delete id).Idles m.start m.now)
    (wellKept : m.now.WellKept) (held : m.held.isSome) (guarded : m.guarded = true) :
    (deleteWithin id attempts).Endures (Call.delete id).Idles m fun out m' =>
      (Call.delete id).Attains settings (out.map fun _ => Reply.done) m' ∧ m'.guarded = true := by
  induction attempts generalizing m with
  | zero => exact ⟨attains_refused rests wellKept (fun _ => not_false) (of_not_creation not_false), guarded⟩
  | succ attempts ih =>
    simp only [deleteWithin]
    apply (bare_load id).endures_bind reads_load
    · intro fails n e harmless
      refine ⟨attains_refused rests wellKept (fun none => ?_) (of_not_creation not_false), guarded⟩
      exact harmless (List.append_eq_nil_iff.1 none).2
    rintro n ⟨record, c⟩ -
    apply Endures.bind
    have known : m.guarded = m.held.isSome := guarded.trans held.symm
    apply endures_withContainers (m := m.passed [] n m.now) Idles.refl rests wellKept
    · intro reason m' later
      exact ⟨attains_canceled later.rests later.wellKept, (later.guarded known).trans held⟩
    intro m' later
    have guarded' : m'.guarded = true := (later.guarded known).trans held
    have sane := later.wellKept.sane
    have alone : (deleteHeld id record.parentId).Ensures m'.now fun fails out h' =>
        DeleteVerdict m'.now id record.parentId fails out h' ∧ h'.Indexed ∧
          m'.now.Spends (fun _ => False) (fun _ => False) h' :=
      fun fails out h' run => ⟨ensures_deleteHeld sane fails out h' run, later.wellKept.indexed.runs run,
        ensures_deleteHeld_spends fails out h' run⟩
    apply (bare_deleteHeld id record.parentId).endures alone
    rintro fails n' out h' ⟨ended, indexed, spends⟩
    have works : ∀ reply : Except RepositoryError Unit,
        Verdict m'.now (fun _ events S' => Deleted m'.now.store id events S') fails reply h' →
          (Call.delete id).Attains settings (reply.map fun _ => Reply.done) (m'.passed fails n' h') := by
      intro reply verdict
      have whole : Verdict m'.now ((Call.delete id).Effects settings m'.now.store) fails
          (reply.map fun _ => Reply.done) h' := verdict.map fun _ _ _ deleted => ⟨rfl, deleted⟩
      have works : (Call.delete id).Concludes settings m'.now fails (reply.map fun _ => Reply.done) h' :=
        .of_verdict trivial not_false trivial whole spends
      exact Works.attains ⟨indexed, works⟩ later.rests later.wellKept not_false
    rcases ended with ⟨rfl, rfl, rfl, -⟩ | verdict
    · -- The container has another parent by now, and nothing has been done yet.
      have again := @ih (m'.passed [] n' m'.now) later.rests later.wellKept
      refine again ?_ guarded'
      change m'.held.isSome = true
      rw [later.held]
      exact held
    · cases out with
      | ok done =>
        obtain ⟨events, ⟨rfl, deleted⟩, rest⟩ := verdict
        exact ⟨works (.ok ()) ⟨events, deleted, rest⟩, guarded'⟩
      | error e => exact ⟨works (.error e) verdict, guarded'⟩

/-- A move looks at the shape of the hierarchy before it waits for its containers. Nobody else changes that shape
while it waits, so what it has found out is still true when it writes. -/
theorem endures_moveWithin {id target : String} (rests : (Call.move id target).Idles m.start m.now)
    (wellKept : m.now.WellKept) (alone : m.held = some .exclusive) (guarded : m.guarded = true) :
    (moveWithin settings.limits id target).Endures (Call.move id target).Idles m fun out m' =>
      (Call.move id target).Attains settings (out.map Reply.container) m' ∧ m'.guarded = true := by
  have sane := wellKept.sane
  have refused : ∀ fails n e, (fails = [] → ¬ RepositoryError.IsWriteFault e) →
      (Call.move id target).Attains settings (.error e) (m.passed fails n m.now) ∧ m.guarded = true := by
    intro fails n e harmless
    refine ⟨attains_refused rests wellKept (fun none => ?_) (of_not_creation not_false), guarded⟩
    exact harmless (List.append_eq_nil_iff.1 none).2
  simp only [moveWithin]
  apply (bare_load id).endures_bind reads_load refused
  rintro n ⟨record, c⟩ ⟨found, -⟩
  have stored := MemoryStore.contents_eq_some found
  refine Bare.endures_bind (m := m.passed [] n m.now) (bare_checkMove id target)
    (reads_checkMove sane (Option.isSome_of_mem stored)) ?_ ?_
  · intro fails n' e harmless
    rw [Stretch.passed_passed]
    exact refused _ _ e harmless
  rintro n' _ ⟨apart, -⟩
  rw [Stretch.passed_passed]
  have known : m.guarded = m.held.isSome := by
    rw [guarded, alone]
    rfl
  have still : ∀ m', (m.passed ([] ++ []) (n + n') m.now).Later (Call.move id target).Idles m' →
      m'.guarded = true := by
    intro m' later
    rw [later.guarded known]
    change m.held.isSome = true
    rw [alone]
    rfl
  apply endures_withContainers (m := m.passed ([] ++ []) (n + n') m.now) Idles.refl rests wellKept
  · exact fun reason m' later => ⟨attains_canceled later.rests later.wellKept, still m' later⟩
  intro m' later
  have shape : m'.now.store.contents.shape = m.now.store.contents.shape := later.allowed alone
  have parent : ∀ r, m'.now.store.records[id]? = some r → r.parentId = record.parentId := by
    intro r found'
    have here := MemoryStore.shape_eq_some found'
    rw [shape, Contents.shape_of_eq stored] at here
    exact (Option.some.inj here).symm
  have works : (moveHeld id record.parentId target).Ensures m'.now
      ((Call.move id target).Works settings Reply.container m'.now) := by
    intro fails out h' run
    have verdict := ensures_moveHeld later.wellKept.sane apart parent fails out h' run
    have whole : Verdict m'.now ((Call.move id target).Effects settings m'.now.store) fails (out.map Reply.container)
        h' := verdict.map fun a _ _ moved => ⟨a, rfl, moved⟩
    have spends : m'.now.Spends (fun _ => False) (fun _ => False) h' :=
      Action.Decides.spends (decides_moveHeld record.parentId target) fails out h' run
    exact ⟨later.wellKept.indexed.runs run, .of_verdict trivial not_false trivial whole spends⟩
  apply (bare_moveHeld id record.parentId target).endures works
  exact fun fails n out h' works => ⟨works.attains later.rests later.wellKept not_false, still m' later⟩

/-! ### All calls -/

/-- Every call ends as it should, whatever others do while it waits and whichever requests fail. -/
theorem endures (wellKept : h.WellKept) :
    (call.action settings).Endures call.Idles (.resumed none h) fun outcome m' =>
      call.Completes settings outcome m' := by
  by_cases question : call.IsQuestion
  · exact endures_question question (Idles.refl h) wellKept rfl
  cases call with
  | create draft => exact endures_create wellKept
  | delete id =>
    have same : (Call.delete id).action settings = (fun _ => Reply.done) <$> Repository.delete id :=
      (map_eq_pure_bind ..).symm
    rw [same]
    apply Endures.map
    apply endures_hierarchy (Idles.refl h) rfl
    exact fun h wellKept => endures_deleteWithin deleteAttempts (Idles.refl h) wellKept rfl rfl
  | updateMetadata id update =>
    apply Endures.map
    refine endures_writing (bare_updateMetadataHeld id update) not_false (fun h wellKept => ?_) (Idles.refl h) rfl
    exact ensures_works_single rfl wellKept (ensures_updateMetadataHeld wellKept.sane)
      (fun a _ _ amended => ⟨a, rfl, amended⟩) (decides_updateMetadataHeld update)
      (ensures_beside_updateMetadataHeld wellKept.sane)
  | addMember container member =>
    apply Endures.map
    apply (bare_classify _ container member).endures_bind reads_classify
    · intro fails n e harmless
      have attains : (Call.addMember container member).Attains settings (.error e)
          ((Stretch.resumed none h).passed fails n h) :=
        attains_refused (Idles.refl h) wellKept harmless (of_not_creation not_false)
      exact attains.completes (Idles.refl h) rfl
    intro n type kind
    refine endures_writing (bare_addMemberHeld container member type) not_false (fun h wellKept => ?_) (Idles.refl h) rfl
    exact ensures_works_single rfl wellKept (ensures_addMemberHeld wellKept.sane kind)
      (fun a _ _ grown => ⟨a, rfl, grown⟩) (decides_addMemberHeld member type)
      (ensures_beside_addMemberHeld wellKept.sane)
  | removeMember container member =>
    apply Endures.map
    refine endures_writing (bare_removeMemberHeld container member) not_false (fun h wellKept => ?_) (Idles.refl h) rfl
    exact ensures_works_single rfl wellKept (ensures_removeMemberHeld wellKept.sane)
      (fun a _ _ shrunk => ⟨a, rfl, shrunk⟩) (decides_removeMemberHeld member)
      (ensures_beside_removeMemberHeld wellKept.sane)
  | move id target =>
    apply Endures.map
    apply endures_hierarchy (Idles.refl h) rfl
    exact fun h wellKept => endures_moveWithin (Idles.refl h) wellKept rfl rfl
  | rebuild id =>
    apply Endures.map
    exact endures_writing (bare_rebuildHeld id) not_false (fun h => ensures_works_rebuild) (Idles.refl h) rfl
  | rebuildAll =>
    apply Endures.map
    exact endures_rests id rests_rebuildAll (Idles.refl h) wellKept rfl
  | addMembers container members =>
    apply Endures.map
    exact endures_rests id (rests_addMembers members members) (Idles.refl h) wellKept rfl
  | get | contains | listMembers | countMembers | drain | nextBatch | children | parent | path | find | verify =>
    exact absurd trivial question

end Call

end Containment
