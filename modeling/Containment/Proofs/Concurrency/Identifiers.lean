/-
Module: Containment.Proofs.Concurrency.Identifiers
Purpose: An identifier is used once. While operations take turns in any way, contexts end and requests fail, no two
  creations ever answer with the same identifier. One that does not answer leaves nothing of it behind, and after the
  one that does, all others find it taken.
Main exports: Call.Makes, Call.Misses, Turn.Does.spent, Turn.Does.unspent, Turn.Does.taken, Chronicle.pairwise,
  Chronicle.unspent, Course.ended, Course.identifiers_used_once
-/
import Containment.Proofs.Concurrency.Cancellation
import Containment.Proofs.Repository.Making

namespace Containment

/-! ### What a created container takes up -/

/-- Being listed in a parent takes up no identifier. -/
theorem Attached.spent_iff {S S' : MemoryStore} {id target x : String} {time : Time.Instant} {events : List Event}
    (sane : S.contents.Sane) (attached : Attached S id target time events S') : S'.Spent x ↔ S.Spent x := by
  cases attached with
  | root => exact Iff.rfl
  | @below r p p' _ found hydrated added =>
    obtain ⟨sound, same, -⟩ := Record.sound_of_hydrate hydrated
    obtain ⟨-, -, own, -⟩ := sound.addMember added
    have key : (r.next p').id = target := own.trans ((congrArg Snapshot.id same).trans (sane.record found).1)
    rw [MemoryStore.spent_put, key]
    refine ⟨?_, .inr⟩
    rintro (rfl | spent)
    · exact .inl (MemoryStore.isSome_contents found)
    · exact spent

/-- A new container takes up its own identifier. -/
theorem Created.spent_iff {S S' : MemoryStore} {c : Container} {x : String} {events : List Event}
    (sane : S.contents.Sane) (created : Created S c events S') : S'.Spent x ↔ x = c.id ∨ S.Spent x := by
  obtain ⟨valid, -, -, time, parentEvents, attached, -⟩ := created
  have stored : (S.put (.first c)).contents.Sane := by
    rw [MemoryStore.contents_put]
    exact sane.put valid
  rw [attached.spent_iff stored, MemoryStore.spent_put]
  exact Iff.rfl

theorem Created.unspent {S S' : MemoryStore} {c : Container} {events : List Event} (created : Created S c events S') :
    ¬ S.Spent c.id := by
  rintro (stored | retired)
  · rw [MemoryStore.contents_eq_none created.absent] at stored
    cases stored
  · rw [created.unused] at retired
    cases retired

/-! ### What one turn makes of an identifier -/

/-- The call is a creation and has answered with a container of that name. -/
def Call.Makes (call : Call) (outcome? : Option Outcome) (x : String) : Prop :=
  ∃ draft c, call = .create draft ∧ outcome? = some (.ok (.container c)) ∧ c.id = x

/-- The call is a creation of that name and has ended with an error. -/
def Call.Misses (call : Call) (outcome? : Option Outcome) (x : String) : Prop :=
  ∃ draft c e, call = .create draft ∧ draft.Describes c ∧ c.id = x ∧ outcome? = some (.error e)

/-- What is drawn for a creation does not matter for what it answers with. -/
theorem Call.makes_drawing {call : Call} {drawn : List String} {outcome? : Option Outcome} {x : String} :
    (call.drawing drawn).Makes outcome? x ↔ call.Makes outcome? x := by
  by_cases unnamed : call.IsUnnamed
  · obtain ⟨parentId, type, title, rfl⟩ := unnamed
    exact ⟨fun ⟨_, c, _, made⟩ => ⟨_, c, rfl, made⟩, fun ⟨_, c, _, made⟩ => ⟨_, c, rfl, made⟩⟩
  · rw [drawing_of_named unnamed]

namespace Turn.Does

variable {settings : Settings} {turn : Turn} {call : Call} {h h' : Holdings} {draft : Draft} {x : String}

/-- A creation that answers has made what its draft describes. -/
theorem created {reply : Reply} (does : turn.Does settings (.create draft) h h')
    (answered : turn.outcome? = some (.ok reply)) : ∃ c events, draft.Describes c ∧ reply = .container c.takeEvents.2 ∧
      Created h.store c events h'.store := by
  obtain ⟨events, ⟨c, describes, same, created⟩, -⟩ := (does.concludes (.ok reply) answered).settled trivial
  exact ⟨c, events, describes, same, created⟩

/-- Whatever a turn does, an identifier that is used up stays so. -/
theorem spent (does : turn.Does settings call h h') (spent : h.store.Spent x) : h'.store.Spent x := by
  cases ended : turn.outcome? with
  | none => exact ((does.idles ended).spends x).2 not_false spent
  | some outcome =>
    have concludes := does.concludes outcome ended
    by_cases creation : call.IsCreation
    · obtain ⟨draft, same⟩ := creation.exists_eq
      rcases (concludes.uses draft same).fresh with rfl | ⟨c, -, fresh, spends⟩
      · exact spent
      · refine (spends x).2 ?_ spent
        rintro rfl
        exact fresh spent
    · exact (concludes.spends creation x).2 not_false spent

/-- The identifier that a creation answers with was free, and is used up. -/
theorem made (does : turn.Does settings call h h') (sane : h.store.contents.Sane)
    (makes : call.Makes turn.outcome? x) : ¬ h.store.Spent x ∧ h'.store.Spent x := by
  obtain ⟨draft, made, rfl, answered, rfl⟩ := makes
  obtain ⟨c, events, -, reply, created⟩ := does.created answered
  cases reply
  exact ⟨created.unspent, (created.spent_iff sane).2 (.inl rfl)⟩

/-- An identifier stays free as long as no creation answers with it, if a creation of it that fails had at most one
request refused. -/
theorem unspent (does : turn.Does settings call h h') (sane : h.store.contents.Sane)
    (free : ¬ h.store.Spent x) (unmade : ¬ call.Makes turn.outcome? x)
    (few : call.Misses turn.outcome? x → turn.refusals ≤ 1) : ¬ h'.store.Spent x := by
  intro spent
  cases ended : turn.outcome? with
  | none => exact free (((does.idles ended).spends x).1 not_false spent)
  | some outcome =>
    have concludes := does.concludes outcome ended
    by_cases creation : call.IsCreation
    · obtain ⟨draft, same⟩ := creation.exists_eq
      cases outcome with
      | ok reply =>
        rw [same] at does
        obtain ⟨c, events, -, rfl, created⟩ := does.created ended
        rcases (created.spent_iff sane).1 spent with rfl | old
        · exact unmade ⟨draft, c.takeEvents.2, same, ended, rfl⟩
        · exact free old
      | error e =>
        rcases (concludes.uses draft same).fresh with rfl | ⟨c, describes, -, spends⟩
        · exact free spent
        by_cases own : x = c.id
        · have missed : call.Misses turn.outcome? x := ⟨draft, c, e, same, describes, own.symm, ended⟩
          rcases does.unadded draft e same ended (few missed) with rfl | ⟨d, -, unadded⟩
          · exact free spent
          · exact free (unadded.contents.spent_iff.1 spent)
        · exact free ((spends x).1 own spent)
    · exact free ((concludes.spends creation x).1 not_false spent)

/-- A creation of an identifier that is used up does nothing. It says why, or that it was stopped, and this only if its
context was done during the turn. -/
theorem taken {context : Context} (does : turn.Does settings (.create draft) h h') (named : draft.id? = some x)
    (spent : h.store.Spent x) (stopped : ∀ reason, turn.outcome? = some (.error (.canceled reason)) →
      context.DoneBetween turn.began turn.ended reason) :
    h' = h ∧ ∀ outcome ∈ turn.outcome?, ∃ e, outcome = .error e ∧
      (turn.fails = [] → (∃ c, draft.Describes c) →
        (context.check turn.ended = none → e = .alreadyExists x) ∧
        (e = .alreadyExists x ∨
          ∃ reason, e = .canceled reason ∧ context.DoneBetween turn.began turn.ended reason)) := by
  have own : ∀ c, draft.Describes c → c.id = x := fun c describes => describes.sound.2 x named
  cases ended : turn.outcome? with
  | none => exact ⟨(does.idles ended).still trivial, fun outcome none => absurd none (Option.not_mem_none outcome)⟩
  | some outcome =>
    obtain ⟨fresh, taken⟩ := (does.concludes outcome ended).uses draft rfl
    have same : h' = h := by
      refine fresh.resolve_right ?_
      rintro ⟨c, describes, fresh, -⟩
      rw [own c describes] at fresh
      exact fresh spent
    refine ⟨same, ?_⟩
    rintro _ ⟨rfl⟩
    cases outcome with
    | ok reply =>
      obtain ⟨c, events, describes, -, created⟩ := does.created ended
      exact absurd (own c describes ▸ spent) created.unspent
    | error e =>
      refine ⟨e, rfl, fun clean describes => ?_⟩
      by_cases canceled : ∃ reason, e = .canceled reason
      · obtain ⟨reason, rfl⟩ := canceled
        have done := stopped reason ended
        refine ⟨fun live => ?_, .inr ⟨reason, rfl, done⟩⟩
        obtain ⟨reason', status⟩ := done.done
        rw [live] at status
        cases status
      · have used : e = .alreadyExists x :=
          taken x named spent clean describes e rfl fun reason same => canceled ⟨reason, same⟩
        exact ⟨fun _ => used, .inl used⟩

end Turn.Does

/-! ### What all turns make of it -/

namespace Chronicle

variable {settings : Settings} {calls : Nat → Option Call} {log : List Turn} {h : Holdings} {x : String}

/-- What has been made once is used up for good, and each later turn finds it so. -/
theorem pairwise (chronicle : Chronicle settings calls log h) :
    (∀ turn ∈ log, ∀ call, calls turn.task = some call → call.Makes turn.outcome? x → h.store.Spent x) ∧
    log.Pairwise fun winner later => ∀ call, calls winner.task = some call → call.Makes winner.outcome? x →
      ∃ call h h', calls later.task = some call ∧ h.WellKept ∧ h.store.Spent x ∧ later.Does settings call h h' := by
  induction chronicle with
  | start => exact ⟨fun _ mem => absurd mem List.not_mem_nil, .nil⟩
  | next earlier known does before =>
    obtain ⟨spent, pairs⟩ := before
    constructor
    · intro turn mem call known' makes
      rcases List.mem_append.1 mem with old | new
      · exact does.spent (spent turn old call known' makes)
      · rw [List.mem_singleton.1 new] at known' makes
        rw [known] at known'
        cases known'
        exact (does.made earlier.wellKept.sane makes).2
    · rw [List.pairwise_append]
      refine ⟨pairs, List.pairwise_singleton .., fun winner old later new call known' makes => ?_⟩
      rw [List.mem_singleton.1 new]
      exact ⟨_, _, _, known, earlier.wellKept, spent winner old call known' makes, does⟩

/-- No two turns make the same identifier. -/
theorem once (chronicle : Chronicle settings calls log h) {turn turn' : Turn} {call call' : Call}
    (mem : turn ∈ log) (mem' : turn' ∈ log) (known : calls turn.task = some call)
    (known' : calls turn'.task = some call') (makes : call.Makes turn.outcome? x)
    (makes' : call'.Makes turn'.outcome? x) : turn = turn' := by
  have never : log.Pairwise fun winner later => ∀ call call', calls winner.task = some call →
      calls later.task = some call' → call.Makes winner.outcome? x → ¬ call'.Makes later.outcome? x := by
    refine (chronicle.pairwise (x := x)).2.imp fun after call call' known known' makes makes' => ?_
    obtain ⟨found, h₁, h₂, known'', wellKept, spent, does⟩ := after call known makes
    rw [known'] at known''
    cases known''
    exact (does.made wellKept.sane makes').1 spent
  have same : ∀ a ∈ log, ∀ b ∈ log, ∀ call call', calls a.task = some call → calls b.task = some call' →
      call.Makes a.outcome? x → call'.Makes b.outcome? x → a = b := by
    refine List.Pairwise.forall_of_forall_of_flip (fun _ _ _ _ _ _ _ _ => rfl) (never.imp ?_) (never.imp ?_)
    · exact fun apart c c' known known' makes makes' => absurd makes' (apart c c' known known' makes)
    · exact fun apart c c' known known' makes makes' => absurd makes (apart c' c known' known makes')
  exact same turn mem turn' mem' call call' known known' makes makes'

theorem unspent (chronicle : Chronicle settings calls log h)
    (unmade : ∀ turn ∈ log, ∀ call, calls turn.task = some call → ¬ call.Makes turn.outcome? x)
    (few : ∀ turn ∈ log, ∀ call, calls turn.task = some call → call.Misses turn.outcome? x → turn.refusals ≤ 1) :
    ¬ h.store.Spent x := by
  induction chronicle with
  | start => exact MemoryStore.not_spent_empty
  | next earlier known does before =>
    obtain ⟨unmade, last⟩ := List.forall_mem_append.1 unmade
    obtain ⟨few, lastFew⟩ := List.forall_mem_append.1 few
    apply does.unspent earlier.wellKept.sane (before unmade few)
    · exact List.forall_mem_singleton.1 last _ known
    · exact List.forall_mem_singleton.1 lastFew _ known

end Chronicle

namespace Course

variable {settings : Settings} {sys : System Outcome} {orders : Nat → Option Order} {log : List Turn}

/-- A call that has ended did so in one of the turns. -/
theorem ended (course : Course settings sys orders log) {id : Nat} {outcome : Outcome}
    (ended : sys.result? id = some outcome) : ∃ turn ∈ log, turn.task = id ∧ turn.outcome? = some outcome := by
  induction course with
  | start =>
    have nobody : (∅ : Std.ExtTreeMap Nat (Task Outcome))[id]? = none := Std.ExtTreeMap.getElem?_empty
    rw [System.result?, nobody] at ended
    cases ended
  | spawn context call _ before =>
    simp only [System.spawn] at ended
    rw [System.result?_insert] at ended
    split at ended
    · cases ended
    · exact before ended
  | @turn sys orders log who task deeds state shared _ _ _ before =>
    simp only [System.turned] at ended
    rw [System.result?_insert] at ended
    split at ended
    · rename_i own
      refine ⟨_, List.mem_append_right _ (List.mem_singleton.2 rfl), own.symm, ?_⟩
      cases state with
      | finished value => exact ended
      | fresh p | waiting lock next => cases ended
    · obtain ⟨turn, mem, rest⟩ := before ended
      exact ⟨turn, List.mem_append_left _ mem, rest⟩
  | drift _ _ before => exact before ended

/-- Operations go on side by side while their contexts end and requests fail at any moment, containers are moved and
deleted. At most one call ever answers that it has created a container of a given name.

A turn of a creation that does not answer leaves nothing new in the store, among the reserved identifiers or in the
rows of any container, if no more than one of its requests was refused. So, as long as no creation of the name has
answered and all that failed did so in this way, the name is free: whoever then calls alone for a container of that
name that keeps the rules gets it, if there is a place for it.

After the turn in which a creation of the name has answered, any other creation of it does nothing, whether its draft
names it or it has been drawn. When such a creation ends, it ends with an error. If no request failed and the draft
stands for a container, the error says that the name is taken, unless the context of the creation was done at some time
during the turn, and then it may give this reason instead. -/
theorem identifiers_used_once (course : Course settings sys orders log) (x : String) :
    (∀ id id' order order', orders id = some order → orders id' = some order' →
      order.call.Makes (sys.result? id) x → order'.call.Makes (sys.result? id') x → id = id') ∧
    (∀ turn ∈ log, ∀ order draft, orders turn.task = some order →
      order.call.drawing (drawnBy log turn.task) = .create draft →
        (∀ reply, turn.outcome? ≠ some (.ok reply)) → turn.refusals ≤ 1 →
          ∃ h h', turn.before.Holds h ∧ turn.after.Holds h' ∧
            (h' = h ∨ ∃ c, draft.Describes c ∧ h.Unadded c.id h')) ∧
    ((∀ id order, orders id = some order → ¬ order.call.Makes (sys.result? id) x) →
      (∀ turn ∈ log, ∀ order, orders turn.task = some order →
        (order.call.drawing (drawnBy log turn.task)).Misses turn.outcome? x → turn.refusals ≤ 1) →
          ∃ h, sys.shared.world.Holds h ∧ ¬ h.store.Spent x ∧ ∀ c w, c.id = x → c.toSnapshot.Valid →
            h.Houses settings.limits c → w.Serves h →
              (Repository.create settings.limits c).Succeeds w fun made _ => made = c.takeEvents.2) ∧
    log.Pairwise fun winner later => ∀ order order' draft, orders winner.task = some order →
      order.call.Makes winner.outcome? x → orders later.task = some order' →
        order'.call.drawing (drawnBy log later.task) = .create draft → draft.id? = some x →
          ∃ h, later.before.Holds h ∧ later.after.Holds h ∧ h.Undergoes later.deeds h ∧
            ∀ outcome ∈ later.outcome?, ∃ e, outcome = .error e ∧
              (later.fails = [] → (∃ c, draft.Describes c) →
                (order'.context.check later.ended = none → e = .alreadyExists x) ∧
                (e = .alreadyExists x ∨
                  ∃ reason, e = .canceled reason ∧ order'.context.DoneBetween later.began later.ended reason)) := by
  have heeds := course.heeds
  obtain ⟨h, chronicled⟩ := course.chronicled
  have chronicle := chronicled.chronicle
  refine ⟨?_, ?_, ?_, ?_⟩
  · intro id id' order order' known known' makes makes'
    obtain ⟨draft, c, same, answered, own⟩ := makes
    obtain ⟨draft', c', same', answered', own'⟩ := makes'
    obtain ⟨turn, mem, rfl, ended⟩ := course.ended answered
    obtain ⟨turn', mem', rfl, ended'⟩ := course.ended answered'
    have makes : order.call.Makes turn.outcome? x := ⟨draft, c, same, ended, own⟩
    have makes' : order'.call.Makes turn'.outcome? x := ⟨draft', c', same', ended', own'⟩
    exact congrArg Turn.task (chronicle.once mem mem' (called_of_known known) (called_of_known known')
      (Call.makes_drawing.2 makes) (Call.makes_drawing.2 makes'))
  · intro turn mem order draft known same unanswered few
    obtain ⟨call, h₁, h₂, told, -, does⟩ := chronicle.mem mem
    rw [called_of_known known, same] at told
    cases told
    refine ⟨h₁, h₂, does.before, does.after, ?_⟩
    cases ended : turn.outcome? with
    | none => exact .inl ((does.idles ended).still trivial)
    | some outcome =>
      cases outcome with
      | ok reply => exact absurd ended (unanswered reply)
      | error e => exact does.unadded draft e rfl ended few
  · intro unmade few
    have unspent : ¬ h.store.Spent x := by
      apply chronicle.unspent
      · intro turn mem call told
        obtain ⟨order, known, rfl⟩ := Option.map_eq_some_iff.1 told
        rw [Call.makes_drawing]
        rintro ⟨draft, c, same, answered, own⟩
        obtain ⟨-, -, ended, -⟩ := heeds.turns turn mem
        exact unmade turn.task order known ⟨draft, c, same, ended _ answered, own⟩
      · intro turn mem call told
        obtain ⟨order, known, rfl⟩ := Option.map_eq_some_iff.1 told
        exact few turn mem order known
    refine ⟨h, chronicled.holds, unspent, ?_⟩
    rintro c w rfl valid housed serves
    have wellKept := chronicle.wellKept
    exact Repository.succeeds_create serves wellKept.sane wellKept.indexed valid unspent housed
  · refine (chronicle.pairwise (x := x)).2.imp_of_mem fun {winner later} _ mem after => ?_
    intro order order' draft known makes known' same named
    obtain ⟨call, h₁, h₂, known'', -, spent, does⟩ := after _ (called_of_known known) (Call.makes_drawing.2 makes)
    rw [called_of_known known', same] at known''
    cases known''
    obtain ⟨rfl, declines⟩ := does.taken named spent fun reason =>
      heeds.stopped mem known' (Call.writesOnce_of_drawing same)
    exact ⟨h₂, does.before, does.after, does.undergoes, declines⟩

end Course

/-- A container was created and deleted. Another one of its name is not created. Neither is one whose identifier is
drawn when a container has it already. -/
theorem deleted_identifier_taken : ∃ sys orders log, Course {} sys orders log ∧
    (sys.shared.world.store.read "a").map Option.isSome = .ok false ∧
    sys.result? 2 = some (.error (.alreadyExists "a")) ∧ sys.result? 4 = some (.error (.alreadyExists "id-1")) ∧
    ∀ id id' order order', orders id = some order → orders id' = some order' →
      order.call.Makes (sys.result? id) "a" → order'.call.Makes (sys.result? id') "a" → id = id' := by
  have empty : Course {} { shared := { world := default } } (fun _ => none) [] := .start ⟨rfl, rfl⟩
  obtain ⟨_, created⟩ := (empty.spawn { token := [0] } (.create (.new "a" "" .basic none))).settle
  obtain ⟨_, deleted⟩ := (created.spawn { token := [1] } (.delete "a")).settle
  obtain ⟨_, again⟩ := (deleted.spawn { token := [2] } (.create (.named "a" "" "BasicContainer"))).settle
  obtain ⟨_, other⟩ := (again.spawn { token := [3] } (.create (.new "id-1" "" .basic none))).settle
  obtain ⟨_, drawn⟩ := (other.spawn { token := [4] } (.create (.new "" "" .basic none))).settle
  refine ⟨_, _, _, drawn, ?_, ?_, ?_, (drawn.identifiers_used_once "a").1⟩
  · decide +kernel
  · decide +kernel
  · decide +kernel

end Containment
