/-
Module: Containment.Proofs.Concurrency.Drawing
Purpose: Creations that leave the identifier to be drawn. Such a creation draws it in its first turn, and from then on
  it goes on as if its draft had named it.
Main exports: drawnBy, Draft.drawing, Call.drawing, Call.IsUnnamed, Call.program_unnamed, Program.Travels.answered,
  System.Draws, Course.draws
-/
import Containment.Proofs.Concurrency.Course
import Containment.Proofs.Repository.Spending

namespace Containment

/-! ### What has been drawn -/

/-- The identifier that a request has drawn. -/
def Deed.drawn? : Deed → Option String
  | ⟨.drawId, id, _⟩ => some id
  | _ => none

/-- The identifiers that a turn has drawn, in their order. -/
def Turn.drawn (turn : Turn) : List String :=
  turn.deeds.filterMap Deed.drawn?

/-- The identifiers that a task has drawn in its turns, in their order. -/
def drawnBy (log : List Turn) (id : Nat) : List String :=
  (log.filter (·.task = id)).flatMap Turn.drawn

section

variable {log : List Turn} {turn : Turn} {id : Nat}

theorem drawnBy_append (log more : List Turn) (id : Nat) :
    drawnBy (log ++ more) id = drawnBy log id ++ drawnBy more id := by
  simp [drawnBy]

theorem drawnBy_own (turn : Turn) : drawnBy [turn] turn.task = turn.drawn := by
  simp [drawnBy]

/-- Who has had no turn has drawn nothing. -/
theorem drawnBy_eq_nil (apart : ∀ turn ∈ log, turn.task ≠ id) : drawnBy log id = [] := by
  have none : log.filter (·.task = id) = [] := by simpa using apart
  rw [drawnBy, none]
  rfl

theorem drawnBy_concat_other (apart : turn.task ≠ id) : drawnBy (log ++ [turn]) id = drawnBy log id := by
  have nothing : drawnBy [turn] id = [] := drawnBy_eq_nil (by simpa using apart)
  rw [drawnBy_append, nothing, List.append_nil]

end

/-! ### The call with what has been drawn for it -/

/-- The draft with the first identifier that has been drawn for it, if it names none. -/
def Draft.drawing : Draft → List String → Draft
  | .new id parentId type title, drawn => .new (if id.isEmpty then drawn.headD id else id) parentId type title
  | .named id parentId typeName, _ => .named id parentId typeName
  | .restored snapshot, _ => .restored snapshot

/-- The call with the first identifier that has been drawn for it, if it is a creation that names none. -/
def Call.drawing (call : Call) (drawn : List String) : Call :=
  match call with
  | .create draft => .create (draft.drawing drawn)
  | _ => call

/-- A creation that leaves the identifier to be drawn. -/
def Call.IsUnnamed (call : Call) : Prop :=
  ∃ parentId type title, call = .create (.new "" parentId type title)

/-- What a draft stands for that names what was drawn, a draft that names nothing may stand for. -/
theorem Draft.Describes.unnamed {x parentId : String} {type : ContainerType} {title : Option String} {c : Container}
    (describes : (Draft.new x parentId type title).Describes c) : (Draft.new "" parentId type title).Describes c := by
  obtain ⟨drawn, time, made, -, created⟩ := describes
  exact ⟨drawn, time, made, fun proper => absurd rfl proper, created⟩

namespace Call

variable {call : Call} {drawn more : List String}

/-- For all other calls it does not matter what is drawn. -/
theorem drawing_of_named (named : ¬ call.IsUnnamed) (drawn : List String) : call.drawing drawn = call := by
  cases call with
  | create draft =>
    cases draft with
    | new id parentId type title =>
      by_cases unnamed : id.isEmpty = true
      · rw [String.isEmpty_iff] at unnamed
        subst unnamed
        exact absurd ⟨parentId, type, title, rfl⟩ named
      · simp only [drawing, Draft.drawing, if_neg unnamed]
    | named | restored => rfl
  | get | contains | delete | updateMetadata | addMember | addMembers | removeMember | listMembers | countMembers
  | drain | nextBatch | children | parent | path | find | move | rebuild | rebuildAll | verify => rfl

theorem drawing_nil (call : Call) : call.drawing [] = call := by
  by_cases unnamed : call.IsUnnamed
  · obtain ⟨parentId, type, title, rfl⟩ := unnamed
    rfl
  · exact drawing_of_named unnamed []

/-- Once something has been drawn, it does not matter what is drawn later. -/
theorem drawing_append (call : Call) (some : drawn ≠ []) : call.drawing (drawn ++ more) = call.drawing drawn := by
  obtain ⟨x, rest, rfl⟩ := List.exists_cons_of_ne_nil some
  by_cases unnamed : call.IsUnnamed
  · obtain ⟨parentId, type, title, rfl⟩ := unnamed
    rfl
  · rw [drawing_of_named unnamed, drawing_of_named unnamed]

theorem writesOnce_of_drawing {draft : Draft} (creation : call.drawing drawn = .create draft) : call.WritesOnce := by
  cases call <;> first | exact trivial | cases creation

/-- A creation that names no identifier draws one first. From then on it is a creation that names it. -/
theorem program_unnamed (settings : Settings) (parentId : String) (type : ContainerType) (title : Option String) :
    ∃ next : String → Program Outcome, (create (.new "" parentId type title)).program settings = .effect .drawId next ∧
      ∀ x, x ≠ "" → next x = (create (.new x parentId type title)).program settings := by
  refine ⟨_, rfl, fun x proper => ?_⟩
  have named : ¬ x.isEmpty = true := fun empty => proper (String.isEmpty_iff.1 empty)
  simp only [program, action, Repository.draw, Repository.newContainer, if_neg named, pure_bind]
  rfl

end Call

/-! ### The first turn of a creation -/

/-- A program that begins with a request makes it in its first turn, and goes on with the answer. -/
theorem Program.Travels.answered {α : Type} {context : Context} {id : Nat} {p : Program α} {s s' : Shared}
    {deeds : List Deed} {state : TaskState α} (travels : p.Travels context id s deeds state s') {request : Effect}
    {next : request.Answer → Program α} (begins : p = .effect request next) :
    ∃ answer fails rest, deeds = ⟨request, answer, fails⟩ :: rest ∧
      (Program.effect request fun _ => next answer).Travels context id s deeds state s' := by
  induction travels with
  | effect rest =>
    cases begins
    exact ⟨_, _, _, rfl, .effect rest⟩
  | drift drifts _ ih =>
    obtain ⟨answer, fails, rest, same, travels⟩ := ih begins
    exact ⟨answer, fails, rest, same, .drift drifts travels⟩
  | done | check | refused | granted | waits | pauses | release => cases begins

/-- In the first turn of a creation that names no identifier one is drawn. If it can name a container, the turn is one
of a program that draws an identifier and then is the creation that names the drawn one. -/
theorem Program.Travels.draws {settings : Settings} {context : Context} {id : Nat} {s s' : Shared} {deeds : List Deed}
    {state : TaskState Outcome} {parentId : String} {type : ContainerType} {title : Option String}
    (travels : ((Call.create (.new "" parentId type title)).program settings).Travels context id s deeds state s') :
    ∃ x rest, (Turn.noted id s deeds state s').drawn = x :: rest ∧ (x ≠ "" →
      (Program.effect .drawId fun _ => (Call.create (.new x parentId type title)).program settings).Travels context id s
        deeds state s') := by
  obtain ⟨next, begins, goesOn⟩ := Call.program_unnamed settings parentId type title
  obtain ⟨x, fails, rest, rfl, travels⟩ := travels.answered begins
  refine ⟨x, _, rfl, fun proper => ?_⟩
  rw [goesOn x proper] at travels
  exact travels

/-- Who has had no turn is where it began, and a creation that names no identifier has drawn one once it has had a
turn. -/
structure System.Draws (settings : Settings) (sys : System Outcome) (orders : Nat → Option Order)
    (log : List Turn) : Prop where
  begins : sys.Tells orders
    (fun id order task => (∀ turn ∈ log, turn.task ≠ id) → task.state = .fresh (order.call.program settings))
    fun id => ∀ turn ∈ log, turn.task ≠ id
  draws : ∀ turn ∈ log, ∃ order, orders turn.task = some order ∧
    (order.call.IsUnnamed → drawnBy log turn.task ≠ [])

namespace System.Draws

variable {settings : Settings} {sys : System Outcome} {orders : Nat → Option Order} {log : List Turn}

theorem drawn (draws : sys.Draws settings orders log) {turn : Turn} (mem : turn ∈ log) {order : Order}
    (known : orders turn.task = some order) (unnamed : order.call.IsUnnamed) : drawnBy log turn.task ≠ [] := by
  obtain ⟨order', known', drew⟩ := draws.draws turn mem
  rw [known] at known'
  cases known'
  exact drew unnamed

/-- What a task draws after its first turn makes no difference to its call. -/
theorem drawing_append (draws : sys.Draws settings orders log) {turn : Turn} (mem : turn ∈ log) {order : Order}
    (known : orders turn.task = some order) (more : List Turn) :
    order.call.drawing (drawnBy (log ++ more) turn.task) = order.call.drawing (drawnBy log turn.task) := by
  by_cases unnamed : order.call.IsUnnamed
  · rw [drawnBy_append, Call.drawing_append _ (draws.drawn mem known unnamed)]
  · rw [Call.drawing_of_named unnamed, Call.drawing_of_named unnamed]

theorem start (world : World) : Draws settings { shared := { world } } (fun _ => none) [] :=
  ⟨.start fun _ _ mem => absurd mem List.not_mem_nil, fun _ mem => absurd mem List.not_mem_nil⟩

theorem spawn (context : Context) (call : Call) (entry : Timeline) (draws : sys.Draws settings orders log) :
    (sys.spawn context (call.program settings)).2.Draws settings
      (Function.update orders sys.made (some { call, context, entry })) log := by
  refine ⟨draws.begins.spawn context _ _ fun _ _ => rfl, fun turn mem => ?_⟩
  obtain ⟨order, known, drew⟩ := draws.draws turn mem
  refine ⟨order, ?_, drew⟩
  rw [Function.update_of_ne (Nat.ne_of_lt (draws.begins.known_lt known)), known]

/-- A turn of one task. -/
theorem turn {id : Nat} {task : Task Outcome} {deeds : List Deed} {state : TaskState Outcome} {shared : Shared}
    (draws : sys.Draws settings orders log) (found : sys.tasks[id]? = some task)
    (takes : task.Takes id sys.shared deeds state shared) :
    (sys.turned id task state shared).Draws settings orders (log ++ [.noted id sys.shared deeds state shared]) := by
  obtain ⟨order, known, begun⟩ := draws.begins.tasks id task found
  constructor
  · apply draws.begins.turned found
    · exact fun _ _ _ apart => absurd rfl (apart _ (List.mem_append_right _ (List.mem_singleton_self _)))
    · exact fun other _ _ _ begun apart => begun fun turn mem => apart turn (List.mem_append_left _ mem)
    · intro other ne apart turn mem
      rcases List.mem_append.1 mem with old | new
      · exact apart turn old
      · rw [List.mem_singleton.1 new]
        exact Ne.symm ne
  · intro turn mem
    rcases List.mem_append.1 mem with old | new
    · obtain ⟨order', known', drew⟩ := draws.draws turn old
      refine ⟨order', known', fun unnamed => ?_⟩
      rw [drawnBy_append]
      exact List.append_ne_nil_of_left_ne_nil (drew unnamed) _
    rw [List.mem_singleton.1 new]
    refine ⟨order, known, fun unnamed => ?_⟩
    rw [drawnBy_append]
    by_cases first : ∀ turn ∈ log, turn.task ≠ id
    · obtain ⟨context, _⟩ := task
      cases begun first
      obtain ⟨parentId, type, title, same⟩ := unnamed
      cases takes with
      | starts travels =>
        rw [same] at travels
        obtain ⟨x, rest, drawn, -⟩ := travels.draws
        apply List.append_ne_nil_of_right_ne_nil
        rw [drawnBy_own, drawn]
        exact List.cons_ne_nil x rest
    · push Not at first
      obtain ⟨earlier, old, rfl⟩ := first
      exact List.append_ne_nil_of_left_ne_nil (draws.drawn old known unnamed) _

end System.Draws

theorem Course.draws {settings : Settings} {sys : System Outcome} {orders : Nat → Option Order} {log : List Turn}
    (course : Course settings sys orders log) : sys.Draws settings orders log := by
  induction course with
  | start _ => exact .start _
  | spawn context call _ before => exact before.spawn context call _
  | turn _ found takes before => exact before.turn found takes
  | drift _ _ before => exact ⟨⟨before.begins.tasks, before.begins.unborn⟩, before.draws⟩

end Containment
