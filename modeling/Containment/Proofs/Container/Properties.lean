/-
Module: Containment.Proofs.Container.Properties
Purpose: What an update of properties makes of a container. Its parts are made one after the other, and each looks for
  itself whether it has an effect; what comes of all of them, and what is reported, is told here from the update as a
  whole.
Main exports: MetadataUpdate.filled, MetadataUpdate.struck, MetadataUpdate.reports, Container.Amends,
  Repository.getElem?_applyUpdate, Repository.amends_applyUpdate
-/
import Containment.Proofs.Container.Rules
import Containment.Proofs.Maps
import Containment.Repository.Lifecycle

namespace Containment

open Time

namespace MetadataUpdate

/-- The properties that an update gives a value. -/
def filled (update : MetadataUpdate) : List String :=
  update.set.keys.filter fun key => !Container.isReserved key

/-- The properties that an update takes away from others, each at its first mention: they were there before or have been
set just now. -/
def struck (update : MetadataUpdate) (old : Metadata) : List String :=
  update.remove.eraseDups.filter fun key => !Container.isReserved key && (old.contains key || update.set.contains key)

/-- What an update of a container reports. -/
def reports (update : MetadataUpdate) (s : Snapshot) (time : Instant) : List Event :=
  let updated : Event := { kind := .containerUpdated, containerId := s.id, timestamp := time }
  update.filled.map (updated.withProperty "set") ++ (update.struck s.metadata).map (updated.withProperty "removed")

end MetadataUpdate

/-- Repetitions can be left out before or after a choice. -/
theorem eraseDups_filter (p : String → Bool) : ∀ items : List String,
    (items.filter p).eraseDups = items.eraseDups.filter p
  | [] => rfl
  | a :: rest => by
    have shorter : (rest.filter fun b => !b == a).length < (a :: rest).length :=
      Nat.lt_succ_of_le (List.length_filter_le _ _)
    have chosen := eraseDups_filter p (rest.filter fun b => !b == a)
    rw [List.filter_filter] at chosen
    rw [List.eraseDups_cons]
    by_cases good : p a = true
    · rw [List.filter_cons_of_pos good, List.filter_cons_of_pos good, List.eraseDups_cons, List.filter_filter, ← chosen]
      simp only [Bool.and_comm]
    · have apart : ∀ b ∈ rest, (p b && !b == a) = p b := by
        intro b _
        by_cases same : b = a
        · subst same
          rw [Bool.eq_false_iff.2 good, Bool.false_and]
        · rw [beq_false_of_ne same, Bool.not_false, Bool.and_true]
      rw [List.filter_cons_of_neg good, List.filter_cons_of_neg good, ← chosen, List.filter_congr apart]
termination_by items => items.length
decreasing_by exact shorter

namespace Container

variable {c d e : Container} {time : Instant} {key : String} {events events' : List Event}

/-! ### Single properties -/

theorem ne_of_isReserved {name : String} (reserved : isReserved name = true) (plain : isReserved key = false) :
    name ≠ key := by
  rintro rfl
  rw [plain] at reserved
  cases reserved

theorem getElem?_setProperty (plain : isReserved key = false) (name value : String) (now : Instant) :
    (c.setProperty name value now).metadata[key]? = if name = key then some value else c.metadata[key]? := by
  rw [setProperty]
  split
  · rename_i reserved
    rw [if_neg (ne_of_isReserved reserved plain)]
  · change ((c.metadata.insert name value).insert modifiedKey _)[key]? = _
    rw [getElem?_insert_of_ne (isReserved_eq_false_iff.1 plain).2.symm, Std.ExtTreeMap.getElem?_insert]
    simp only [Std.LawfulEqCmp.compare_eq_iff_eq]

theorem getElem?_removeProperty (plain : isReserved key = false) (name : String) (now : Instant) :
    (c.removeProperty name now).2.metadata[key]? = if name = key then none else c.metadata[key]? := by
  rw [removeProperty]
  split
  · rename_i reserved
    rw [if_neg (ne_of_isReserved reserved plain)]
  · cases found : c.metadata[name]? with
    | none =>
      change c.metadata[key]? = _
      split
      · rename_i same
        rw [← same, found]
      · rfl
    | some value =>
      change ((c.metadata.erase name).insert modifiedKey _)[key]? = _
      rw [getElem?_insert_of_ne (isReserved_eq_false_iff.1 plain).2.symm, Std.ExtTreeMap.getElem?_erase]
      simp only [Std.LawfulEqCmp.compare_eq_iff_eq]

/-- The property is there, and the container does not maintain it itself. -/
def canLose (c : Container) (key : String) : Bool :=
  !isReserved key && c.metadata.contains key

theorem canLose_removeProperty (c : Container) (name : String) (now : Instant) (key : String) :
    (c.removeProperty name now).2.canLose key = (c.canLose key && !key == name) := by
  rw [canLose, canLose]
  cases plain : isReserved key with
  | true => rfl
  | false =>
    rw [Std.ExtTreeMap.contains_eq_isSome_getElem?, Std.ExtTreeMap.contains_eq_isSome_getElem?,
      getElem?_removeProperty plain]
    by_cases same : name = key
    · subst same
      rw [if_pos rfl, beq_self_eq_true, Bool.not_true, Bool.and_false]
      rfl
    · rw [if_neg same, beq_false_of_ne (Ne.symm same), Bool.not_false, Bool.and_true]

/-- One container comes of another by changes of properties at one time, which are reported like this. If there are
none, it is the same container; otherwise the time is noted. -/
structure Amends (time : Instant) (c d : Container) (events : List Event) : Prop where
  shape : c.SameShape d
  createdAt : d.createdAt = c.createdAt
  created : d.metadata[createdKey]? = c.metadata[createdKey]?
  pending : d.pending = c.pending ++ events
  idle : events = [] → d = c
  dated : events ≠ [] → d.updatedAt = time ∧ d.metadata[modifiedKey]? = some time.toOffsetText

theorem Amends.refl (time : Instant) (c : Container) : Amends time c c [] where
  shape := ⟨rfl, rfl, rfl, rfl⟩
  createdAt := rfl
  created := rfl
  pending := (List.append_nil _).symm
  idle := fun _ => rfl
  dated := fun some => absurd rfl some

theorem Amends.trans (one : Amends time c d events) (two : Amends time d e events') :
    Amends time c e (events ++ events') where
  shape := one.shape.trans two.shape
  createdAt := two.createdAt.trans one.createdAt
  created := two.created.trans one.created
  pending := by rw [two.pending, one.pending, List.append_assoc]
  idle := by
    intro none
    obtain ⟨noFirst, noSecond⟩ := List.append_eq_nil_iff.1 none
    rw [two.idle noSecond, one.idle noFirst]
  dated := by
    intro some
    by_cases noSecond : events' = []
    · rw [two.idle noSecond]
      apply one.dated
      rintro rfl
      exact some noSecond
    · exact two.dated noSecond

/-- A change of other properties is noted and reported once. -/
theorem amends_noted {metadata : Metadata} (created : metadata[createdKey]? = c.metadata[createdKey]?) (event : Event) :
    Amends time c ((touch { c with metadata } time).queue event) [event] where
  shape := ⟨rfl, rfl, rfl, rfl⟩
  createdAt := rfl
  created := (getElem?_insert_of_ne (by decide)).trans created
  pending := rfl
  idle := fun none => by cases none
  dated := fun _ => ⟨rfl, Std.ExtTreeMap.getElem?_insert_self⟩

theorem amends_setProperty (plain : isReserved key = false) (value : String) :
    Amends time c (c.setProperty key value time) [(c.updated time).withProperty "set" key] := by
  rw [setProperty, if_neg (Bool.eq_false_iff.1 plain)]
  exact amends_noted (getElem?_insert_of_ne (isReserved_eq_false_iff.1 plain).1) _

theorem amends_removeProperty (effective : c.canLose key = true) :
    Amends time c (c.removeProperty key time).2 [(c.updated time).withProperty "removed" key] := by
  obtain ⟨plain, known⟩ := Bool.and_eq_true_iff.1 effective
  rw [Bool.not_eq_true'] at plain
  obtain ⟨value, found⟩ : ∃ value, c.metadata[key]? = some value := by
    rw [← Option.isSome_iff_exists, ← Std.ExtTreeMap.contains_eq_isSome_getElem?]
    exact known
  rw [removeProperty, if_neg (Bool.eq_false_iff.1 plain)]
  simp only [found]
  exact amends_noted (getElem?_erase_of_ne (isReserved_eq_false_iff.1 plain).1) _

/-- What is not there, or belongs to the container itself, cannot be taken away. -/
theorem removeProperty_idle (idle : ¬ c.canLose key = true) (now : Instant) : (c.removeProperty key now).2 = c := by
  rw [canLose] at idle
  rw [removeProperty]
  split
  · rfl
  · rename_i plain
    have missing : c.metadata[key]? = none := by
      rw [Bool.eq_false_iff.2 plain, Bool.not_false, Bool.true_and, Std.ExtTreeMap.contains_eq_isSome_getElem?,
        Bool.not_eq_true, Option.isSome_eq_false_iff, Option.isNone_iff_eq_none] at idle
      exact idle
    rw [missing]

theorem updated_congr (shape : c.SameShape d) (now : Instant) : d.updated now = c.updated now := by
  rw [updated, updated, shape.id]

/-! ### All values of an update -/

/-- The container with some properties set, one after the other. -/
def setAll (c : Container) (entries : List (String × String)) (time : Instant) : Container :=
  entries.foldl (fun c entry => c.setProperty entry.1 entry.2 time) c

theorem setAll_cons (c : Container) (entry : String × String) (rest : List (String × String)) (time : Instant) :
    c.setAll (entry :: rest) time = (c.setProperty entry.1 entry.2 time).setAll rest time :=
  rfl

theorem amends_sets (entries : List (String × String)) (c : Container) :
    Amends time c (c.setAll entries time)
      (((entries.map Prod.fst).filter fun key => !isReserved key).map ((c.updated time).withProperty "set")) := by
  induction entries generalizing c with
  | nil => exact .refl time c
  | cons entry rest ih =>
    obtain ⟨name, value⟩ := entry
    rw [setAll_cons, List.map_cons]
    cases plain : isReserved name with
    | true =>
      have same : c.setProperty name value time = c := if_pos plain
      rw [List.filter_cons_of_neg (by simp [plain]), same]
      exact ih c
    | false =>
      have step : Amends time c (c.setProperty name value time) [(c.updated time).withProperty "set" name] :=
        amends_setProperty plain value
      have others := ih (c.setProperty name value time)
      rw [updated_congr step.shape] at others
      rw [List.filter_cons_of_pos (by simp [plain])]
      exact step.trans others

/-- The values of the last pairs stand. -/
theorem getElem?_sets (plain : isReserved key = false) (entries : List (String × String)) {c : Container}
    {t : Metadata} (same : c.metadata[key]? = t[key]?) :
    (c.setAll entries time).metadata[key]? = (insertAll id entries t)[key]? := by
  induction entries generalizing c t with
  | nil => exact same
  | cons entry rest ih =>
    apply ih
    rw [getElem?_setProperty plain, Std.ExtTreeMap.getElem?_insert, same]
    simp only [Std.LawfulEqCmp.compare_eq_iff_eq, id]

/-! ### All removals of an update -/

/-- The container with some properties taken away, one after the other. -/
def removeAll (c : Container) (keys : List String) (time : Instant) : Container :=
  keys.foldl (fun c key => (c.removeProperty key time).2) c

theorem removeAll_cons (c : Container) (key : String) (rest : List String) (time : Instant) :
    c.removeAll (key :: rest) time = (c.removeProperty key time).2.removeAll rest time :=
  rfl

theorem amends_removals (keys : List String) (c : Container) :
    Amends time c (c.removeAll keys time)
      ((keys.eraseDups.filter c.canLose).map ((c.updated time).withProperty "removed")) := by
  induction keys generalizing c with
  | nil => exact .refl time c
  | cons name rest ih =>
    -- whether or not it was there before, the property is missing from now on
    have later : (rest.filter fun key => !key == name).eraseDups.filter c.canLose =
        rest.eraseDups.filter (c.removeProperty name time).2.canLose := by
      rw [eraseDups_filter, List.filter_filter]
      exact List.filter_congr fun key _ => (canLose_removeProperty c name time key).symm
    have others := ih (c.removeProperty name time).2
    rw [updated_congr (sameShape_removeProperty c name time), ← later] at others
    rw [removeAll_cons, List.eraseDups_cons]
    by_cases effective : c.canLose name = true
    · rw [List.filter_cons_of_pos effective]
      exact (amends_removeProperty effective).trans others
    · rw [List.filter_cons_of_neg effective]
      rw [removeProperty_idle effective] at others ⊢
      exact others

theorem getElem?_removals (plain : isReserved key = false) (keys : List String) (c : Container) :
    (c.removeAll keys time).metadata[key]? = if key ∈ keys then none else c.metadata[key]? := by
  induction keys generalizing c with
  | nil => rfl
  | cons name rest ih =>
    rw [removeAll_cons, ih, getElem?_removeProperty plain]
    by_cases same : name = key
    · simp [same]
    · simp [same, Ne.symm same]

end Container

/-! ### The whole update -/

namespace Repository

open Container

variable {key : String}

/-- The values of an update stand beside the earlier ones. -/
theorem getElem?_set (plain : isReserved key = false) (c : Container) (update : MetadataUpdate) (time : Instant) :
    (c.setAll update.set.toList time).metadata[key]? = (update.set[key]?).or c.metadata[key]? := by
  rw [getElem?_sets plain update.set.toList rfl]
  cases given : update.set[key]? with
  | none =>
    apply getElem?_insertAll_of_forall_ne
    rintro ⟨name, value⟩ mem rfl
    rw [id, Std.ExtTreeMap.mem_toList_iff_getElem?_eq_some.1 mem] at given
    cases given
  | some value =>
    apply getElem?_insertAll_of_exists
    · exact ⟨(key, value), Std.ExtTreeMap.mem_toList_iff_getElem?_eq_some.2 given, rfl⟩
    · rintro ⟨name, value'⟩ mem rfl
      rw [id, Std.ExtTreeMap.mem_toList_iff_getElem?_eq_some.1 mem] at given
      exact Option.some.inj given

/-- What has been removed is missing at the end, also if the same update sets it; of the others, what has been set has
its new value. -/
theorem getElem?_applyUpdate (plain : isReserved key = false) (c : Container) (update : MetadataUpdate)
    (time : Instant) :
    (applyUpdate c update time).metadata[key]? =
      if key ∈ update.remove then none else (update.set[key]?).or c.metadata[key]? := by
  rw [← getElem?_set plain c update time]
  exact getElem?_removals plain update.remove _

/-- An update is reported property by property, and changes nothing if there is nothing to report. -/
theorem amends_applyUpdate (c : Container) (update : MetadataUpdate) (time : Instant) :
    Amends time c (applyUpdate c update time) (update.reports c.toSnapshot time) := by
  have sets : Amends time c (c.setAll update.set.toList time)
      (update.filled.map ((c.updated time).withProperty "set")) := by
    rw [MetadataUpdate.filled, ← Std.ExtTreeMap.map_fst_toList_eq_keys]
    exact amends_sets update.set.toList c
  have present : ∀ key, (c.setAll update.set.toList time).canLose key =
      (!isReserved key && (c.metadata.contains key || update.set.contains key)) := by
    intro key
    rw [canLose]
    cases plain : isReserved key with
    | true => rfl
    | false =>
      simp only [Std.ExtTreeMap.contains_eq_isSome_getElem?, getElem?_set plain, Option.isSome_or, Bool.or_comm]
  have removals : Amends time (c.setAll update.set.toList time) (applyUpdate c update time)
      ((update.struck c.metadata).map ((c.updated time).withProperty "removed")) := by
    rw [MetadataUpdate.struck, ← updated_congr sets.shape, ← List.filter_congr fun key _ => present key]
    exact amends_removals update.remove _
  exact sets.trans removals

end Repository

end Containment
