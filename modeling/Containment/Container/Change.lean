/-
Module: Containment.Container.Change
Purpose: What can be asked of a container at work, as data. A container is changed in place: every request has an answer
  and leaves the container in some state, those that are refused included.
Main exports: Container.Change, Container.Change.Answer, Container.strike, Container.perform, Container.after
-/
import Containment.Container.Basic

namespace Containment

open Time

namespace Container

/-- A change that is asked of a container, with its time. The last one empties the queue of reports. -/
inductive Change where
  | addMember (id : String) (type : MemberType) (now : Instant)
  | removeMember (id : String) (now : Instant)
  | setProperty (key value : String) (now : Instant)
  | removeProperty (key : String) (now : Instant)
  | setTitle (title : String) (now : Instant)
  | setDescription (text : String) (now : Instant)
  | reparent (parentId : String) (now : Instant)
  | markDeleted (now : Instant)
  | takeEvents
deriving Repr, DecidableEq

/-- What a container answers. -/
inductive Change.Answer where
  | done
  | refused (error : ContainerError)
  | removed (member : Member)
  | taken (value : Option String)
  | events (reports : List Event)
deriving DecidableEq

/-- Strike a member off in place. The look-up set is changed first and the list is searched then: a member that is in
the set alone would be forgotten although it is not found. -/
def strike (c : Container) (memberId : String) (now : Instant) : Except ContainerError Member × Container :=
  if !c.memberIds.contains memberId then (.error (.memberNotFound c.id memberId), c)
  else
    let forgetful : Container := { c with memberIds := c.memberIds.erase memberId }
    match forgetful.members.find? (·.id == memberId) with
    | none => (.error (.memberNotFound c.id memberId), forgetful)
    | some removed =>
      let shrunk : Container := { forgetful with members := c.members.eraseP (·.id == memberId) }
      (.ok removed, (shrunk.touch now).queue (.ofMember .memberRemoved c.id removed.id removed.type now))

/-- The changed container, or the container as it is with the reason why it is not changed. -/
def attempt (c : Container) : Except ContainerError Container → Change.Answer × Container
  | .ok changed => (.done, changed)
  | .error e => (.refused e, c)

/-- Do what is asked of a container. -/
def perform (c : Container) : Change → Change.Answer × Container
  | .addMember id type now => c.attempt (c.addMember id type now)
  | .removeMember id now =>
    match c.strike id now with
    | (.ok removed, shrunk) => (.removed removed, shrunk)
    | (.error e, left) => (.refused e, left)
  | .setProperty key value now => (.done, c.setProperty key value now)
  | .removeProperty key now =>
    let (value, changed) := c.removeProperty key now
    (.taken value, changed)
  | .setTitle title now => (.done, c.setTitle title now)
  | .setDescription text now => (.done, c.setDescription text now)
  | .reparent parentId now => c.attempt (c.reparent parentId now)
  | .markDeleted now => (.done, c.markDeleted now)
  | .takeEvents =>
    let (reports, emptied) := c.takeEvents
    (.events reports, emptied)

/-- The container after some changes, one after the other. -/
def after (c : Container) (changes : List Change) : Container :=
  changes.foldl (fun c change => (c.perform change).2) c

end Container

end Containment
