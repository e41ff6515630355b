/-
Module: Containment.Repository.Membership
Purpose: Adding members to a container, removing and listing them.
Main exports: addMember, addMembers, removeMember, listMembers, countMembers
-/
import Containment.Repository.Commit

namespace Containment.Repository

open Containment.Action

/-- The part of `addMember` that runs while the container is held. -/
def addMemberHeld (container member : String) (type : MemberType) : Action Member := do
  let (record, c) ← load container
  let time ← now
  let c ← ofContainer (c.addMember member type time)
  checkContext
  let added : Member := { id := member, type, addedAt := time }
  let _ ← commit record c [.insert added]
  publish c.takeEvents.1
  pure added

/-- List a member in a container. -/
def addMember (classifier : Classifier) (container member : String) : Action Member := do
  let type ← classify classifier container member
  writing container (addMemberHeld container member type)

/-- List several members one after the other; the first failure ends it. The answer is their number. -/
def addMembers (classifier : Classifier) (container : String) : List String → Action Nat
  | [] => pure 0
  | member :: rest => do
    let _ ← addMember classifier container member
    let others ← addMembers classifier container rest
    pure (others + 1)

/-- Refuse to strike off a member that is a child: a stored container that names this one as its parent. -/
def refuseChild (container member : String) : Action Unit := do
  if let some child ← read? member then
    if child.parentId = container then throw (.childContainer container member)

/-- Strike a member off a container that has been loaded. -/
def strikeOff (record : Record) (container : Container) (member : String) : Action Member := do
  let time ← now
  let (removed, container) ← ofContainer (container.removeMember member time)
  checkContext
  let _ ← commit record container [.remove member]
  publish container.takeEvents.1
  pure removed

/-- The part of `removeMember` that runs while the container is held. -/
def removeMemberHeld (container member : String) : Action Member := do
  let (record, c) ← load container
  if c.containsMember member then refuseChild container member
  strikeOff record c member

/-- Strike a member off a container. -/
def removeMember (container member : String) : Action Member :=
  writing container (removeMemberHeld container member)

/-- One window of a container's members. -/
def listMembers (limits : Limits) (container : String) (options : ListOptions) : Action MemberPage :=
  let limit := limits.pageLimit options.limit
  reading container do
    let total ← askIndex container (tryIndex (.count container options.memberType))
    let entries ←
      if limit = 0 ∨ total ≤ options.offset then pure []
      else askIndex container (tryIndex (.select container
        { offset := options.offset, limit := some limit, sort := options.sort
          memberType := options.memberType }))
    pure { entries, total, offset := options.offset, limit }

/-- The number of a container's members. -/
def countMembers (container : String) (type : Option MemberType) : Action Nat :=
  reading container do
    askIndex container (tryIndex (.count container type))

end Containment.Repository
