/-
Module: Containment.Container.Error
Purpose: Which rules a container refuses to break.
Main exports: ContainerError, ContainerError.message
-/
import Containment.ContainerId

namespace Containment

open Containment.Text

/-- Why a container cannot be made or changed as asked. -/
inductive ContainerError where
  | invalidId (id : String) (fault : IdFault)
  | invalidType (name : String)
  | invalidMemberId (container member : String)
  | selfMembership (id : String)
  | duplicateMember (container member : String)
  | memberNotFound (container member : String)
  | circularReference (id parent : String)
deriving Repr, DecidableEq

/-- The wording of an error. -/
def ContainerError.message : ContainerError → String
  | .invalidId id fault => fault.message id
  | .invalidType name => s!"invalid container type: {name}"
  | .invalidMemberId container member =>
      s!"invalid member id {quoted member} for container {container}"
  | .selfMembership id => s!"container {id} cannot be a member of itself"
  | .duplicateMember container member =>
      s!"member {member} already present in container {container}"
  | .memberNotFound container member => s!"member {member} not found in container {container}"
  | .circularReference id parent =>
      s!"container {id} cannot have {parent} as parent: circular reference"

end Containment
