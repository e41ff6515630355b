/-
Module: Containment.ContainerId
Purpose: Which texts identify a container. An identifier is one segment of a path.
Main exports: IdFault, ContainerId.check
-/
import Containment.Text.Blank
import Containment.Text.Quoted

namespace Containment

open Containment.Text

/-- Why a text cannot identify a container. -/
inductive IdFault where
  | empty
  | slash
  | controlCharacter
deriving Repr, DecidableEq

/-- The reason in words. -/
def IdFault.reason : IdFault → String
  | .empty => "must not be empty"
  | .slash => "must not contain '/'"
  | .controlCharacter => "must not contain control characters"

/-- The wording of a fault together with the text at fault. -/
def IdFault.message (id : String) (fault : IdFault) : String :=
  s!"invalid container id {quoted id}: {fault.reason}"

namespace ContainerId

/-- An identifier is not empty and holds neither a slash nor a control character; the first rule that
is broken is reported. -/
def check (id : String) : Except IdFault Unit :=
  if id.toList.isEmpty then .error .empty
  else if id.toList.contains '/' then .error .slash
  else if id.toList.any isControl then .error .controlCharacter
  else .ok ()

/-- A text that identifies a container. -/
def Valid (id : String) : Prop :=
  id ≠ "" ∧ '/' ∉ id.toList ∧ ∀ c ∈ id.toList, isControl c = false

end ContainerId

end Containment
