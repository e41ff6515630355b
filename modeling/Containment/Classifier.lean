/-
Module: Containment.Classifier
Purpose: Guessing the kind of a member from its identifier.
Main exports: Classifier, Classifier.byExtension, Classifier.byLead
-/
import Containment.Kind

namespace Containment

/-- A rule that guesses the kind of a member from the identifiers of its container and itself. Members
that are stored containers never reach it. -/
abbrev Classifier := String → String → MemberType

namespace Classifier

/-- Endings of identifiers that stand for binary content. -/
def binaryExtensions : List String :=
  ["bin", "gif", "gz", "jpeg", "jpg", "mp3", "mp4", "pdf", "png", "svg", "tar", "webp", "zip"]

/-- What follows the last point, in ASCII lower case. -/
def extension? (id : String) : Option String :=
  let backwards := id.toList.reverse
  if backwards.contains '.' then
    some (String.ofList ((backwards.takeWhile (· ≠ '.')).reverse.map Char.toLower))
  else none

/-- A member with a known binary ending is binary, any other is a resource. -/
def byExtension : Classifier := fun _ member =>
  match extension? member with
  | some ending => if binaryExtensions.contains ending then .binary else .resource
  | none => .resource

/-- A member that starts with `lead` is binary, except in the container `plain`. -/
def byLead (lead : String) : Classifier := fun container member =>
  if lead.toList.isPrefixOf member.toList && container ≠ "plain" then .binary else .resource

end Classifier

end Containment
