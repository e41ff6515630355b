/-
Module: Containment.Kind
Purpose: The kinds of containers, the kinds of their members, and the names of both.
Main exports: ContainerType, MemberType, TypeFault, ContainerType.parse, MemberType.parse
-/
import Containment.Text.Blank

namespace Containment

open Containment.Text

/-- The kind of a container, fixed when it is made. -/
inductive ContainerType where
  | basic
  | direct
  | indirect
deriving Repr, DecidableEq, Inhabited

/-- What a member is: a described resource, a container of its own, or content of another format. -/
inductive MemberType where
  | resource
  | container
  | binary
deriving Repr, DecidableEq, Inhabited

/-- A name that names no kind. -/
inductive TypeFault where
  | unknownContainerType (name : String)
  | unknownMemberType (name : String)
deriving Repr, DecidableEq

/-- The wording of a fault. -/
def TypeFault.message : TypeFault → String
  | .unknownContainerType name => s!"unknown container type: {name}"
  | .unknownMemberType name => s!"unknown member type: {name}"

/-- A name without blanks at its ends, in ASCII lower case. -/
def normalizedName (name : String) : String :=
  (trim name).map Char.toLower

namespace ContainerType

/-- The short name. -/
def name : ContainerType → String
  | .basic => "basic"
  | .direct => "direct"
  | .indirect => "indirect"

/-- The vocabulary term. -/
def term : ContainerType → String
  | .basic => "ldp:BasicContainer"
  | .direct => "ldp:DirectContainer"
  | .indirect => "ldp:IndirectContainer"

/-- The kind with a short name. -/
def ofName? : String → Option ContainerType
  | "basic" => some .basic
  | "direct" => some .direct
  | "indirect" => some .indirect
  | _ => none

/-- A short name, the class name or the vocabulary term, in any case of letters: `ldp:` in front and
`container` at the end are optional. -/
def parse (name : String) : Except TypeFault ContainerType :=
  let lowered := (normalizedName name).toList
  let bare := if "ldp:".toList.isPrefixOf lowered then lowered.drop 4 else lowered
  let short := if "container".toList.isSuffixOf bare then bare.take (bare.length - 9) else bare
  match ofName? (String.ofList short) with
  | some kind => .ok kind
  | none => .error (.unknownContainerType name)

end ContainerType

namespace MemberType

/-- The name. -/
def name : MemberType → String
  | .resource => "resource"
  | .container => "container"
  | .binary => "binary"

/-- The kind with a name. -/
def ofName? : String → Option MemberType
  | "resource" => some .resource
  | "container" => some .container
  | "binary" => some .binary
  | _ => none

/-- A name in any case of letters. -/
def parse (name : String) : Except TypeFault MemberType :=
  match ofName? (normalizedName name) with
  | some kind => .ok kind
  | none => .error (.unknownMemberType name)

@[simp] theorem ofName?_name (kind : MemberType) : ofName? kind.name = some kind := by
  cases kind <;> rfl

end MemberType

@[simp] theorem ContainerType.ofName?_name (kind : ContainerType) :
    ContainerType.ofName? kind.name = some kind := by
  cases kind <;> rfl

end Containment
