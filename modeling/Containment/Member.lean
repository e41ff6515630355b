/-
Module: Containment.Member
Purpose: Entries of a container's membership list, and the descriptive properties of a container.
Main exports: Member, Metadata
-/
import Containment.Kind
import Containment.Time.Instant
import Std.Data.ExtTreeMap

namespace Containment

open Time

/-- Descriptive properties: texts by key, in the order of the keys. -/
abbrev Metadata := Std.ExtTreeMap String String

/-- An entry of a container's ordered membership list. -/
structure Member where
  id : String
  type : MemberType
  addedAt : Instant
deriving Repr, DecidableEq, Inhabited

/-- Whether the entry stands for a container. -/
def Member.isContainer (m : Member) : Bool :=
  m.type == .container

end Containment
