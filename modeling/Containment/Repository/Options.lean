/-
Module: Containment.Repository.Options
Purpose: The bounds that a repository keeps, and what callers can ask of listings and property changes.
Main exports: Limits, ListOptions, MemberPage, MetadataUpdate
-/
import Containment.Index.Entry

namespace Containment

/-- The bounds of a repository: the longest chain of parents, the page sizes, the batch size. -/
structure Limits where
  maxDepth : Nat := 256
  defaultPageLimit : Nat := 100
  maxPageLimit : Nat := 1000
  cursorBatchSize : Nat := 500
deriving Repr, DecidableEq, Inhabited

/-- The size of the page for a request: the default if it names none, and never above the bound. -/
def Limits.pageLimit (limits : Limits) (requested : Option Nat) : Nat :=
  min (requested.getD limits.defaultPageLimit) limits.maxPageLimit

/-- What a listing is asked for. -/
structure ListOptions where
  offset : Nat := 0
  limit : Option Nat := none
  sort : SortOrder := .insertion
  memberType : Option MemberType := none
deriving Repr, DecidableEq, Inhabited

/-- One window of a container's members; `total` counts all members that pass the filter. -/
structure MemberPage where
  entries : List IndexEntry
  total : Nat
  offset : Nat
  limit : Nat
deriving Repr, DecidableEq, Inhabited

/-- Whether members remain after this page. -/
def MemberPage.hasMore (page : MemberPage) : Bool :=
  page.offset + page.entries.length < page.total

/-- Changes of properties that are made together: first all of `set`, then all of `remove`. -/
structure MetadataUpdate where
  set : Metadata := ∅
  remove : List String := []
deriving DecidableEq, Inhabited

namespace MetadataUpdate

/-- Also give a property a value. -/
def withSet (update : MetadataUpdate) (key value : String) : MetadataUpdate :=
  { update with set := update.set.insert key value }

/-- Also take a property away. -/
def withRemove (update : MetadataUpdate) (key : String) : MetadataUpdate :=
  { update with remove := update.remove ++ [key] }

/-- Whether nothing is asked. -/
def isEmpty (update : MetadataUpdate) : Bool :=
  update.set.isEmpty && update.remove.isEmpty

end MetadataUpdate

end Containment
