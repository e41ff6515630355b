/-
Module: Containment.Index.Entry
Purpose: Rows of the membership index and the questions asked about them.
Main exports: IndexEntry, SortOrder, IndexQuery, IndexError
-/
import Containment.Member

namespace Containment

open Time

/-- A row: `memberId` is listed in `containerId`. Rows are numbered through the whole index in the
order of their insertion. -/
structure IndexEntry where
  containerId : String
  memberId : String
  type : MemberType
  insertedAt : Instant
  seq : Nat
deriving Repr, DecidableEq, Inhabited

/-- The orders in which rows can be listed. -/
inductive SortOrder where
  | insertion
  | newestFirst
  | memberId
deriving Repr, DecidableEq, Inhabited

/-- A question about the rows of one container: rows of one kind or all, in some order, without the
first `offset` and no more than `limit`. -/
structure IndexQuery where
  offset : Nat := 0
  limit : Option Nat := none
  sort : SortOrder := .insertion
  memberType : Option MemberType := none
deriving Repr, DecidableEq, Inhabited

/-- Whether a row of a kind passes the filter. -/
def typePasses (wanted : Option MemberType) (type : MemberType) : Bool :=
  wanted.all (· == type)

/-- Whether a row passes the filter of a question. -/
def IndexQuery.accepts (query : IndexQuery) (entry : IndexEntry) : Bool :=
  typePasses query.memberType entry.type

/-- The window of a question in rows that are already in order. -/
def IndexQuery.window {α : Type} (query : IndexQuery) (rows : List α) : List α :=
  let rest := rows.drop query.offset
  match query.limit with
  | none => rest
  | some limit => rest.take limit

/-- Why a stored row is no entry. -/
inductive RowFault where
  | unknownMemberType (seq : Int) (fault : TypeFault)
  | badTimestamp (seq ms : Int)
  | negativeSeq (seq : Int)
deriving Repr, DecidableEq

/-- The wording of a fault. -/
def RowFault.message : RowFault → String
  | .unknownMemberType seq fault => s!"row {seq}: {fault.message}"
  | .badTimestamp seq ms => s!"row {seq}: bad timestamp {ms}"
  | .negativeSeq seq => s!"negative seq {seq}"

/-- What a database can fail with: no row number is left, or its file holds something else. -/
inductive DatabaseFault where
  | full
  | notADatabase
deriving Repr, DecidableEq

/-- The wording of a fault. -/
def DatabaseFault.message : DatabaseFault → String
  | .full => "database or disk is full"
  | .notADatabase => "file is not a database"

/-- The wording of the code behind a fault. -/
def DatabaseFault.codeMessage : DatabaseFault → String
  | .full => "Error code 13: Insertion failed because database is full"
  | .notADatabase => "Error code 26: File opened that is not a database file"

/-- Why a request to the index fails. -/
inductive IndexError where
  | partitionNotFound (container : String)
  | partitionExists (container : String)
  | duplicateEntry (container member : String)
  | database (fault : DatabaseFault)
  | corrupt (fault : RowFault)
  | backend (reason : String)
deriving Repr, DecidableEq

/-- The wording of an error. -/
def IndexError.message : IndexError → String
  | .partitionNotFound container => s!"no index partition for container: {container}"
  | .partitionExists container => s!"index partition already exists for container: {container}"
  | .duplicateEntry container member =>
      s!"member {member} already indexed in container {container}"
  | .database fault => s!"sqlite error: {fault.message}"
  | .corrupt fault => s!"corrupt index row: {fault.message}"
  | .backend reason => s!"index backend error: {reason}"

end Containment
