/-
Module: Containment.Repository.Error
Purpose: Why a call to the repository fails, and the stable classification of failures.
Main exports: RepositoryError, RepositoryError.message, RepositoryError.kind, ErrorKind, ConfigError
-/
import Containment.Context
import Containment.Index.Entry
import Containment.Store.Error

namespace Containment

/-- Why a configuration cannot be used. -/
inductive ConfigError where
  | noFile (path : String)
  | malformed
  | outOfRange
  | zeroMaxDepth
  | defaultPageLimit (maxPageLimit : Nat)
  | zeroCursorBatchSize
  | zeroEventChannelCapacity
deriving Repr, DecidableEq

/-- The wording of an error. -/
def ConfigError.message : ConfigError → String
  | .noFile path => s!"read {path}: No such file or directory (os error 2)"
  | .malformed => "not a valid TOML configuration"
  | .outOfRange => "out-of-range value for u64 type"
  | .zeroMaxDepth => "max_depth must be positive"
  | .defaultPageLimit maxPageLimit => s!"default_page_limit must be in 1..={maxPageLimit}"
  | .zeroCursorBatchSize => "cursor_batch_size must be positive"
  | .zeroEventChannelCapacity => "event_channel_capacity must be positive"

/-- Why a call fails. -/
inductive RepositoryError where
  | invalid (error : ContainerError)
  | alreadyExists (id : String)
  | notFound (what : String)
  | parentNotFound (id parent : String)
  | circularReference (id parent : String)
  | depthExceeded (id : String) (maxDepth : Nat)
  | childContainer (container member : String)
  | notEmpty (id : String) (members : Nat)
  | indexWriteFailed (container : String) (error : IndexError)
  | canceled (reason : Cancellation)
  | store (error : StoreError)
  | index (error : IndexError)
  | config (error : ConfigError)
deriving Repr, DecidableEq

/-- The classes of failures. -/
inductive ErrorKind where
  | invalidId
  | invalidType
  | alreadyExists
  | notFound
  | parentNotFound
  | circularReference
  | depthExceeded
  | duplicateMember
  | memberNotFound
  | childContainer
  | notEmpty
  | indexWriteFailed
  | canceled
  | storage
deriving Repr, DecidableEq

/-- The name of a class. -/
def ErrorKind.name : ErrorKind → String
  | .invalidId => "invalid_id"
  | .invalidType => "invalid_type"
  | .alreadyExists => "already_exists"
  | .notFound => "not_found"
  | .parentNotFound => "parent_not_found"
  | .circularReference => "circular_reference"
  | .depthExceeded => "depth_exceeded"
  | .duplicateMember => "duplicate_member"
  | .memberNotFound => "member_not_found"
  | .childContainer => "child_container"
  | .notEmpty => "not_empty"
  | .indexWriteFailed => "index_write_failed"
  | .canceled => "canceled"
  | .storage => "storage"

namespace RepositoryError

/-- The wording of an error. -/
def message : RepositoryError → String
  | .invalid error => error.message
  | .alreadyExists id => s!"container already exists: {id}"
  | .notFound what => s!"container not found: {what}"
  | .parentNotFound id parent => s!"parent {parent} of container {id} not found"
  | .circularReference id parent => s!"circular reference: {id} cannot be placed under {parent}"
  | .depthExceeded id maxDepth =>
      s!"container {id} would sit deeper than the maximum depth of {maxDepth}"
  | .childContainer container member => s!"{member} is a child container of {container}"
  | .notEmpty id members => s!"container {id} still has {members} member(s)"
  | .indexWriteFailed container error =>
      s!"index write failed for container {container}: {error.message}"
  | .canceled reason => s!"operation canceled: {reason.message}"
  | .store error => s!"store error: {error.message}"
  | .index error => s!"index error: {error.message}"
  | .config error => s!"configuration error: {error.message}"

/-- The class of an error. -/
def kind : RepositoryError → ErrorKind
  | .invalid (.invalidId ..) | .invalid (.invalidMemberId ..) | .invalid (.selfMembership ..) =>
      .invalidId
  | .invalid (.invalidType ..) => .invalidType
  | .invalid (.duplicateMember ..) => .duplicateMember
  | .invalid (.memberNotFound ..) => .memberNotFound
  | .invalid (.circularReference ..) => .circularReference
  | .alreadyExists .. => .alreadyExists
  | .notFound .. => .notFound
  | .parentNotFound .. => .parentNotFound
  | .circularReference .. => .circularReference
  | .depthExceeded .. => .depthExceeded
  | .childContainer .. => .childContainer
  | .notEmpty .. => .notEmpty
  | .indexWriteFailed .. => .indexWriteFailed
  | .canceled .. => .canceled
  | .store (.notFound ..) => .notFound
  | .store (.alreadyExists ..) => .alreadyExists
  | .store _ | .index _ | .config _ => .storage

/-- The errors behind an error, nearest first, each in its own words. -/
def causes : RepositoryError → List String
  | .indexWriteFailed _ error => [error.message] ++ indexCauses error
  | .store error => [error.message] ++ storeCauses error
  | .index error => [error.message] ++ indexCauses error
  | _ => []
where
  /-- What is behind an error of the store. -/
  storeCauses : StoreError → List String
    | .invalidRecord error => [error.message]
    | _ => []
  /-- What is behind an error of the index. -/
  indexCauses : IndexError → List String
    | .database fault => [fault.message, fault.codeMessage]
    | _ => []

end RepositoryError

end Containment
