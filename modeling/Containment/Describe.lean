/-
Module: Containment.Describe
Purpose: One-line summaries of stores, indexes, dispatchers, locks and whole repositories, for logs.
Main exports: Store.describe, Index.describe, Dispatcher.describe, LockTable.describe, describeGuard,
  describeRepository
-/
import Containment.Dispatch.Dispatcher
import Containment.Index.Basic
import Containment.Lock.Table
import Containment.Repository.Options
import Containment.Store.Basic
import Containment.Text.Quoted

namespace Containment

open Text

/-- A name followed by fields in braces. -/
def summary (name : String) (fields : List String) : String :=
  name ++ " \x7b " ++ ", ".intercalate fields ++ " \x7d"

/-- The summary of a store. -/
def Store.describe : Store → String
  | .memory m => summary "InMemoryContainerStore" [s!"record_count: {m.records.size}"]
  | .directory d => summary "FileContainerStore" [s!"dir: {quoted d.path}"]

/-- The summary of an index. -/
def Index.describe : Index → String
  | .memory m => summary "InMemoryMembershipIndex" [s!"partitions: {m.partitions.size}"]
  | .table _ => summary "SqliteMembershipIndex" [".."]

/-- The summary of a dispatcher. -/
def Dispatcher.describe (d : Dispatcher) : String :=
  summary "BroadcastDispatcher" [s!"subscribers: {d.subscribers.length}", s!"capacity: {d.capacity}"]

/-- The summary of the locks of containers. -/
def LockTable.describe (table : LockTable) : String :=
  summary "LockTable" [s!"entries: {table.size}"]

/-- The summary of a held lock. -/
def describeGuard (key : String) (mode : Mode) : String :=
  summary "ContainerGuard" [s!"key: {quoted key}", s!"exclusive: {mode == .exclusive}"]

/-- The summary of bounds. -/
def Limits.describe (limits : Limits) : String :=
  summary "RepositoryLimits"
    [s!"max_depth: {limits.maxDepth}", s!"default_page_limit: {limits.defaultPageLimit}",
      s!"max_page_limit: {limits.maxPageLimit}", s!"cursor_batch_size: {limits.cursorBatchSize}"]

/-- The summary of a repository. -/
def describeRepository (locks : Locks) (limits : Limits) : String :=
  summary "StoreRepository"
    [s!"locks: {locks.containers.describe}", s!"limits: {limits.describe}", ".."]

end Containment
