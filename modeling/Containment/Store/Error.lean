/-
Module: Containment.Store.Error
Purpose: Why a store of records refuses a request or cannot answer it.
Main exports: StoreError, StoreError.message
-/
import Containment.Record.Frame

namespace Containment

/-- Why a request to a store fails. -/
inductive StoreError where
  | notFound (id : String)
  | alreadyExists (id : String)
  | revisionMismatch (id : String) (expected actual : Nat)
  | undecodable (fault : DecodeFault)
  | tooLarge
  | corrupt (path : String) (fault : FrameFault)
  | invalidRecord (error : ContainerError)
  | backend (reason : String)
deriving Repr, DecidableEq

/-- The wording of an error. -/
def StoreError.message : StoreError → String
  | .notFound id => s!"container record not found: {id}"
  | .alreadyExists id => s!"container record already exists: {id}"
  | .revisionMismatch id expected actual =>
      s!"revision mismatch for {id}: expected {expected}, found {actual}"
  | .undecodable fault => s!"serialization error: {fault.message}"
  | .tooLarge => "serialization error: record exceeds 4 GiB"
  | .corrupt path fault => s!"corrupt record at {path}: {fault.message}"
  | .invalidRecord error => s!"invalid record: {error.message}"
  | .backend reason => s!"store backend error: {reason}"

/-- The container of a record, as a store hands it out. -/
def Record.hydrate (r : Record) : Except StoreError Container :=
  r.toContainer.mapError .invalidRecord

end Containment
