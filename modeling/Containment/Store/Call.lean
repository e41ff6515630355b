/-
Module: Containment.Store.Call
Purpose: The requests that every store of records answers. A store holds one record an identifier;
  `insert` decides who gets an identifier, `update` replaces a record only if it is still the one that
  the writer read, and `retire` reserves an identifier for ever.
Main exports: StoreCall, StoreCall.Answer, StoreCall.Kind, StoreCall.id
-/
import Containment.Store.Error

namespace Containment

/-- A request to a store. -/
inductive StoreCall where
  | read (id : String)
  | insert (record : Record)
  | update (record : Record) (expected : Nat)
  | delete (id : String)
  | retire (id : String)
  | isRetired (id : String)
  | ids
  | exists (id : String)

namespace StoreCall

/-- What a store answers. `delete` and `retire` tell whether there was a record; `ids` are in order. -/
abbrev Answer : StoreCall → Type
  | read _ => Option Record
  | insert _ => Unit
  | update _ _ => Unit
  | delete _ => Bool
  | retire _ => Bool
  | isRetired _ => Bool
  | ids => List String
  | .exists _ => Bool

/-- The kinds of requests. -/
inductive Kind where
  | read
  | insert
  | update
  | delete
  | retire
  | isRetired
  | ids
  | exists
deriving Repr, DecidableEq

/-- The name of a kind. -/
def Kind.name : Kind → String
  | .read => "read"
  | .insert => "insert"
  | .update => "update"
  | .delete => "delete"
  | .retire => "retire"
  | .isRetired => "is_retired"
  | .ids => "ids"
  | .exists => "exists"

/-- All kinds. -/
def Kind.all : List Kind :=
  [.read, .insert, .update, .delete, .retire, .isRetired, .ids, .exists]

/-- The kind of a request. -/
def kind : StoreCall → Kind
  | read _ => .read
  | insert _ => .insert
  | update _ _ => .update
  | delete _ => .delete
  | retire _ => .retire
  | isRetired _ => .isRetired
  | ids => .ids
  | .exists _ => .exists

/-- The identifier that a request is about; `ids` is about none. -/
def id : StoreCall → String
  | read id => id
  | insert record => record.id
  | update record _ => record.id
  | delete id => id
  | retire id => id
  | isRetired id => id
  | ids => ""
  | .exists id => id

end StoreCall

end Containment
