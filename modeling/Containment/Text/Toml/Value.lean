/-
Module: Containment.Text.Toml.Value
Purpose: The values of a TOML document, and the rules by which its lines may add to its tables. A table
  remembers how it came about, because that decides what may still be added to it.
Main exports: Toml, Toml.Entries, Toml.Entries.addPair, Toml.Entries.openTable, Toml.Entries.openItem
-/

namespace Containment.Text

/-- How a table came about: complete in braces, by a header of its own, on the way of a longer header, or on
the way of a dotted key. -/
inductive Toml.Origin where
  | inline
  | header
  | implied
  | dotted
deriving Repr, DecidableEq, Inhabited

/-- A value. Of fractions and moments only the fact is kept. `tables` is a list of tables that further
headers may extend. -/
inductive Toml where
  | text (value : String)
  | integer (value : Int)
  | fraction
  | boolean (value : Bool)
  | moment
  | array (items : List Toml)
  | table (origin : Toml.Origin) (entries : List (String × Toml))
  | tables (items : List (List (String × Toml)))
deriving Inhabited

namespace Toml

/-- The keys of a table with their values, in the order in which they were written. -/
abbrev Entries := List (String × Toml)

/-- Whether a table was never written as such, so that a dotted key may add to it. -/
def Origin.isOpen : Origin → Bool
  | .implied | .dotted => true
  | .inline | .header => false

namespace Entries

/-- Put a value in the place of the one that a key has. -/
def replace (entries : Entries) (key : String) (value : Toml) : Entries :=
  entries.map fun entry => if entry.1 = key then (key, value) else entry

/-- Change the table at the end of a path. Tables that are missing on the way are made with origin `fresh`;
of a list of tables the last one is meant. A dotted key only passes tables that were never written as
such, and nothing passes a table in braces. -/
def within (fresh : Origin) (change : Origin → Entries → Option (Origin × Entries)) :
    List String → Origin → Entries → Option (Origin × Entries)
  | [], origin, entries => change origin entries
  | key :: path, origin, entries => do
    match entries.lookup key with
    | none =>
      let (made, inner) ← within fresh change path fresh []
      pure (origin, entries ++ [(key, .table made inner)])
    | some (.table found inner) =>
      if found = .inline || (fresh = .dotted && !found.isOpen) then none
      let (found, inner) ← within fresh change path found inner
      pure (origin, entries.replace key (.table found inner))
    | some (.tables items) =>
      let last ← items.getLast?
      let (_, inner) ← within fresh change path .header last
      pure (origin, entries.replace key (.tables (items.dropLast ++ [inner])))
    | some _ => none

/-- Add a value under a key that is still free. -/
def put (entries : Entries) (key : String) (value : Toml) : Option Entries :=
  match entries.lookup key with
  | some _ => none
  | none => some (entries ++ [(key, value)])

/-- Add a value under a dotted key. Where the key has dots, the last table on its way has to be one that
dotted keys made. -/
def addPair (path : List String) (key : String) (value : Toml) (origin : Origin)
    (entries : Entries) : Option (Origin × Entries) :=
  within .dotted (fun found inner => do
    if (found == .dotted) == path.isEmpty then none
    pure (found, ← put inner key value)) path origin entries

/-- Open a table by its header. Only a table that longer headers implied may be there already. -/
def openTable (key : String) (origin : Origin) (entries : Entries) : Option (Origin × Entries) :=
  match entries.lookup key with
  | none => some (origin, entries ++ [(key, .table .header [])])
  | some (.table .implied inner) => some (origin, replace entries key (.table .header inner))
  | some _ => none

/-- Open the next table of a list by its header. -/
def openItem (key : String) (origin : Origin) (entries : Entries) : Option (Origin × Entries) :=
  match entries.lookup key with
  | none => some (origin, entries ++ [(key, .tables [[]])])
  | some (.tables items) => some (origin, replace entries key (.tables (items ++ [[]])))
  | some _ => none

end Entries

/-- The values in a list, whichever way it was written. -/
def items? : Toml → Option (List Toml)
  | .array items => some items
  | .tables items => some (items.map (.table .header))
  | _ => none

end Toml

end Containment.Text
