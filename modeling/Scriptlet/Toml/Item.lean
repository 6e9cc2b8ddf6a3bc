import Scriptlet.Table

/-!
# Documents of settings

A settings document is a tree of tables.  Where a table comes from decides how
it may be added to later: a table written between braces is closed, a table with
a header of its own may not get another one, and dotted keys may only go on with
tables that dotted keys began.
-/

namespace Scriptlet.Toml

inductive Origin where
  | braces
  | header
  | path
  | dotted
deriving DecidableEq

inductive Item where
  | string (value : Text)
  | integer (value : Int)
  | boolean (value : Bool)
  | float
  | dateTime
  | array (items : List Item)
  | table (origin : Origin) (entries : List (Text × Item))
  /-- Tables with the same header between double brackets. -/
  | tables (elements : List (List (Text × Item)))

/-- The entries of a table, in the order in which their keys appeared. -/
abbrev Entries := List (Text × Item)

def addEntry? (key : Text) (item : Item) (entries : Entries) : Option Entries :=
  if Table.contains key entries then none else some (entries ++ [(key, item)])

/-- Change the table that a header's path leads to from the given entries.  Tables
on the way are made where they are missing. -/
def changeAt? (change : Entries → Option Entries) :
    (path : List Text) → Entries → Option Entries
  | [], entries => change entries
  | key :: path, entries =>
      match Table.get? key entries with
      | none =>
          (changeAt? change path []).map fun inner =>
            entries ++ [(key, .table .path inner)]
      | some (.table .braces _) => none
      | some (.table origin inner) =>
          (changeAt? change path inner).map fun inner =>
            Table.insert key (.table origin inner) entries
      | some (.tables elements) =>
          (changeAt? change path (elements.getLast?.getD [])).map fun last =>
            Table.insert key (.tables (elements.dropLast ++ [last])) entries
      | some _ => none

/-- Add an entry under a dotted key, whose parts before the last one lead through
tables that dotted keys began. -/
def addDotted? (path : List Text) (key : Text) (item : Item) (entries : Entries) :
    Option Entries :=
  match path with
  | [] => addEntry? key item entries
  | part :: path =>
      match Table.get? part entries with
      | none =>
          (addDotted? path key item []).map fun inner =>
            entries ++ [(part, .table .dotted inner)]
      | some (.table .dotted inner) =>
          (addDotted? path key item inner).map fun inner =>
            Table.insert part (.table .dotted inner) entries
      | some (.table .path inner) =>
          if path = [] then none
          else
            (addDotted? path key item inner).map fun inner =>
              Table.insert part (.table .path inner) entries
      | some (.tables elements) =>
          if path = [] then none
          else
            (addDotted? path key item (elements.getLast?.getD [])).map fun last =>
              Table.insert part (.tables (elements.dropLast ++ [last])) entries
      | some _ => none

def openTable? (key : Text) (entries : Entries) : Option Entries :=
  match Table.get? key entries with
  | none => some (entries ++ [(key, .table .header [])])
  | some (.table .path inner) => some (Table.erase key entries ++ [(key, .table .header inner)])
  | some _ => none

/-- Open a further table of a header between double brackets. -/
def openElement? (key : Text) (entries : Entries) : Option Entries :=
  match Table.get? key entries with
  | none => some (entries ++ [(key, .tables [[]])])
  | some (.tables elements) => some (Table.insert key (.tables (elements ++ [[]])) entries)
  | some _ => none

end Scriptlet.Toml
