import AndroidStrings.Text.Search

/-!
# Values of a settings text

A settings text is a table of values.  Tables differ in how they came about, because that decides
what may still be added to them: a table named by a header is complete once the next header
comes, one made on the way to another may still get a header of its own, and one made by dotted
keys only grows by dotted keys.
-/

namespace AndroidStrings
namespace Toml

/-- How a table came about. -/
inductive Origin where
  | header
  | onTheWay
  | dotted
  | inline
  deriving DecidableEq, Repr

/-- Numbers with a fraction and times are told apart from other values, but not kept. -/
inductive Value where
  | text (content : Text)
  | integer (number : Int)
  | float
  | boolean (flag : Bool)
  | time
  | array (items : List Value)
  | table (origin : Origin) (entries : List (Text × Value))
  | tables (items : List (List (Text × Value)))

abbrev Entries := List (Text × Value)

namespace Entries

def get? (entries : Entries) (key : Text) : Option Value :=
  (entries.find? fun entry => entry.1 == key).map Prod.snd

/-- Replaces the value of a key, or adds it. -/
def put (entries : Entries) (key : Text) (value : Value) : Entries :=
  match entries with
  | [] => [(key, value)]
  | (other, old) :: rest =>
      if other = key then (key, value) :: rest else (other, old) :: put rest key value

/-- Adds a value under a new key. -/
def add? (entries : Entries) (key : Text) (value : Value) : Option Entries :=
  match entries.get? key with
  | some _ => none
  | none => some (entries.put key value)

end Entries

/-- A change of a table, which may be refused. -/
abbrev Change := Origin → Entries → Option Entries

/-- Changes the table at the end of a path of dotted keys, and makes the tables that are
missing. Tables with a header of their own cannot be entered this way. -/
def changeDotted (change : Change) : List Text → Change
  | [], origin, entries => change origin entries
  | key :: path, _, entries =>
      match entries.get? key with
      | none => (changeDotted change path .dotted []).map fun inner =>
          entries.put key (.table .dotted inner)
      | some (.table .onTheWay inner) => (changeDotted change path .onTheWay inner).map fun new =>
          entries.put key (.table .onTheWay new)
      | some (.table .dotted inner) => (changeDotted change path .dotted inner).map fun new =>
          entries.put key (.table .dotted new)
      | some (.tables items) =>
          match items.getLast? with
          | none => none
          | some last => (changeDotted change path .header last).map fun new =>
              entries.put key (.tables (items.dropLast ++ [new]))
      | some _ => none

/-- Changes the table at the end of the path of a header; of an array of tables the last one
counts. -/
def changeBelowHeaders (change : Change) : List Text → Change
  | [], origin, entries => change origin entries
  | key :: path, _, entries =>
      match entries.get? key with
      | none => (changeBelowHeaders change path .onTheWay []).map fun inner =>
          entries.put key (.table .onTheWay inner)
      | some (.table .inline _) => none
      | some (.table origin inner) => (changeBelowHeaders change path origin inner).map fun new =>
          entries.put key (.table origin new)
      | some (.tables items) =>
          match items.getLast? with
          | none => none
          | some last => (changeBelowHeaders change path .header last).map fun new =>
              entries.put key (.tables (items.dropLast ++ [new]))
      | some _ => none

/-- Sets a key, given with the dotted keys before it, in a table. -/
def setKey (path : List Text) (key : Text) (value : Value) : Change :=
  changeDotted (fun origin entries =>
    if (origin == .dotted) == path.isEmpty then none else entries.add? key value) path

/-- Opens the table that a header names. -/
def openTable (key : Text) : Change := fun _ entries =>
  match entries.get? key with
  | none => some (entries.put key (.table .header []))
  | some (.table .onTheWay inner) => some (entries.put key (.table .header inner))
  | some _ => none

/-- Opens one more table of an array of tables. -/
def openNextTable (key : Text) : Change := fun _ entries =>
  match entries.get? key with
  | none => some (entries.put key (.tables [[]]))
  | some (.tables items) => some (entries.put key (.tables (items ++ [[]])))
  | some _ => none

end Toml
end AndroidStrings
