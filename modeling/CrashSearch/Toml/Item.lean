/-!
# Tables of settings

The values of a TOML document, and how its tables grow while it is read. A table may be reached
again only by the way that made it: what a dotted key made is extended by dotted keys, what the
name of another table implied may still get a header, and a table in braces is closed.

## Main definitions

* `Item`: values, tables and arrays of tables.
* `Entries.extend`: changes a table that a path leads to.
* `Entries.addValue`, `Entries.openTable`, `Entries.openElement`: the three ways in which a document
  adds to its tables.
-/

namespace CrashSearch.Toml

/-- How a table came to be. -/
inductive TableKind where
  /-- Written in braces. -/
  | closed
  /-- It has a header. -/
  | headed
  /-- The header of a table inside it implies it. -/
  | implied
  /-- A dotted key implies it. -/
  | dotted
  deriving DecidableEq

/-- What a key can stand for. -/
inductive Item where
  | string (value : String)
  | integer (value : Int)
  | float (value : Float)
  | boolean (value : Bool)
  /-- A date, a time, or both. -/
  | moment
  | array (items : List Item)
  | table (kind : TableKind) (entries : List (String × Item))
  /-- An array of tables that have headers. -/
  | tables (elements : List (List (String × Item)))

instance : Inhabited Item := ⟨.moment⟩

/-- The keys of a table with what they stand for. -/
abbrev Entries := List (String × Item)

namespace Entries

/-- Gives a key its item, in its place or at the end. -/
def set (key : String) (item : Item) : Entries → Entries
  | [] => [(key, item)]
  | (k, i) :: rest => if k = key then (k, item) :: rest else (k, i) :: set key item rest

/-- Changes the last element of a list. -/
def changeLast {α : Type} (f : α → Option α) : List α → Option (List α)
  | [] => none
  | [a] => (f a).map ([·])
  | a :: rest => (changeLast f rest).map (a :: ·)

/-- Changes the table that a path leads to, and tells `change` of which kind it is; `here` is the
kind of the table the path begins in. Tables that are missing on the way get the kind `made`, and
those there must be of a kind that `passes`. Of an array of tables the last one counts. -/
def extend (made : TableKind) (passes : TableKind → Bool)
    (change : TableKind → Entries → Option Entries) (here : TableKind) :
    List String → Entries → Option Entries
  | [], entries => change here entries
  | key :: path, entries =>
    match entries.lookup key with
    | none => (extend made passes change made path []).map fun t => entries.set key (.table made t)
    | some (.table kind inner) =>
      if passes kind then
        (extend made passes change kind path inner).map fun t => entries.set key (.table kind t)
      else none
    | some (.tables elements) =>
      (changeLast (extend made passes change .headed path) elements).map fun ts =>
        entries.set key (.tables ts)
    | some _ => none

/-- Changes the table of a header, or one that its name implies. -/
def extendHeaded (change : TableKind → Entries → Option Entries) (path : List String)
    (entries : Entries) : Option Entries :=
  extend .implied (· ≠ .closed) change .headed path entries

/-- Gives a new key its item. -/
def addNew (key : String) (item : Item) (entries : Entries) : Option Entries :=
  if (entries.lookup key).isNone then some (entries ++ [(key, item)]) else none

/-- Adds a value under a key; the path before it leads through tables of dotted keys only. -/
def addValue (path : List String) (key : String) (item : Item) (entries : Entries) :
    Option Entries :=
  extend .dotted (fun kind => kind = .implied ∨ kind = .dotted)
    (fun kind entries => if path = [] ∨ kind = .dotted then addNew key item entries else none)
    .headed path entries

/-- Gives a table its header. -/
def openTable (path : List String) (key : String) (entries : Entries) : Option Entries :=
  extendHeaded (fun _ entries =>
    match entries.lookup key with
    | none => some (entries ++ [(key, .table .headed [])])
    | some (.table .implied inner) => some (entries.set key (.table .headed inner))
    | some _ => none) path entries

/-- Adds a table to an array of tables. -/
def openElement (path : List String) (key : String) (entries : Entries) : Option Entries :=
  extendHeaded (fun _ entries =>
    match entries.lookup key with
    | none => some (entries ++ [(key, .tables [[]])])
    | some (.tables elements) => some (entries.set key (.tables (elements ++ [[]])))
    | some _ => none) path entries

end Entries

end CrashSearch.Toml
