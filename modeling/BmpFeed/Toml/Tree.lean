import BmpFeed.Toml.Value

/-!
# Tables under construction

While a document is read, each table remembers how it came about, since that decides what may still
be added to it: a table may be given one header, dotted keys may only extend tables that dotted keys
made, and values are closed. `Tree.Entries.put` adds a key, `openTable` and `openItem` begin the
table of a header, `attach` puts it back.
-/

namespace BmpFeed.Toml

/-- How a table came about. -/
inductive Origin
  /-- As a part of a longer header. -/
  | implied
  /-- As a part of a dotted key. -/
  | dotted
  /-- By its own header, or as the whole document. -/
  | header
  deriving DecidableEq, Repr, Inhabited

inductive Tree
  | value (v : Toml)
  | table (origin : Origin) (entries : List (String × Tree))
  /-- The tables of an array, the latest first. -/
  | tables (items : List (List (String × Tree)))
  deriving Inhabited

namespace Tree

abbrev Entries := List (String × Tree)

/-- Replaces the entry of a key that is present, or appends one. -/
def assign (key : String) (node : Tree) : Entries → Entries
  | [] => [(key, node)]
  | (k, n) :: rest => if k = key then (key, node) :: rest else (k, n) :: assign key node rest

/-- Adds a value under a dotted key, in a table of the given origin. -/
def put (value : Tree) (origin : Origin) (dotted : Bool) : List String → Entries → Option Entries
  | [], _ => none
  | [key], entries =>
    if (origin = .dotted) ≠ dotted ∨ (entries.lookup key).isSome then none
    else some (entries ++ [(key, value)])
  | key :: path, entries =>
    match entries.lookup key with
    | none => (put value .dotted true path []).map fun e => entries ++ [(key, .table .dotted e)]
    | some (.table .header _) => none
    | some (.table o inner) =>
      (put value o true path inner).map fun e => assign key (.table o e) entries
    | some (.tables _) => none
    | some (.value _) => none

/-- Applies `f` to the table at the path of a header, making implied tables on the way. -/
def atPath (f : Entries → Option Entries) : List String → Entries → Option Entries
  | [], entries => f entries
  | key :: path, entries =>
    match entries.lookup key with
    | none => (atPath f path []).map fun e => entries ++ [(key, .table .implied e)]
    | some (.table o inner) => (atPath f path inner).map fun e => assign key (.table o e) entries
    | some (.tables (last :: before)) =>
      (atPath f path last).map fun e => assign key (.tables (e :: before)) entries
    | some (.tables []) => none
    | some (.value _) => none

/-- Gives the table `key` its header. -/
def openTable (key : String) (entries : Entries) : Option Entries :=
  match entries.lookup key with
  | none => some (entries ++ [(key, .table .header [])])
  | some (.table .implied inner) => some (assign key (.table .header inner) entries)
  | some _ => none

/-- Adds an empty table to the array `key`. -/
def openItem (key : String) (entries : Entries) : Option Entries :=
  match entries.lookup key with
  | none => some (entries ++ [(key, .tables [[]])])
  | some (.tables items) => some (assign key (.tables ([] :: items)) entries)
  | some _ => none

/-- Adds a value under a dotted key to the table that the latest header opened. -/
def putInside (value : Tree) (key : List String) (name : String) (entries : Entries) :
    Option Entries :=
  match entries.lookup name with
  | some (.table o inner) =>
    (put value o false key inner).map fun e => assign name (.table o e) entries
  | some (.tables (last :: before)) =>
    (put value .header false key last).map fun e => assign name (.tables (e :: before)) entries
  | _ => none

mutual

/-- The value that has been built. -/
def freeze : Tree → Toml
  | .value v => v
  | .table _ entries => .table (freezeEntries entries)
  | .tables items => .array (freezeItems items).reverse

def freezeEntries : List (String × Tree) → List (String × Toml)
  | [] => []
  | (k, n) :: rest => (k, freeze n) :: freezeEntries rest

def freezeItems : List (List (String × Tree)) → List Toml
  | [] => []
  | entries :: rest => .table (freezeEntries entries) :: freezeItems rest

end

end Tree

end BmpFeed.Toml
