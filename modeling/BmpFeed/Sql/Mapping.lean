import BmpFeed.Sql.Literal
import BmpFeed.Sql.Request
import BmpFeed.Text.Blank

/-!
# Table mappings

A mapping says into which table the records of a kind go, through which columns, and which columns
make up a record's identity. `Mapping.values` gives one value fragment per identity, in the order of
the records; the last record of an identity counts.
-/

namespace BmpFeed.Sql

/-- A column, with the type its value is cast to. -/
structure Column where
  name : String
  cast : Option String
  deriving DecidableEq, Repr, Inhabited

/-- Reads `name` or `name::cast`. -/
def Column.ofText (s : String) : Column :=
  match Text.splitFirst? s "::" with
  | some (name, cast) => ⟨Text.trim name, some (Text.trim cast)⟩
  | none => ⟨Text.trim s, none⟩

structure Mapping where
  kind : Kind
  table : String
  /-- The statement up to its values, when it is not the usual one. -/
  opening : Option String := none
  /-- The statement after its values. -/
  closing : String := ""
  /-- Each `name` or `name::cast`. -/
  columns : List String
  /-- The names of the columns that make up the identity. -/
  identity : List String := []
  deriving DecidableEq, Repr, Inhabited

namespace Mapping

def columnSpecs (m : Mapping) : List Column := m.columns.map Column.ofText

/-- The statement up to its values. -/
def statementOpening (m : Mapping) : String :=
  match m.opening with
  | some s => s
  | none =>
    "INSERT INTO " ++ m.table ++ " (" ++ ",".intercalate (m.columnSpecs.map Column.name) ++
      ") VALUES "

/-- The value of one column. -/
def item (r : Record) (c : Column) : String :=
  literal (Json.Fields.get? r c.name) ++
    match c.cast with
    | some cast => "::" ++ cast
    | none => ""

/-- The values of one record in parentheses. -/
def fragment (m : Mapping) (r : Record) : String :=
  "(" ++ ",".intercalate (m.columnSpecs.map (item r)) ++ ")"

/-- What tells the record from others: the texts of its identity columns joined by bars, or the
whole fragment when the mapping names no identity. -/
def identityOf (m : Mapping) (r : Record) : String :=
  if m.identity.isEmpty then m.fragment r
  else "|".intercalate (m.identity.map fun name => (r.text? name).getD "")

def values (m : Mapping) (rows : List Record) : FirstSeen String String :=
  .ofList (rows.map fun r => (m.identityOf r, m.fragment r))

/-- The mapping of a kind: the last one given for it. -/
def forKind? (ms : List Mapping) (k : Kind) : Option Mapping := ms.reverse.find? fun m => m.kind = k

/-- The request that stores the rows. -/
def request (m : Mapping) (key : String) (rows : List Record) : Request :=
  { key, category := m.kind.category, opening := m.statementOpening, closing := m.closing
    values := m.values rows, batchable := true }

end Mapping

end BmpFeed.Sql
