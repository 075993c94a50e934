import BmpFeed.Sql.Request

/-!
# Batches

A batch groups the value fragments of requests by the statement they belong to and keeps the latest
fragment of each record. It counts its records as they come. `take` gives one statement per group
that has a fragment, in the order in which the groups were first seen.
-/

namespace BmpFeed.Writer

structure Batch where
  /-- The fragments under the opening and the closing of their statement. -/
  groups : FirstSeen (String × String) (FirstSeen String String) := {}
  /-- The records that were new to their group when they came. -/
  records : Nat := 0
  deriving Repr, DecidableEq, Inhabited

namespace Batch

/-- The fragments that wait for a statement. -/
def fragments (b : Batch) (statement : String × String) : FirstSeen String String :=
  (b.groups.get? statement).getD {}

/-- Puts a fragment into a group, and counts the record if the group does not hold it yet. -/
def enter (s : FirstSeen String String × Nat) (v : String × String) :
    FirstSeen String String × Nat :=
  (s.1.put v.1 v.2, if (s.1.get? v.1).isNone then s.2 + 1 else s.2)

/-- Adds the fragments of a request, in place of earlier ones of the same records. -/
def merge (b : Batch) (r : Request) : Batch :=
  let statement := (r.opening, r.closing)
  let (group, records) := r.values.entries.foldl enter (b.fragments statement, b.records)
  { groups := b.groups.put statement group, records }

/-- The records in all groups. -/
def size (b : Batch) : Nat := b.records

def isEmpty (b : Batch) : Bool := b.size = 0

/-- Writes a fragment behind what there is of a statement, after a comma unless it is the first. -/
def write (sql : String) (v : String × Nat) : String :=
  if 0 < v.2 then sql.push ',' ++ v.1 else sql ++ v.1

/-- One statement per group that holds a record. -/
def statements (b : Batch) : List String :=
  (b.groups.entries.filter fun g => g.2.size ≠ 0).map fun g =>
    g.2.values.zipIdx.foldl write g.1.1 ++ g.1.2

/-- The statements, and the batch without their groups. -/
def take (b : Batch) : List String × Batch := (b.statements, {})

end Batch

end BmpFeed.Writer
