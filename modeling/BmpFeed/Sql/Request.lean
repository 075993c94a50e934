import BmpFeed.FirstSeen
import BmpFeed.Feed.Kind

/-!
# Write requests

A request carries value fragments, one per record identity, between the opening of a statement and
its closing. `Request.sql` writes it as one statement.
-/

namespace BmpFeed

/-- The fragments joined by commas between the opening and the closing of a statement. -/
def joinStatement (opening : String) (fragments : List String) (closing : String) : String :=
  opening ++ ",".intercalate fragments ++ closing

/-- One unit of work for a writer. -/
structure Request where
  /-- Requests of one key and category go to one writer. -/
  key : String
  category : Category
  /-- The statement up to its values, or all of it when the request is not batched. -/
  opening : String
  /-- The statement after its values. -/
  closing : String
  /-- The value fragment of each record identity. -/
  values : FirstSeen String String
  /-- A request that is not batched is run by its writer as it stands. -/
  batchable : Bool
  deriving Repr, DecidableEq, Inhabited

namespace Request

/-- A statement of its own, which bypasses batching. -/
def immediate (key : String) (category : Category) (sql : String) : Request :=
  { key, category, opening := sql, closing := "", values := {}, batchable := false }

/-- The size in bytes of the largest fragment. -/
def maxFragment (r : Request) : Nat := (r.values.values.map String.utf8ByteSize).foldl max 0

def sql (r : Request) : String := joinStatement r.opening r.values.values r.closing

end Request

end BmpFeed
