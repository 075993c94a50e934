import BmpFeed.Correction
import BmpFeed.Store.Basic
import BmpFeed.FirstSeen

/-!
# Live router connections

Counts the open connections of each router, so that a router that connects again has its peers
marked down only when no other connection of it is still live. Hashes count as the same router when
they agree without their dashes.
-/

namespace BmpFeed

structure Routers where
  counts : FirstSeen String Nat := {}
  deriving Repr, DecidableEq, Inhabited

namespace Routers

/-- A hash without its dashes. -/
def normalize (hash : String) : String := String.ofList (hash.toList.filter (· ≠ '-'))

def size (t : Routers) : Nat := t.counts.size

def connections (t : Routers) (hash : String) : Nat := (t.counts.get? (normalize hash)).getD 0

/-- Rebuilds the counts. -/
def refreshQuery : String :=
  "SELECT name, hash_id::text AS hash_id, state::text AS state FROM routers"

/-- A router as the store knows it. -/
structure Stored where
  name : String
  hash : String
  state : String
  deriving Repr, DecidableEq

/-- The routers named by the rows; a row without a hash names none. -/
def stored (rows : List Row) : List Stored :=
  rows.filterMap fun row =>
    (row.lookup "hash_id").map fun hash =>
      { name := (row.lookup "name").getD "", hash := normalize hash
        state := (row.lookup "state").getD "" }

/-- One connection for each router the store knows to be up. No rows at all leave the counts as
they are. -/
def refresh (t : Routers) (rows : List Row) : Routers :=
  if rows.isEmpty then t
  else { counts := .ofList ((stored rows).map fun s => (s.hash, if s.state = "up" then 1 else 0)) }

inductive Action
  /-- A connection opens. -/
  | opens
  /-- A connection ends. -/
  | ends
  | other
  deriving DecidableEq, Repr

def Action.ofText (s : String) : Action :=
  if Text.equalsIgnoringCase s "init" || Text.equalsIgnoringCase s "first" then .opens
  else if Text.equalsIgnoringCase s "term" then .ends
  else .other

/-- The live connections after an action. -/
def Action.apply : Action → Nat → Nat
  | .opens, n => n + 1
  | .ends, n => n - 1
  | .other, n => n

/-- What a row did. -/
structure Event where
  hash : String
  action : String
  /-- The live connections after the row. -/
  connections : Nat
  /-- The statement that marks the router's peers down, for the first live connection. -/
  correction : Option String
  deriving Repr, DecidableEq

/-- The event of one row, if the row names a router. -/
def event? (t : Routers) (r : Record) : Option Event :=
  (r.text? Correction.hashField).map fun hash =>
    let name := (r.text? Correction.actionField).getD ""
    let action := Action.ofText name
    let live := t.connections hash
    { hash, action := name, connections := action.apply live
      correction :=
        if action = .opens ∧ live = 0 then
          some (Correction.peersDown hash ((r.text? Correction.timestampField).getD ""))
        else none }

/-- The counts after an event. -/
def record (t : Routers) (e : Event) : Routers :=
  { counts := t.counts.put (normalize e.hash) e.connections }

/-- Takes the rows in order. -/
def apply (t : Routers) : List Record → Routers × List Event
  | [] => (t, [])
  | r :: rs =>
    match t.event? r with
    | none => apply t rs
    | some e =>
      let (t', es) := apply (t.record e) rs
      (t', e :: es)

/-- The corrective statements of some events. -/
def corrections (es : List Event) : List String := es.filterMap Event.correction

end Routers

end BmpFeed
