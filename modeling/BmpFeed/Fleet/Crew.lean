import BmpFeed.Fleet.Policy
import BmpFeed.Writer.Basic

/-!
# Crews

The writers of one category. A key belongs to the writer that first took a request for it until that
writer is reset; a new key goes to the writer with the fewest keys, and among those to one whose
queue is less than half full before one whose queue is more than half full.
-/

namespace BmpFeed.Fleet

/-- A writer with what its crew knows of it. -/
structure Member where
  writer : Writer
  /-- The keys that belong to the writer. -/
  keys : List String := []
  /-- Checks in a row that found the writer above the high watermark. -/
  above : Nat := 0
  /-- Requests routed to the writer since its reset. -/
  running : Nat := 0
  deriving Repr, Inhabited

namespace Member

def depth (m : Member) : Nat := m.writer.depth

def owns (m : Member) (key : String) : Bool := m.keys.contains key

/-- Forgets the keys and the counts. -/
def reset (m : Member) : Member := { m with keys := [], above := 0, running := 0 }

/-- A writer without keys starts to count anew. -/
def refreshed (m : Member) : Member := if m.keys.isEmpty then { m with running := 0 } else m

/-- A new key goes to the one and not to the other. -/
def isBetter (mid : Nat) (m other : Member) : Bool :=
  if m.keys.length ≠ other.keys.length then m.keys.length < other.keys.length
  else if m.depth < mid ∧ mid < other.depth then true
  else if other.depth < mid ∧ mid < m.depth then false
  else m.running < other.running

/-- Counts a request. -/
def count (m : Member) : Member := { m with running := m.running + 1 }

def assign (m : Member) (key : String) : Member := { m with keys := m.keys ++ [key] }

end Member

structure Crew where
  members : List Member := []
  /-- When the number of writers last changed. -/
  resized : Nat
  /-- When a rebalance was last due. -/
  rebalanced : Nat
  deriving Repr, Inhabited

namespace Crew

def size (c : Crew) : Nat := c.members.length

/-- The requests in all queues. -/
def depth (c : Crew) : Nat := (c.members.map Member.depth).foldr (· + ·) 0

/-- The place of the writer that a key belongs to. -/
def ownerPlace? (c : Crew) (key : String) : Option Nat := c.members.findIdx? fun m => m.owns key

/-- The writer that a key belongs to. -/
def owner? (c : Crew) (key : String) : Option Member := c.members.find? fun m => m.owns key

/-- Goes through the members from `place` on and keeps the best so far and its place. -/
def scan (mid : Nat) (best : Nat × Member) (place : Nat) : List Member → Nat × Member
  | [] => best
  | m :: ms => scan mid (if m.isBetter mid best.2 then (place, m) else best) (place + 1) ms

/-- The place of the writer that a new key goes to. -/
def choose (mid : Nat) : List Member → Nat
  | [] => 0
  | m :: ms => (scan mid (0, m) 1 ms).1

/-- The place of the writer for a key, and the crew that has counted the request. -/
def route (mid : Nat) (c : Crew) (key : String) : Nat × Crew :=
  match c.ownerPlace? key with
  | some i => (i, { c with members := c.members.modify i Member.count })
  | none =>
    let members := c.members.map Member.refreshed
    let i := choose mid members
    (i, { c with members := members.modify i fun m => (m.assign key).count })

end Crew

end BmpFeed.Fleet
