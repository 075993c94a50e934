import BmpFeed.Fleet.Basic

/-!
# Backlogs

A bounded queue of requests in front of a fleet. A pass goes once over the requests that are queued
when it begins. A request whose writer refuses it goes to the end of the queue, and so does every
later request for that writer, so that none overtakes another for the same writer.
-/

namespace BmpFeed

structure Backlog where
  capacity : Nat
  /-- The requests that wait, the oldest first. -/
  items : List Request := []
  deriving Repr, Inhabited

namespace Backlog

def size (b : Backlog) : Nat := b.items.length

def isEmpty (b : Backlog) : Bool := b.items.isEmpty

/-- Appends a request if there is room. -/
def push? (b : Backlog) (r : Request) : Option Backlog :=
  if b.capacity ≤ b.items.length then none else some { b with items := b.items ++ [r] }

/-- How far a pass has come. -/
structure Pass where
  /-- The requests it has still to look at. -/
  left : Nat
  /-- The writers that refused a request. -/
  busy : List Fleet.Slot := []
  delivered : Nat := 0
  deriving Repr, DecidableEq, Inhabited

/-- A pass over all requests that wait. -/
def begin_ (b : Backlog) : Pass := { left := b.items.length }

/-- Takes a request that was routed to a place to the writer there, or to the end of the queue. -/
def offer (p : Pass) (b : Backlog) (f : Fleet) (slot : Fleet.Slot) (r : Request) :
    Pass × Backlog × Fleet × List Note :=
  let behind : Backlog := { b with items := b.items ++ [r] }
  if slot ∈ p.busy then ({ p with left := p.left - 1 }, behind, f, [])
  else
    match f.send? slot r with
    | some (f, note) => ({ p with left := p.left - 1, delivered := p.delivered + 1 }, b, f, [note])
    | none => ({ p with left := p.left - 1, busy := slot :: p.busy }, behind, f, [])

/-- Routes the oldest request and offers it to its writer. -/
def passOn (p : Pass) (b : Backlog) (f : Fleet) : Pass × Backlog × Fleet × List Note :=
  match b.items with
  | [] => ({ p with left := 0 }, b, f, [])
  | r :: rest =>
    let (slot, f) := f.route r.category r.key
    offer p { b with items := rest } f slot r

end Backlog

end BmpFeed
