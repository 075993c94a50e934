import BmpFeed.Backlog
import BmpFeed.Fleet.Upkeep

/-!
# Dispatch

A backlog in front of its fleet, and what their owner does with the two. A request for a full
backlog is tried again every millisecond, after a sign of life and a pass.
-/

namespace BmpFeed

structure Dispatch where
  fleet : Fleet
  backlog : Backlog
  deriving Repr, Inhabited

namespace Dispatch

inductive Task
  | chore (c : Fleet.Chore)
  /-- Appends a request to the backlog. -/
  | push (r : Request)
  /-- Tries again after a rest. -/
  | rest (r : Request)
  | retry (r : Request) (due : Nat)
  /-- Begins a pass. -/
  | drain
  | pass (p : Backlog.Pass)
  deriving Repr, Inhabited

/-- What a task did in one step. -/
structure Turn where
  /-- What is to be done next. -/
  tasks : List Task := []
  dispatch : Dispatch
  store : Store
  notes : List Note := []
  /-- A sign of life is asked for, before the notes. -/
  pulse : Bool := false

/-- A fleet of full size behind an empty backlog. -/
def start (p : Fleet.Policy) (capacity now : Nat) (t : Store) : Dispatch × Store :=
  let (fleet, t) := Fleet.start p now t
  ({ fleet, backlog := { capacity } }, t)

def ofChore (d : Dispatch) (turn : Fleet.Chore.Turn) : Turn :=
  { tasks := turn.chores.map .chore, dispatch := { d with fleet := turn.fleet }
    store := turn.store, notes := turn.notes, pulse := turn.pulse }

/-- One step of a pass. -/
def passStep (d : Dispatch) (p : Backlog.Pass) : Backlog.Pass × Dispatch × List Note :=
  let (p, backlog, fleet, notes) := Backlog.passOn p d.backlog d.fleet
  (p, { fleet, backlog }, notes)

/-- One step of a task, unless it waits. -/
def taskStep? (now : Nat) (d : Dispatch) (t : Store) : Task → Option Turn
  | .chore c => (c.step? now d.fleet t).map d.ofChore
  | .push r =>
    match d.backlog.push? r with
    | some backlog => some { dispatch := { d with backlog }, store := t }
    | none => some { tasks := [.drain, .rest r], dispatch := d, store := t, pulse := true }
  | .rest r => some { tasks := [.retry r (now + 1)], dispatch := d, store := t }
  | .retry r due =>
    if due ≤ now then some { tasks := [.push r], dispatch := d, store := t } else none
  | .drain => some { tasks := [.pass d.backlog.begin_], dispatch := d, store := t }
  | .pass p =>
    if p.left = 0 then some { dispatch := d, store := t }
    else
      let (p, d, notes) := d.passStep p
      some { tasks := [.pass p], dispatch := d, store := t, notes }

/-- The time a task waits for. -/
def Task.wake? : Task → Option Nat
  | .chore c => c.wake?
  | .retry _ due => some due
  | _ => none

/-- A pass from where it stands to its end. -/
def finishPass : Nat → Backlog.Pass → Dispatch → Backlog.Pass × Dispatch × List Note
  | 0, p, d => (p, d, [])
  | fuel + 1, p, d =>
    if p.left = 0 then (p, d, [])
    else
      let (p, d, notes) := d.passStep p
      let (p, d, later) := finishPass fuel p d
      (p, d, notes ++ later)

/-- A whole pass: how many requests it delivered, and what it left. -/
def drain (d : Dispatch) : Nat × Dispatch × List Note :=
  let (p, d, notes) := finishPass d.backlog.size d.backlog.begin_ d
  (p.delivered, d, notes)

end Dispatch

end BmpFeed
