import BmpFeed.Clock
import BmpFeed.Dispatch

/-!
# A dispatch by itself

A dispatch with its store and a clock. Signs of life are only counted.
-/

namespace BmpFeed.Dispatch

structure Bench where
  now : Nat := 0
  store : Store
  dispatch : Dispatch
  /-- What the owner is at. -/
  tasks : List Task := []
  pulses : Nat := 0
  /-- What there is to note, the latest first. -/
  notes : List Note := []

namespace Bench

def start (p : Fleet.Policy) (capacity : Nat) (t : Store) : Bench :=
  let (dispatch, store) := Dispatch.start p capacity 0 t
  { store, dispatch }

/-- The owner makes a step, unless it waits or has nothing to do. -/
def stepOwner? (b : Bench) : Option Bench :=
  match b.tasks with
  | [] => none
  | task :: rest =>
    (b.dispatch.taskStep? b.now b.store task).map fun turn =>
      { b with
        dispatch := turn.dispatch, store := turn.store, tasks := turn.tasks ++ rest
        pulses := b.pulses + turn.pulse.toNat, notes := turn.notes.reverse ++ b.notes }

/-- A writer makes a step, unless all of them wait. -/
def stepWriter? (b : Bench) : Option Bench :=
  (b.dispatch.fleet.step? b.now b.store).map fun (fleet, store, notes) =>
    { b with
      dispatch := { b.dispatch with fleet }, store, notes := notes.reverse ++ b.notes }

def step? (b : Bench) : Option Bench := b.stepOwner?.or b.stepWriter?

def wake? (b : Bench) : Option Nat :=
  Timed.earlier (b.tasks.head?.bind Task.wake?) b.dispatch.fleet.wake?

instance : Timed Bench where
  now := Bench.now
  setNow b t := { b with now := t }
  step? := step?
  wake? := wake?

/-- Does some tasks to their end. -/
def perform (fuel : Nat) (tasks : List Task) (b : Bench) : Bench :=
  Timed.finish (fun b : Bench => b.tasks.isEmpty) fuel { b with tasks }

end Bench

end BmpFeed.Dispatch
