import BmpFeed.Proofs.Clock
import BmpFeed.Proofs.Intake.Run

/-!
# Intakes by the clock

An intake with its store and a clock, which keeps what it shows. It is told to stop as soon as no
messages wait. `Trace.run_finish` says that what such an intake goes through is a run.
-/

namespace BmpFeed.Intake

structure Trace where
  now : Nat := 0
  store : Store
  intake : Intake
  events : List Event := []

namespace Trace

/-- An intake that has just been opened on a bus. -/
def start (s : Settings) (bus : Feed.Bus) (t : Store) : Trace :=
  let (intake, store) := Intake.open_ 0 s bus 0 t
  { store, intake }

/-- The intake makes a step, unless it waits or has ended. -/
def stepIntake? (x : Trace) : Option Trace :=
  (x.intake.step? x.now x.intake.bus.batches.isEmpty x.store).map fun turn =>
    { x with
      store := turn.store, intake := turn.intake
      events := x.events ++ x.intake.events x.now x.store }

/-- The first writer that does not wait makes a step. -/
def stepWriter? (x : Trace) : Option Trace :=
  x.intake.dispatch.fleet.writers.findSome? fun w =>
    (w.step? x.now x.store).map fun turn =>
      { x with
        store := turn.store
        intake :=
          { x.intake with
            dispatch :=
              { x.intake.dispatch with fleet := x.intake.dispatch.fleet.replace turn.writer } }
        events := x.events ++ (((w.events x.store).map (.writer w.id)).map .fleet).map .dispatch }

def step? (x : Trace) : Option Trace := x.stepIntake?.or x.stepWriter?

def wake? (x : Trace) : Option Nat :=
  Timed.earlier x.intake.wake? x.intake.dispatch.fleet.wake?

instance : Timed Trace where
  now := Trace.now
  setNow x t := { x with now := t }
  step? := step?
  wake? := wake?

/-- The intake from its start to its end. -/
def finish (fuel : Nat) (x : Trace) : Trace :=
  Timed.finish (fun x : Trace => x.intake.hasEnded) fuel x

variable {s : Settings} {x x' : Trace}

theorem run_start (s : Settings) (bus : Feed.Bus) (t : Store) :
    Run s (start s bus t).events (start s bus t).now (start s bus t).intake :=
  .open_ 0 bus 0 t

theorem run_step (h : Run s x.events x.now x.intake) (hs : x.step? = some x') :
    Run s x'.events x'.now x'.intake := by
  unfold step? at hs
  rcases Option.or_eq_some_iff.1 hs with hs | ⟨-, hs⟩
  · obtain ⟨turn, hturn, rfl⟩ := Option.map_eq_some_iff.1 hs
    exact h.step hturn
  · obtain ⟨w, hw, hs⟩ := List.exists_of_findSome?_eq_some hs
    obtain ⟨turn, hturn, rfl⟩ := Option.map_eq_some_iff.1 hs
    exact h.write hw hturn

theorem run_finish (h : Run s x.events x.now x.intake) (fuel : Nat) :
    Run s (finish fuel x).events (finish fuel x).now (finish fuel x).intake := by
  exact Timed.finish_induction (P := fun x : Trace => Run s x.events x.now x.intake)
    (fun _ _ h hs => run_step h hs) (fun _ _ h => h.wait (Nat.le_max_right _ _)) _ fuel h

end Trace

/-! ## A sample -/

/-- A table of values by their keys. Each category has one writer, and queues hold one request. -/
def sampleSettings : Settings :=
  { base := { maxWriters := 1, writerQueue := 1, backlog := 1 }
    postgres := { batchRecords := 1 }
    kafka := { patterns := ["t"] }
    tables :=
      [{ kind := .unicastPrefix, table := "t", columns := ["k", "v"], identity := ["k"] }] }

/-- Three messages with values of one key. -/
def sampleMessages : List Feed.Message :=
  ["2", "3", "4"].map fun v =>
    { topic := "t", key := "r", payload := "\x7b\"k\":1,\"v\":" ++ v ++ "\x7d"
      tag := some "unicast_prefix" }

/-- An intake that gets the messages in two batches. -/
def sampleTrace : Trace :=
  (Trace.start sampleSettings
    { batches := [sampleMessages.take 2, sampleMessages.drop 2] } {}).finish 300

end BmpFeed.Intake
