import BmpFeed.Clock
import BmpFeed.Writer.Basic

/-!
# A writer by itself

One writer with its store and a clock.
-/

namespace BmpFeed.Writer

structure Bench where
  now : Nat := 0
  store : Store
  writer : Writer
  /-- What there is to note, the latest first. -/
  notes : List Note := []

namespace Bench

/-- A writer hired at time zero. -/
def start (policy : Policy) (id capacity : Nat) (t : Store) : Bench :=
  let (writer, store) := Writer.hire id policy capacity 0 t
  { store, writer }

def step? (b : Bench) : Option Bench :=
  (b.writer.step? b.now b.store).map fun turn =>
    { b with writer := turn.writer, store := turn.store, notes := turn.notes.reverse ++ b.notes }

instance : Timed Bench where
  now := Bench.now
  setNow b t := { b with now := t }
  step? := step?
  wake? b := b.writer.wake?

/-- Closes the queue and waits until the writer has left. -/
def dismiss (fuel : Nat) (b : Bench) : Bench :=
  let b := Timed.finish (fun b : Bench => b.writer.isClosed) fuel { b with writer := b.writer.shut }
  let note := if b.writer.phase = .gone then Note.writerJoined b.writer.id
    else .writerFailed b.writer.id
  { b with notes := note :: b.notes }

end Bench

end BmpFeed.Writer
