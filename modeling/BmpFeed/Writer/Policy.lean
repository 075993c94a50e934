import BmpFeed.Settings.Basic

/-!
# Writer policy

When a writer writes its batch, and how it meets faults of the store.
-/

namespace BmpFeed.Writer

/-- How long to wait before going on after a fault, in milliseconds. -/
structure Pauses where
  /-- After a failed attempt to connect. -/
  reconnect : Nat := 1000
  /-- After a deadlock. -/
  deadlock : Nat := 150
  deriving DecidableEq, Repr, Inhabited

structure Policy where
  /-- Milliseconds between two writes of the batch. -/
  window : Nat
  /-- Records that make the batch full. -/
  limit : Nat
  /-- Attempts at one statement. -/
  retries : Nat
  pauses : Pauses := {}
  deriving DecidableEq, Repr, Inhabited

def Policy.ofSettings (s : Settings) : Policy :=
  { window := s.postgres.batchMillis, limit := s.postgres.batchRecords
    retries := s.postgres.retries }

/-- The policy under the default settings. -/
def Policy.standard : Policy := .ofSettings {}

end BmpFeed.Writer
