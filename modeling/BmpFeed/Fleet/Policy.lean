import BmpFeed.Writer.Policy

/-!
# Fleet policy

How many writers a category may have, and when their number changes.
-/

namespace BmpFeed.Fleet

structure Policy where
  /-- The most writers of one category. -/
  maxWriters : Nat
  /-- Requests that fit into the queue of one writer. -/
  queueSize : Nat
  /-- Checks in a row above the high watermark that are tolerated. -/
  allowedOver : Nat
  /-- Milliseconds between two changes of the number of writers. -/
  resizePause : Nat
  /-- Milliseconds between two rebalances. -/
  rebalancePause : Nat
  writer : Writer.Policy
  deriving DecidableEq, Repr, Inhabited

def Policy.ofSettings (s : Settings) : Policy :=
  { maxWriters := s.base.maxWriters
    queueSize := s.base.writerQueue
    allowedOver := s.base.allowedOver
    resizePause := s.base.scaleBackSeconds * 1000
    rebalancePause := s.base.rebalanceSeconds * 1000
    writer := .ofSettings s }

end BmpFeed.Fleet
