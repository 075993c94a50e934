import BmpFeed.Fleet.Crew

/-!
# Load

What a health check decides about a crew. A writer is above the high watermark when its queue is
more than three quarters full, and below the low one when it is less than a fifth full. A crew grows
when a writer has been above for too many checks in a row, shrinks when all are below, and when that
is due it first resets the writers that have been above for too long and have more than one key.
-/

namespace BmpFeed.Fleet

inductive Verdict
  /-- Reset the writers at these places. -/
  | rebalance (places : List Nat)
  | grow
  | shrink
  | hold
  deriving DecidableEq, Repr, Inhabited

/-- A verdict, with the members as the check leaves them. -/
structure Finding where
  verdict : Verdict
  members : List Member
  notes : List Note := []

namespace Policy

/-- The queue is more than three quarters full. -/
def isHigh (p : Policy) (m : Member) : Bool := p.queueSize * 3 < m.depth * 4

/-- The queue is less than a fifth full. -/
def isLow (p : Policy) (m : Member) : Bool := m.depth * 5 < p.queueSize

/-- The writer has been above the high watermark for too long. -/
def isOverdue (p : Policy) (m : Member) : Bool := p.allowedOver < m.above

/-- A rebalance resets the writer. -/
def isHot (p : Policy) (m : Member) : Bool := p.isOverdue m && 1 < m.keys.length

/-- The places of the writers that a rebalance resets. -/
def hotPlaces (p : Policy) (ms : List Member) : List Nat :=
  (ms.zipIdx.filter fun m => p.isHot m.1).map Prod.snd

/-- The members when a rebalance is due: those that it does not reset count from their depth on. -/
def rebalanced (p : Policy) (ms : List Member) : List Member :=
  ms.map fun m => if p.isHot m then m else { m with running := m.depth }

/-- Weighs one member of a crew of `size`: whether the crew is to grow, and the member's count. -/
def weigh (p : Policy) (c : Category) (size place : Nat) (m : Member) : Bool × Member × List Note :=
  let load := Note.writerLoad c place m.keys.length m.depth m.above m.running
  if p.isHigh m then
    if p.isOverdue m then
      if size < p.maxWriters then
        (true, { m with above := 0 }, [load, .watermarkAdding c place m.depth size])
      else (false, m, [load, .watermarkAtMost c place m.depth size])
    else
      (false, { m with above := m.above + 1 }, [load, .watermarkOver c place m.depth (m.above + 1)])
  else if p.isLow m then (false, { m with above := 0 }, [load])
  else (false, m, [load])

/-- Weighs the members from `place` on, up to the one that makes the crew grow. -/
def weighAll (p : Policy) (c : Category) (size : Nat) (place : Nat) :
    List Member → Bool × List Member × List Note
  | [] => (false, [], [])
  | m :: ms =>
    let (grows, m, notes) := p.weigh c size place m
    if grows then (true, m :: ms, notes)
    else
      let (grows, ms, later) := p.weighAll c size (place + 1) ms
      (grows, m :: ms, notes ++ later)

/-- Decides what a crew needs. -/
def assess (p : Policy) (c : Category) (rebalanceDue shrinkDue : Bool) (ms : List Member) :
    Finding :=
  let hot := if rebalanceDue then p.hotPlaces ms else []
  let ms := if rebalanceDue then p.rebalanced ms else ms
  if hot ≠ [] then { verdict := .rebalance hot, members := ms }
  else
    let (grows, weighed, notes) := p.weighAll c ms.length 0 ms
    let verdict : Verdict :=
      if grows then .grow
      else if ms.all p.isLow ∧ 1 < ms.length ∧ shrinkDue then .shrink
      else .hold
    { verdict, members := weighed, notes }

end Policy

end BmpFeed.Fleet
