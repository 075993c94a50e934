import BmpFeed.Feed.Bus

/-!
# Staged subscription

The topic patterns are subscribed one after another, with a delay between two stages. Each stage
commits what was read and then subscribes the alternation of the patterns so far, so that earlier
topics stay subscribed. A stage that fails leaves the subscription as it was.
-/

namespace BmpFeed.Feed

structure Subscription where
  patterns : List Pattern
  /-- Milliseconds between two stages. -/
  delay : Nat
  /-- How many of the patterns are subscribed. -/
  count : Nat := 0
  /-- The time of the latest stage. -/
  last : Option Nat := none
  deriving Repr

/-- What a stage came to. -/
structure Stage where
  /-- Whether a pattern was added. -/
  result : Except Fault Bool
  subscription : Subscription
  bus : Bus
  notes : List Note := []

namespace Subscription

def isComplete (s : Subscription) : Bool := s.patterns.length ≤ s.count

/-- The text that matches what one of the patterns matches. -/
def alternation (ps : List Pattern) : String :=
  "|".intercalate (ps.map fun p => "(" ++ p.text ++ ")")

/-- The delay since the latest stage has not passed. -/
def isWaiting (s : Subscription) (now : Nat) : Bool := s.last.any fun last => now < last + s.delay

/-- What a pattern that is not well formed answers. -/
def malformed : Fault := .subscribe "regex parse error"

/-- Subscribes the next pattern, after a successful commit. -/
def extend (s : Subscription) (now : Nat) (next : Pattern) (b : Bus) : Stage :=
  let combined := alternation (s.patterns.take (s.count + 1))
  match Pattern.ofText? combined with
  | none => { result := .error malformed, subscription := s, bus := b }
  | some p =>
    let r := b.subscribe p
    match r.result with
    | .error f => { result := .error f, subscription := s, bus := r.bus, notes := [r.note] }
    | .ok _ =>
      { result := .ok true
        subscription := { s with count := s.count + 1, last := some now }
        bus := r.bus
        notes := [r.note, .subscribed next.text, .subscription combined] }

/-- Subscribes the next pattern if it is time to. -/
def step (s : Subscription) (now : Nat) (b : Bus) : Stage :=
  match s.patterns[s.count]? with
  | none => { result := .ok false, subscription := s, bus := b }
  | some next =>
    if s.isWaiting now then { result := .ok false, subscription := s, bus := b }
    else
      let r := b.commit
      match r.result with
      | .error f => { result := .error f, subscription := s, bus := r.bus, notes := [r.note] }
      | .ok _ =>
        let stage := s.extend now next r.bus
        { stage with notes := r.note :: stage.notes }

end Subscription

end BmpFeed.Feed
