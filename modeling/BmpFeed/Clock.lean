/-!
# Time

A timed system moves by steps that take no time, and waits until the next of its alarms. `settle`
lets it move until it waits; `advance` moves the clock as well, from alarm to alarm, and `finish`
goes on until a condition holds. All three stop after a given number of steps.
-/

namespace BmpFeed

class Timed (σ : Type) where
  now : σ → Nat
  setNow : σ → Nat → σ
  /-- One step, unless every part of the system waits. -/
  step? : σ → Option σ
  /-- The first time at which a part that waits goes on by itself. -/
  wake? : σ → Option Nat

namespace Timed

variable {σ : Type} [Timed σ]

/-- The earlier of two alarms. -/
def earlier (a b : Option Nat) : Option Nat :=
  match a, b with
  | some a, some b => some (min a b)
  | some a, none => some a
  | none, b => b

/-- The first of some alarms. -/
def earliest (alarms : List (Option Nat)) : Option Nat := alarms.foldl earlier none

/-- Steps until every part waits. -/
def settle : Nat → σ → σ
  | 0, s => s
  | fuel + 1, s =>
    match step? s with
    | some s => settle fuel s
    | none => s

/-- Steps until every part waits and the clock shows `target`. -/
def advance (target : Nat) : Nat → σ → σ
  | 0, s => s
  | fuel + 1, s =>
    match step? s with
    | some s => advance target fuel s
    | none =>
      match wake? s with
      | some t =>
        if t ≤ target then advance target fuel (setNow s (max t (now s)))
        else setNow s (max target (now s))
      | none => setNow s (max target (now s))

/-- Steps, with the clock moving whenever every part waits, until the condition holds. -/
def finish (done : σ → Bool) : Nat → σ → σ
  | 0, s => s
  | fuel + 1, s =>
    if done s then s
    else
      match step? s with
      | some s => finish done fuel s
      | none =>
        match wake? s with
        | some t => finish done fuel (setNow s (max t (now s)))
        | none => s

end Timed

end BmpFeed
