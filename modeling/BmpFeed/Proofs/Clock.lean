import BmpFeed.Clock
import Mathlib.Tactic.SplitIfs

/-!
# Runs of a timed system

What the steps of a timed system preserve, and the passing of time, holds wherever it stops.
-/

namespace BmpFeed.Timed

variable {σ : Type} [Timed σ] {P : σ → Prop} {s : σ}

theorem finish_induction (hstep : ∀ s s', P s → step? s = some s' → P s')
    (hwait : ∀ s t, P s → P (setNow s (max t (now s)))) (done : σ → Bool) (fuel : Nat) (h : P s) :
    P (finish done fuel s) := by
  induction fuel generalizing s with
  | zero => exact h
  | succ fuel ih =>
    unfold finish
    split_ifs with hdone
    · exact h
    · split
      · rename_i s' hs
        exact ih (hstep s s' h hs)
      · split
        · exact ih (hwait s _ h)
        · exact h

theorem advance_induction (hstep : ∀ s s', P s → step? s = some s' → P s')
    (hwait : ∀ s t, P s → P (setNow s (max t (now s)))) (target fuel : Nat) (h : P s) :
    P (advance target fuel s) := by
  induction fuel generalizing s with
  | zero => exact h
  | succ fuel ih =>
    unfold advance
    split
    · rename_i s' hs
      exact ih (hstep s s' h hs)
    · split
      · split_ifs
        · exact ih (hwait s _ h)
        · exact hwait s _ h
      · exact hwait s _ h

end BmpFeed.Timed
