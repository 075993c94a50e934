import BmpFeed.Json.Number
import Mathlib.Tactic.Common

/-!
# How numbers are written

A number is written with digits, a point, signs and the mark of an exponent, so that its text needs
no quotes.
-/

namespace BmpFeed

open Binary64 (digitsOf renderDigits zeros)

/-- The character may stand in a number. -/
def isNumeric (c : Char) : Bool := c.isDigit || c ∈ ['-', '+', '.', 'e']

def Numeric (cs : List Char) : Prop := ∀ c ∈ cs, isNumeric c = true

variable {cs cs' : List Char}

namespace Numeric

theorem append (h : Numeric cs) (h' : Numeric cs') : Numeric (cs ++ cs') := fun c hc =>
  (List.mem_append.1 hc).elim (h c) (h' c)

theorem cons {c : Char} (hc : isNumeric c = true) (h : Numeric cs) : Numeric (c :: cs) := by
  intro d hd
  rcases List.mem_cons.1 hd with rfl | hd
  · exact hc
  · exact h d hd

theorem take (h : Numeric cs) (n : Nat) : Numeric (cs.take n) := fun c hc =>
  h c (List.mem_of_mem_take hc)

theorem drop (h : Numeric cs) (n : Nat) : Numeric (cs.drop n) := fun c hc =>
  h c (List.mem_of_mem_drop hc)

theorem digitsOf (n : Nat) : Numeric (digitsOf n) := by
  intro c hc
  have hdigit := Nat.isDigit_of_mem_toDigits (by decide) (by decide) hc
  simp [isNumeric, hdigit]

theorem zeros (n : Nat) : Numeric (zeros n) := by
  intro c hc
  rw [List.eq_of_mem_replicate hc]
  decide

theorem sign (negative : Bool) : Numeric (if negative then ['-'] else []) := by
  cases negative <;> simp [Numeric, isNumeric]

theorem renderDigits (h : Numeric cs) (exponent : Int) : Numeric (renderDigits cs exponent) := by
  have hmore := h.drop 1
  unfold Binary64.renderDigits
  dsimp only
  split_ifs
  · exact (h.append (zeros _)).append (by simp [Numeric, isNumeric])
  · exact ((h.take _).append (by simp [Numeric, isNumeric])).append (h.drop _)
  · exact (Numeric.append (by simp [Numeric, isNumeric]) (zeros _)).append h
  all_goals
    refine (((h.take 1).append ?_).append (by simp [Numeric, isNumeric])).append (digitsOf _)
    split
    · simp [Numeric]
    · exact .cons (by decide) hmore

theorem real (x : Binary64) : Numeric x.render.toList := by
  unfold Binary64.render
  dsimp only
  by_cases hzero : x.isZero = true
  · rw [if_pos hzero, String.toList_ofList]
    exact (sign _).append (by simp [Numeric, isNumeric])
  · rw [if_neg hzero, String.toList_ofList]
    exact (sign _).append ((digitsOf _).renderDigits _)

theorem render (n : Json.Number) : Numeric n.render.toList := by
  cases n with
  | nat n =>
    unfold Json.Number.render
    rw [String.toList_ofList]
    exact digitsOf n
  | neg n =>
    unfold Json.Number.render
    rw [String.toList_ofList]
    exact .cons (by decide) (digitsOf n)
  | real x => exact real x

end Numeric

end BmpFeed
