import BmpFeed.Decimal.Shortest

/-!
# Numbers in payloads

An integer that fits 64 bits stays exact; every other number is a double. A double is built from the
leading digits that fit 64 bits and a power of ten, each step rounded to the nearest double, so it
may differ in the last place from the double nearest to the whole text (`Json.Number.ofParts?`).
-/

namespace BmpFeed.Json

inductive Number
  /-- `0 ≤ n < 2 ^ 64`. -/
  | nat (n : Nat)
  /-- The integer `-n`, where `1 ≤ n ≤ 2 ^ 63`. -/
  | neg (n : Nat)
  | real (x : Binary64)
  deriving DecidableEq, Repr, Inhabited

namespace Number

def render : Number → String
  | nat n => String.ofList (Binary64.digitsOf n)
  | neg n => String.ofList ('-' :: Binary64.digitsOf n)
  | real x => x.render

/-- The least number that 64 bits do not hold. -/
def wordLimit : Nat := Nat.pow 2 64

/-- The greatest exponent whose power of ten is a double. -/
def maxTen : Nat := 308

/-- `x * 10 ^ (-k)`, dividing by at most `10 ^ 308` at a time. -/
def scaleDown (x : Binary64) (k : Nat) : Option Binary64 :=
  if k ≤ maxTen then (Binary64.tenPow? k).bind x.div?
  else if x.isZero then some x
  else (Binary64.tenPow? maxTen).bind fun p => (x.div? p).bind fun y => scaleDown y (k - maxTen)
termination_by k
decreasing_by simp only [maxTen] at *; omega

/-- `x * 10 ^ k`; nothing when that is too large for a double. -/
def scaleUp (x : Binary64) (k : Nat) : Option Binary64 :=
  if k ≤ maxTen then (Binary64.tenPow? k).bind x.mul?
  else if x.isZero then some x
  else none

/-- The double of `significand * 10 ^ exponent`. -/
def scale? (negative : Bool) (significand : Nat) (exponent : Int) : Option Number := do
  let x ← Binary64.ofNat? significand
  let y ← if 0 ≤ exponent then scaleUp x exponent.toNat else scaleDown x (-exponent).toNat
  some (.real { y with negative })

/-- A significand that still takes digits, or has met one that does not fit. -/
structure Significand where
  value : Nat := 0
  full : Bool := false
  /-- Digits that were taken. -/
  taken : Nat := 0
  /-- Digits that no longer fitted. -/
  skipped : Nat := 0

def Significand.push (s : Significand) (digit : Nat) : Significand :=
  if s.full ∨ wordLimit ≤ s.value * 10 + digit then
    { s with full := true, skipped := s.skipped + 1 }
  else { s with value := s.value * 10 + digit, taken := s.taken + 1 }

/-- The greatest exponent that is read as a number. -/
def maxExponent : Nat := Nat.pow 2 31 - 1

/-- The number with these digits before the point, after it, and in the exponent. -/
def ofParts? (negative : Bool) (whole : List Nat) (places : Option (List Nat))
    (exponent : Option (Bool × List Nat)) : Option Number :=
  let s := whole.foldl Significand.push {}
  match places, exponent with
  | none, none =>
    if s.skipped ≠ 0 then scale? negative s.value s.skipped
    else if !negative then some (.nat s.value)
    else if s.value = 0 then some (.real (.zero true))
    else if s.value ≤ Nat.pow 2 63 then some (.neg s.value)
    else scale? true s.value 0
  | _, _ =>
    -- A digit after the point is tried against the significand once more.
    let f := (places.getD []).foldl Significand.push { value := s.value }
    let shift : Int := s.skipped - f.taken
    match exponent with
    | none => scale? negative f.value shift
    | some (minus, digits) =>
      let e := digits.foldl (fun n d => n * 10 + d) 0
      if maxExponent < e then
        if f.value ≠ 0 ∧ !minus then none else some (.real (.zero negative))
      else scale? negative f.value (if minus then shift - e else shift + e)

end Number

end BmpFeed.Json
