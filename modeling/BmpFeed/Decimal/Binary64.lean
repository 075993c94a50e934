/-!
# Doubles in exact arithmetic

A finite double is a sign, a mantissa below `2 ^ 53` and an exponent of two that is at least
`-1074`. `Binary64.ofRatio?` rounds a quotient of naturals to the nearest double, ties to the even
mantissa; products and quotients of doubles are computed exactly and rounded once.
-/

namespace BmpFeed

/-- The double `± mantissa * 2 ^ exponent`. -/
structure Binary64 where
  negative : Bool
  mantissa : Nat
  exponent : Int
  deriving DecidableEq, Repr, Inhabited

namespace Binary64

/-- The number of bits of `n`, and 0 for 0. -/
def bitLength (n : Nat) : Nat := if n = 0 then 0 else n.log2 + 1

/-- `num / den` rounded to a natural number, a half to the even neighbour. -/
def divNearest (num den : Nat) : Nat :=
  let q := num / den
  let r := num % den
  if 2 * r < den then q else if den < 2 * r then q + 1 else q + q % 2

/-- `num / den / 2 ^ e` rounded to a natural number. -/
def scaled (num den : Nat) (e : Int) : Nat :=
  divNearest (num * Nat.pow 2 (-e).toNat) (den * Nat.pow 2 e.toNat)

/-- The exponent at which the mantissa of `num / den` has 53 bits, or the least one. -/
def exponentFor (num den : Nat) : Int :=
  let guess := (bitLength num : Int) - bitLength den - 53
  let limit := den * Nat.pow 2 guess.toNat * Nat.pow 2 53
  let e := if num * Nat.pow 2 (-guess).toNat < limit then guess else guess + 1
  max e (-1074)

/-- The double nearest to `num / den`, and nothing when that is too large for one. -/
def ofRatio? (negative : Bool) (num den : Nat) : Option Binary64 :=
  let e := exponentFor num den
  let m := scaled num den e
  let x : Binary64 :=
    if m = Nat.pow 2 53 then ⟨negative, Nat.pow 2 52, e + 1⟩ else ⟨negative, m, e⟩
  if 971 < x.exponent then none else some x

def zero (negative : Bool) : Binary64 := ⟨negative, 0, -1074⟩

def isZero (x : Binary64) : Bool := x.mantissa == 0

/-- The double nearest to the natural number. -/
def ofNat? (n : Nat) : Option Binary64 := ofRatio? false n 1

def mul? (x y : Binary64) : Option Binary64 :=
  let e := x.exponent + y.exponent
  ofRatio? (x.negative != y.negative) (x.mantissa * y.mantissa * Nat.pow 2 e.toNat)
    (Nat.pow 2 (-e).toNat)

def div? (x y : Binary64) : Option Binary64 :=
  let e := x.exponent - y.exponent
  ofRatio? (x.negative != y.negative) (x.mantissa * Nat.pow 2 e.toNat)
    (y.mantissa * Nat.pow 2 (-e).toNat)

/-- The double nearest to `10 ^ k`. -/
def tenPow? (k : Nat) : Option Binary64 := ofNat? (Nat.pow 10 k)

end Binary64

end BmpFeed
