import BmpFeed.Decimal.Binary64

/-!
# The fewest digits that read back

`Binary64.shortest` gives the decimal digits of a double that are as few as possible among those
that round to it, and nearest to it among these. Numbers are compared in exact arithmetic: a double
`m * 2 ^ e` owns the interval between the halfway points to its neighbours, ends included exactly
when `m` is even. `Binary64.render` writes the digits out.
-/

namespace BmpFeed.Binary64

/-- A decimal `digits * 10 ^ exponent`. -/
structure Decimal where
  digits : Nat
  exponent : Int
  deriving DecidableEq, Repr, Inhabited

/-- All quantities of one double over the denominator `den`: its value and the ends of the
interval that rounds to it. -/
structure Interval where
  value : Nat
  low : Nat
  high : Nat
  den : Nat
  closed : Bool

def interval (x : Binary64) : Interval :=
  let m := x.mantissa
  -- In units of a quarter of the last place the value is `4 * m`.
  let below := if m = Nat.pow 2 52 ∧ -1074 < x.exponent then 1 else 2
  let e := x.exponent - 2
  let up := Nat.pow 2 e.toNat
  { value := 4 * m * up, low := (4 * m - below) * up, high := (4 * m + 2) * up
    den := Nat.pow 2 (-e).toNat, closed := m % 2 == 0 }

/-- The decimal lies in the interval. -/
def Interval.holds (i : Interval) (d : Decimal) : Bool :=
  let num := d.digits * Nat.pow 10 d.exponent.toNat * i.den
  let unit := Nat.pow 10 (-d.exponent).toNat
  if i.closed then i.low * unit ≤ num && num ≤ i.high * unit
  else i.low * unit < num && num < i.high * unit

/-- The greatest `k` with `10 ^ k ≤ num / den`, for a positive quotient, searched downward. -/
def magnitude (num den : Nat) : Int :=
  go (2 * (bitLength num + bitLength den) + 2) (bitLength num : Int)
where
  go : Nat → Int → Int
  | 0, k => k
  | fuel + 1, k =>
    if den * Nat.pow 10 k.toNat ≤ num * Nat.pow 10 (-k).toNat then k else go fuel (k - 1)

/-- The decimal with `n` digits nearest to the double that reads back as it, if one does. A tie
goes to the even neighbour. -/
def candidate? (i : Interval) (top : Int) (n : Nat) : Option Decimal :=
  let e := top - (n : Int) + 1
  let num := i.value * Nat.pow 10 (-e).toNat
  let den := i.den * Nat.pow 10 e.toNat
  let q := num / den
  let lower : Decimal := ⟨q, e⟩
  let upper : Decimal := ⟨q + 1, e⟩
  let first := if divNearest num den = q then lower else upper
  let second := if divNearest num den = q then upper else lower
  if i.holds first then some first else if i.holds second then some second else none

/-- The shortest decimal that reads back as the positive double. -/
def shortest (x : Binary64) : Decimal :=
  let i := x.interval
  let top := magnitude i.value i.den
  ((List.range 17).findSome? fun n => candidate? i top (n + 1)).getD ⟨0, 0⟩

/-- Digits without the zeros at their end, which move into the exponent. -/
def Decimal.trim (d : Decimal) : Decimal :=
  go d.digits d
where
  go : Nat → Decimal → Decimal
  | 0, d => d
  | fuel + 1, d =>
    if d.digits ≠ 0 ∧ d.digits % 10 = 0 then go fuel ⟨d.digits / 10, d.exponent + 1⟩ else d

/-- The decimal digits of `n`. -/
def digitsOf (n : Nat) : List Char := Nat.toDigits 10 n

def zeros (n : Nat) : List Char := List.replicate n '0'

/-- How a double is written: positionally for decimal exponents from -5 to 15 and then with at least
one place, otherwise with an exponent whose sign is always written. -/
def renderDigits (digits : List Char) (exponent : Int) : List Char :=
  let top := exponent + digits.length - 1
  if -5 ≤ top ∧ top ≤ 15 then
    if 0 ≤ exponent then digits ++ zeros exponent.toNat ++ ['.', '0']
    else if 0 ≤ top then
      digits.take (top.toNat + 1) ++ ['.'] ++ digits.drop (top.toNat + 1)
    else ['0', '.'] ++ zeros (-top - 1).toNat ++ digits
  else
    let mark := if top < 0 then ['e', '-'] else ['e', '+']
    let places := match digits.drop 1 with
      | [] => []
      | more => '.' :: more
    digits.take 1 ++ places ++ mark ++ digitsOf top.natAbs

def render (x : Binary64) : String :=
  let sign := if x.negative then ['-'] else []
  if x.isZero then String.ofList (sign ++ ['0', '.', '0'])
  else
    let d := x.shortest.trim
    String.ofList (sign ++ renderDigits (digitsOf d.digits) d.exponent)

end BmpFeed.Binary64
