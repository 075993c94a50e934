/-!
# Whole numbers

Reading whole numbers within a limit.
-/

namespace BmpFeed.Settings

/-- The number that decimal digits write, with a plus sign or without, if it is at most `limit`. -/
def number? (limit : Nat) (s : String) : Option Nat :=
  let digits := match s.toList with
    | '+' :: ds => ds
    | ds => ds
  if digits ≠ [] ∧ digits.all Char.isDigit then
    let n := digits.foldl (fun n c => n * 10 + (c.toNat - '0'.toNat)) 0
    if n ≤ limit then some n else none
  else none

end BmpFeed.Settings
