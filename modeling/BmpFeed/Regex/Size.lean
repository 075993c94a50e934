import BmpFeed.Regex.Basic

/-!
# How large an expression may be

An expression whose matcher would take too much memory is refused. How much one takes is a matter of
how matchers are built, which is not modelled: `assumedSize` is an assumption about it. Of such an
assumption no more is relied on than what `SizeRule` says, that a bar between two expressions takes
as much as any other.
-/

namespace BmpFeed.Regex

/-- An assumption on how many bytes the matchers of expressions take, and how many they may. -/
structure SizeRule where
  bytes : Regex → Nat
  /-- What a bar takes by itself. -/
  bar : Nat
  limit : Nat
  bytes_alt : ∀ a b, bytes (.alt a b) = bytes a + bytes b + bar

/-- The expression is not too large. -/
def SizeRule.Allows (rule : SizeRule) (r : Regex) : Prop := rule.bytes r ≤ rule.limit

instance (rule : SizeRule) (r : Regex) : Decidable (rule.Allows r) :=
  inferInstanceAs (Decidable (_ ≤ _))

/-- Every match is empty. -/
def onlyEmpty : Regex → Bool
  | empty | look _ => true
  | chars _ => false
  | seq a b | alt a b => a.onlyEmpty && b.onlyEmpty
  | repeated r _ max _ => max == some 0 || r.onlyEmpty

/-- An estimate of the bytes that a matcher takes, state by state. -/
def estimate : Regex → Nat
  | empty | look _ => 32
  | chars set => 32 + 60 * (set.rangeCount - 1)
  | seq a b => a.estimate + b.estimate
  | alt a b => a.estimate + b.estimate + 32
  | repeated r min max _ =>
    let copies := match max with
      | none => Nat.max min 1
      | some m => m
    r.estimate * (if r.onlyEmpty then Nat.min copies 1 else copies) + 32

/-- What is assumed of the size of matchers: the estimate, and a limit of ten mebibytes. -/
def assumedSize : SizeRule where
  bytes := estimate
  bar := 32
  limit := 10 * Nat.pow 2 20
  bytes_alt _ _ := rfl

end BmpFeed.Regex
