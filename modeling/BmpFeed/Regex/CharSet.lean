import BmpFeed.Text.Blank
import BmpFeed.Text.Category
import BmpFeed.Text.Folding

/-!
# Character sets

The sets of characters a regular expression can name, and membership in them. Set operations are
kept as they were written; `CharSet.contains` decides them pointwise.
-/

namespace BmpFeed.Regex

/-- Sets given by a property of characters. -/
inductive Property
  /-- Letters, marks, decimal digits, connectors and joiners. -/
  | word
  | decimalDigit
  | blank
  | category (g : Text.GeneralCategory)
  deriving DecidableEq, Repr

inductive CharSet
  | none
  | range (low high : Nat)
  | property (p : Property)
  | union (a b : CharSet)
  | inter (a b : CharSet)
  | compl (a : CharSet)
  /-- With every character also those that differ from it in case alone. -/
  | anyCase (a : CharSet)
  deriving DecidableEq, Repr, Inhabited

open Text

/-- Letters that count as such though their category is that of a symbol. -/
def isLetterSymbol (n : Nat) : Bool :=
  (0x24B6 ≤ n && n ≤ 0x24E9) || (0x1F130 ≤ n && n ≤ 0x1F149) ||
    (0x1F150 ≤ n && n ≤ 0x1F169) || (0x1F170 ≤ n && n ≤ 0x1F189)

/-- A zero width joiner or non-joiner. -/
def isJoiner (n : Nat) : Bool := n == 0x200C || n == 0x200D

def isAsciiWord (c : Char) : Bool := c.isAlphanum || c = '_'

def isWord (c : Char) : Bool :=
  if c.toNat < 0x80 then isAsciiWord c
  else
    let g := GeneralCategory.of c
    g.isLetter || g.isMark || g == .decimalNumber || g == .letterNumber ||
      g == .connectorPunctuation || isLetterSymbol c.toNat || isJoiner c.toNat

def Property.holds : Property → Char → Bool
  | word, c => isWord c
  | decimalDigit, c => if c.toNat < 0x80 then c.isDigit else GeneralCategory.of c == .decimalNumber
  | blank, c => isBlank c
  | category g, c => GeneralCategory.of c == g

namespace CharSet

def single (c : Char) : CharSet := range c.toNat c.toNat

def any : CharSet := range 0 0x10FFFF

def unions (sets : List CharSet) : CharSet := sets.foldr union none

def diff (a b : CharSet) : CharSet := inter a (compl b)

def symmDiff (a b : CharSet) : CharSet := union (diff a b) (diff b a)

def contains : CharSet → Char → Bool
  | none, _ => false
  | range low high, c => low ≤ c.toNat && c.toNat ≤ high
  | property p, c => p.holds c
  | union a b, c => a.contains c || b.contains c
  | inter a b, c => a.contains c && b.contains c
  | compl a, c => !a.contains c
  | anyCase a, c => (Folding.variants c).any a.contains

/-- About how many ranges of code points the set takes. -/
def rangeCount : CharSet → Nat
  | none => 0
  | range _ _ => 1
  | property .word => 770
  | property .decimalDigit => 64
  | property .blank => 10
  | property (.category _) => 140
  | union a b => a.rangeCount + b.rangeCount
  | inter a b => max a.rangeCount b.rangeCount
  | compl a => a.rangeCount + 1
  | anyCase a => 2 * a.rangeCount

end CharSet

end BmpFeed.Regex
