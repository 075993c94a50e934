import BmpFeed.Regex.CharSet

/-!
# Regular expressions

Regular expressions and their leftmost-first matches. `Regex.ends` lists the places where a match
that begins at a given place may end, the preferred one first and each place once: an alternation
prefers its left side, a greedy repetition one more round, a lazy one to stop. A repetition never
goes round without consuming a character, except in its first round.
-/

namespace BmpFeed

namespace Regex

/-- Conditions on the place between two characters. -/
inductive Look
  | start
  | finish
  | lineStart
  | lineEnd
  /-- Like `lineStart`, where a carriage return ends a line too. -/
  | lineStartCrlf
  | lineEndCrlf
  | wordBoundary (ascii : Bool)
  | notWordBoundary (ascii : Bool)
  | wordStart (ascii : Bool)
  | wordEnd (ascii : Bool)
  | wordStartHalf (ascii : Bool)
  | wordEndHalf (ascii : Bool)
  deriving DecidableEq, Repr

/-- A place in a text: the character before it and what follows. -/
structure Cursor where
  before : Option Char
  rest : List Char
  deriving DecidableEq, Repr

namespace Cursor

def ofText (s : String) : Cursor := ⟨none, s.toList⟩

def atEnd (c : Cursor) : Bool := c.rest.isEmpty

def wordBefore (ascii : Bool) (c : Cursor) : Bool :=
  c.before.any (if ascii then isAsciiWord else isWord)

def wordAfter (ascii : Bool) (c : Cursor) : Bool :=
  c.rest.head?.any (if ascii then isAsciiWord else isWord)

end Cursor

def Look.holds (l : Look) (c : Cursor) : Bool :=
  match l with
  | start => c.before.isNone
  | finish => c.rest.isEmpty
  | lineStart => c.before.isNone || c.before == some '\n'
  | lineEnd => c.rest.isEmpty || c.rest.head? == some '\n'
  | lineStartCrlf =>
    c.before.isNone || c.before == some '\n' ||
      (c.before == some '\r' && c.rest.head? != some '\n')
  | lineEndCrlf =>
    c.rest.isEmpty || c.rest.head? == some '\r' ||
      (c.rest.head? == some '\n' && c.before != some '\r')
  | wordBoundary a => c.wordBefore a != c.wordAfter a
  | notWordBoundary a => c.wordBefore a == c.wordAfter a
  | wordStart a => !c.wordBefore a && c.wordAfter a
  | wordEnd a => c.wordBefore a && !c.wordAfter a
  | wordStartHalf a => !c.wordBefore a
  | wordEndHalf a => !c.wordAfter a

end Regex

inductive Regex
  | empty
  /-- One character of the set. -/
  | chars (set : Regex.CharSet)
  | look (l : Regex.Look)
  | seq (a b : Regex)
  | alt (a b : Regex)
  /-- At least `min` rounds and at most `max`. -/
  | repeated (r : Regex) (min : Nat) (max : Option Nat) (greedy : Bool)
  deriving DecidableEq, Repr, Inhabited

namespace Regex

/-- The places without those that stood further left already. -/
def distinct (cs : List Cursor) : List Cursor := cs.eraseDups

/-- The ends of `n` rounds. -/
def rounds (next : Cursor → List Cursor) : Nat → Cursor → List Cursor
  | 0, c => [c]
  | n + 1, c => distinct ((next c).flatMap (rounds next n))

/-- The ends of at most `n` rounds. -/
def upTo (next : Cursor → List Cursor) (greedy : Bool) : Nat → Cursor → List Cursor
  | 0, c => [c]
  | n + 1, c =>
    let more := (next c).flatMap (upTo next greedy n)
    distinct (if greedy then more ++ [c] else c :: more)

/-- The ends of any number of rounds after the one that led to `c`. The second list holds the places
that have been reached; each is gone on from once. -/
def further (next : Cursor → List Cursor) (greedy : Bool) :
    Nat → List Cursor → Cursor → List Cursor × List Cursor
  | 0, seen, c => if c ∈ seen then ([], seen) else ([c], c :: seen)
  | fuel + 1, seen, c =>
    if c ∈ seen then ([], seen)
    else
      let (more, seen) := (next c).foldl
        (fun found d =>
          let (ends, seen) := further next greedy fuel found.2 d
          (found.1 ++ ends, seen))
        ([], c :: seen)
      (if greedy then more ++ [c] else c :: more, seen)

/-- The ends of one or more rounds. -/
def oneOrMore (next : Cursor → List Cursor) (greedy : Bool) (c : Cursor) : List Cursor :=
  ((next c).foldl
    (fun found d =>
      if d = c then
        if d ∈ found.2 then found else (found.1 ++ [d], d :: found.2)
      else
        let (ends, seen) := further next greedy c.rest.length found.2 d
        (found.1 ++ ends, seen))
    ([], [])).1

/-- The ends of the matches that begin at the place, the preferred ones first. -/
def ends : Regex → Cursor → List Cursor
  | empty, c => [c]
  | chars set, c =>
    match c.rest with
    | x :: rest => if set.contains x then [⟨some x, rest⟩] else []
    | [] => []
  | look l, c => if l.holds c then [c] else []
  | seq a b, c => distinct ((a.ends c).flatMap b.ends)
  | alt a b, c => distinct (a.ends c ++ b.ends c)
  | repeated r min (some max) greedy, c =>
    distinct ((rounds r.ends min c).flatMap (upTo r.ends greedy (max - min)))
  | repeated r 0 none greedy, c =>
    let more := oneOrMore r.ends greedy c
    distinct (if greedy then more ++ [c] else c :: more)
  | repeated r (min + 1) none greedy, c =>
    distinct ((rounds r.ends min c).flatMap (oneOrMore r.ends greedy))

/-- The preferred match that begins with the text ends with it too. -/
def spans (r : Regex) (s : String) : Bool :=
  (r.ends (.ofText s)).head?.any Cursor.atEnd

def seqs (rs : List Regex) : Regex :=
  match rs with
  | [] => empty
  | r :: rs => rs.foldl seq r

def alts (rs : List Regex) : Regex :=
  match rs with
  | [] => empty
  | r :: rs => rs.foldl alt r

end Regex

end BmpFeed
