import BmpFeed.Regex.Property
import BmpFeed.Regex.Size

/-!
# Reading regular expressions

`Regex.parse?` reads the syntax of regular expressions without look-around and back-references.
Flags hold from where they are set to the end of their group. Each reader takes the characters that
are left and returns what it read with the rest, or nothing when the expression is not well formed.
-/

namespace BmpFeed.Regex

structure Flags where
  ignoreCase : Bool := false
  multiLine : Bool := false
  /-- A dot matches line ends too. -/
  dotAll : Bool := false
  /-- Repetitions are lazy unless a question mark makes them greedy. -/
  swapGreed : Bool := false
  /-- Classes and dots range over all characters and not over bytes. -/
  unicode : Bool := true
  crlf : Bool := false
  /-- Blanks and comments between the parts are skipped. -/
  verbose : Bool := false
  deriving DecidableEq, Repr

namespace Flags

def set (f : Flags) (letter : Char) (value : Bool) : Option Flags :=
  match letter with
  | 'i' => some { f with ignoreCase := value }
  | 'm' => some { f with multiLine := value }
  | 's' => some { f with dotAll := value }
  | 'U' => some { f with swapGreed := value }
  | 'u' => some { f with unicode := value }
  | 'R' => some { f with crlf := value }
  | 'x' => some { f with verbose := value }
  | _ => none

/-- Skips what verbose expressions may contain between their parts. -/
def skip (f : Flags) (cs : List Char) : List Char := if f.verbose then go cs.length cs else cs
where
  go : Nat → List Char → List Char
  | 0, cs => cs
  | fuel + 1, cs =>
    match cs with
    | '#' :: rest => go fuel ((rest.dropWhile (· ≠ '\n')).drop 1)
    | c :: rest => if Text.isBlank c then go fuel rest else cs
    | [] => []

/-- The set with the other case of its characters, if the flags say so. -/
def fold (f : Flags) (s : CharSet) : CharSet := if f.ignoreCase then .anyCase s else s

end Flags

/-- A part of an expression, and how deep it nests. -/
structure Part where
  regex : Regex
  depth : Nat := 0

/-- How deep an expression may nest. -/
def maxNesting : Nat := 250

/-- What a backslash and the characters after it stand for. -/
inductive Escaped
  | literal (c : Char)
  /-- A byte given by two digits. -/
  | byte (n : Nat)
  | set (s : CharSet)
  | look (l : Look)

def isMeta (c : Char) : Bool :=
  ['\\', '.', '+', '*', '?', '(', ')', '|', '[', ']', '{', '}', '^', '$', '#', '&', '-',
    '~'].contains c

/-- Characters that a backslash leaves as they are. -/
def isEscapable (c : Char) : Bool :=
  isMeta c || (c.toNat < 0x80 && !c.isAlphanum && c ≠ '<' && c ≠ '>')

def hexValue? (c : Char) : Option Nat :=
  if c.isDigit then some (c.toNat - '0'.toNat)
  else if 'a' ≤ c.toLower ∧ c.toLower ≤ 'f' then some (c.toLower.toNat - 'a'.toNat + 10)
  else none

/-- The number that hexadecimal digits write. -/
def hexNumber? : List Char → Option Nat :=
  List.foldlM (fun n c => (hexValue? c).map fun d => n * 16 + d) 0

/-- The character with this code, unless the code is that of a surrogate or too large. -/
def charOf? (n : Nat) : Option Char :=
  if n < 0xD800 ∨ (0xDFFF < n ∧ n < 0x110000) then some (Char.ofNat n) else none

/-- A code of `count` digits, or of any number of digits in braces. -/
def hexEscape (count : Nat) (cs : List Char) : Option (Escaped × List Char) :=
  match cs with
  | '{' :: rest =>
    match rest.span (· ≠ '}') with
    | ([], _) => none
    | (ds, '}' :: rest) => do
      let n ← hexNumber? ds
      let c ← charOf? n
      some (.literal c, rest)
    | _ => none
  | _ => do
    let ds := cs.take count
    if ds.length = count then
      let n ← hexNumber? ds
      let c ← charOf? n
      some (if count = 2 then .byte n else .literal c, cs.drop count)
    else none

/-- The property after `\p`: one letter, or a name in braces with or without a value. -/
def propertyEscape (negated : Bool) (cs : List Char) : Option (Escaped × List Char) :=
  let wrap (negated : Bool) (s : CharSet) : Escaped := .set (if negated then .compl s else s)
  match cs with
  | '{' :: rest =>
    match rest.span (· ≠ '}') with
    | (body, '}' :: rest) =>
      let (negated, body) := match body with
        | '^' :: body => (!negated, body)
        | _ => (negated, body)
      match body.span fun c => c ≠ '=' && c ≠ ':' with
      | (name, []) => (namedSet? (looseName name)).map fun s => (wrap negated s, rest)
      | (name, _ :: value) =>
        let (differs, name) := match name.reverse with
          | '!' :: name => (true, name.reverse)
          | _ => (false, name)
        (valueSet? (looseName name) (looseName value)).map fun s =>
          (wrap (negated != differs) s, rest)
    | _ => none
  | '\\' :: _ => none
  | c :: rest => (namedSet? (looseName [c])).map fun s => (wrap negated s, rest)
  | [] => none

/-- The word boundary that a name in braces selects. -/
def namedBoundary (ascii : Bool) (cs : List Char) : Option (Look × List Char) :=
  match cs with
  | '{' :: rest =>
    match rest.span fun c => c.isAlpha || c = '-' with
    | ([], _) => some (.wordBoundary ascii, cs)
    | (name, '}' :: rest) =>
      match String.ofList name with
      | "start" => some (.wordStart ascii, rest)
      | "end" => some (.wordEnd ascii, rest)
      | "start-half" => some (.wordStartHalf ascii, rest)
      | "end-half" => some (.wordEndHalf ascii, rest)
      | _ => none
    | _ => none
  | _ => some (.wordBoundary ascii, cs)

/-- The sets of `\d`, `\s` and `\w`. -/
def perlSet (f : Flags) (c : Char) : CharSet :=
  if f.unicode then
    .property (if c = 'd' then .decimalDigit else if c = 's' then .blank else .word)
  else if c = 'd' then .range 48 57
  else if c = 's' then .unions [.range 9 13, .range 32 32]
  else .unions [.range 48 57, .range 65 90, .range 95 95, .range 97 122]

/-- What follows a backslash. -/
def escape (f : Flags) (cs : List Char) : Option (Escaped × List Char) :=
  match cs with
  | [] => none
  | c :: rest =>
    if c.isDigit then none
    else if c = 'x' then hexEscape 2 rest
    else if c = 'u' then hexEscape 4 rest
    else if c = 'U' then hexEscape 8 rest
    else if c = 'p' ∨ c = 'P' then if f.unicode then propertyEscape (c = 'P') rest else none
    else if c = 'd' ∨ c = 's' ∨ c = 'w' then some (.set (perlSet f c), rest)
    else if c = 'D' ∨ c = 'S' ∨ c = 'W' then
      if f.unicode then some (.set (.compl (perlSet f c.toLower)), rest) else none
    else if isEscapable c then some (.literal c, rest)
    else
      let ascii := !f.unicode
      match c with
      | 'a' => some (.literal '\x07', rest)
      | 'f' => some (.literal '\x0c', rest)
      | 't' => some (.literal '\t', rest)
      | 'n' => some (.literal '\n', rest)
      | 'r' => some (.literal '\r', rest)
      | 'v' => some (.literal '\x0b', rest)
      | 'A' => some (.look .start, rest)
      | 'z' => some (.look .finish, rest)
      | 'b' => (namedBoundary ascii rest).map fun (l, rest) => (.look l, rest)
      | 'B' => some (.look (.notWordBoundary ascii), rest)
      | '<' => some (.look (.wordStart ascii), rest)
      | '>' => some (.look (.wordEnd ascii), rest)
      | _ => none

/-- The code that an escape in a class stands for, when it is one character. -/
def Escaped.char? (f : Flags) : Escaped → Option Char
  | .literal c => some c
  | .byte n => if f.unicode ∨ n < 0x80 then charOf? n else none
  | _ => none

/-- The operations between the parts of a class. -/
inductive SetOp
  | inter
  | diff
  | symmDiff

def SetOp.apply (op : SetOp) (a b : CharSet) : CharSet :=
  match op with
  | inter => .inter a b
  | diff => a.diff b
  | symmDiff => a.symmDiff b

/-- A class that is being read. -/
structure ClassScan where
  /-- The finished left side of an operation. -/
  left : Option (CharSet × SetOp) := none
  /-- The items since. -/
  items : CharSet := .none
  count : Nat := 0
  depth : Nat := 0

namespace ClassScan

def add (s : ClassScan) (set : CharSet) (depth : Nat) : ClassScan :=
  { s with items := .union s.items set, count := s.count + 1, depth := max s.depth depth }

/-- The items so far under the operation that waits for them. -/
def joined (f : Flags) (s : ClassScan) : CharSet :=
  match s.left with
  | none => s.items
  | some (l, op) => op.apply (f.fold l) (f.fold s.items)

def operate (f : Flags) (op : SetOp) (s : ClassScan) : ClassScan :=
  { left := some (s.joined f, op), depth := s.depth + 1 }

end ClassScan

/-- A class in `[: :]`; the bracket has been read. -/
def asciiClass? : List Char → Option (CharSet × List Char)
  | ':' :: cs =>
    let (negated, cs) := match cs with
      | '^' :: cs => (true, cs)
      | _ => (false, cs)
    match cs.span (· ≠ ':') with
    | (name, ':' :: ']' :: rest) =>
      (asciiSet? (String.ofList name)).map fun s => (if negated then .compl s else s, rest)
    | _ => none
  | _ => none

/-- One item of a class: a character or a set. -/
def classItem (f : Flags) (cs : List Char) : Option (Escaped × List Char) :=
  match cs with
  | '\\' :: rest => escape f rest
  | c :: rest => some (.literal c, rest)
  | [] => none

/-- The set of an item that is no end of a range. -/
def Escaped.set? (f : Flags) : Escaped → Option CharSet
  | .set s => some s
  | .look _ => none
  | e => (e.char? f).bind fun c => if f.unicode ∨ c.toNat < 0x80 then some (.single c) else none

/-- An item of a class or a range of characters. -/
def classRange (f : Flags) (cs : List Char) : Option (CharSet × List Char) :=
  (classItem f cs).bind fun (first, rest) =>
    match f.skip rest with
    | [] => none
    | '-' :: later =>
      match f.skip later with
      | ']' :: _ | '-' :: _ => (first.set? f).map fun s => (s, '-' :: later)
      | later =>
        (classItem f later).bind fun (last, rest) =>
          (first.char? f).bind fun low => (last.char? f).bind fun high =>
            if low ≤ high ∧ (f.unicode ∨ high.toNat < 0x80) then
              some (.range low.toNat high.toNat, rest)
            else none
    | rest => (first.set? f).map fun s => (s, rest)

/-- The dashes, and the closing bracket, that stand for themselves at the front of a class. -/
def classFront (f : Flags) : Nat → ClassScan → List Char → ClassScan × List Char
  | 0, s, cs => (s, cs)
  | fuel + 1, s, cs =>
    match cs with
    | '-' :: rest => classFront f fuel (s.add (.single '-') 0) (f.skip rest)
    | ']' :: rest => if s.count = 0 then (s.add (.single ']') 0, f.skip rest) else (s, cs)
    | _ => (s, cs)

mutual

/-- A class; its opening bracket has been read. -/
def charClass (f : Flags) : Nat → List Char → Option (CharSet × Nat × List Char)
  | 0, _ => none
  | fuel + 1, cs =>
    let cs := f.skip cs
    let (negated, cs) := match cs with
      | '^' :: rest => (true, f.skip rest)
      | _ => (false, cs)
    let (s, cs) := classFront f cs.length {} cs
    (classItems f fuel s cs).bind fun (s, rest) =>
      let set := f.fold (s.joined f)
      if negated ∧ !f.unicode then none
      else
        let depth := s.depth + 1 + (if 2 ≤ s.count then 1 else 0)
        some (if negated then .compl set else set, depth, rest)

/-- The items of a class up to and including its closing bracket. -/
def classItems (f : Flags) : Nat → ClassScan → List Char → Option (ClassScan × List Char)
  | 0, _, _ => none
  | fuel + 1, s, cs =>
    match f.skip cs with
    | [] => none
    | ']' :: rest => some (s, rest)
    | '[' :: rest =>
      match asciiClass? rest with
      | some (set, rest) => classItems f fuel (s.add set 0) rest
      | none =>
        (charClass f fuel rest).bind fun (set, depth, rest) =>
          classItems f fuel (s.add set depth) rest
    | '&' :: '&' :: rest => classItems f fuel (s.operate f .inter) rest
    | '-' :: '-' :: rest => classItems f fuel (s.operate f .diff) rest
    | '~' :: '~' :: rest => classItems f fuel (s.operate f .symmDiff) rest
    | cs => (classRange f cs).bind fun (set, rest) => classItems f fuel (s.add set 0) rest

end

/-- A single character of the expression. -/
def literal (f : Flags) (c : Char) : Regex :=
  if f.ignoreCase ∧ (f.unicode ∨ c.toNat < 0x80) then
    if f.unicode then .chars (.anyCase (.single c))
    else .chars (.unions [.single c.toLower, .single c.toUpper])
  else .chars (.single c)

def dot? (f : Flags) : Option Regex :=
  if !f.unicode then none
  else if f.dotAll then some (.chars .any)
  else if f.crlf then some (.chars (.compl (.unions [.single '\n', .single '\r'])))
  else some (.chars (.compl (.single '\n')))

def lineLook (f : Flags) (isStart : Bool) : Look :=
  match f.multiLine, f.crlf, isStart with
  | false, _, true => .start
  | false, _, false => .finish
  | true, false, true => .lineStart
  | true, false, false => .lineEnd
  | true, true, true => .lineStartCrlf
  | true, true, false => .lineEndCrlf

/-- A character, a dot, a condition or an escape. -/
def primitive (f : Flags) (cs : List Char) : Option (Regex × List Char) :=
  match cs with
  | '\\' :: rest =>
    (escape f rest).bind fun (e, rest) =>
      match e with
      | .set s => some (.chars (f.fold s), rest)
      | .look l => some (.look l, rest)
      | e => (e.char? f).map fun c => (literal f c, rest)
  | '.' :: rest => (dot? f).map fun r => (r, rest)
  | '^' :: rest => some (.look (lineLook f true), rest)
  | '$' :: rest => some (.look (lineLook f false), rest)
  | c :: rest => some (literal f c, rest)
  | [] => none

/-- The flags in front of a colon or a closing parenthesis. -/
def flagLetters : Nat → Flags → Bool → List Char → Bool → List Char → Option (Flags × List Char)
  | 0, _, _, _, _, _ => none
  | fuel + 1, f, negated, seen, dangling, cs =>
    match cs with
    | ':' :: _ | ')' :: _ => if dangling then none else some (f, cs)
    | '-' :: rest => if negated then none else flagLetters fuel f true seen true rest
    | c :: rest =>
      if seen.contains c then none
      else (f.set c !negated).bind fun f => flagLetters fuel f negated (c :: seen) false rest
    | [] => none

def isNameStart (c : Char) : Bool := c = '_' || isWord c && !c.isDigit

def isNameChar (c : Char) : Bool := c = '_' || c = '.' || c = '[' || c = ']' || isWord c

/-- The name of a group up to and including its closing bracket. -/
def groupName (cs : List Char) : Option (String × List Char) :=
  match cs.span (· ≠ '>') with
  | (c :: name, '>' :: rest) =>
    if isNameStart c ∧ name.all isNameChar then some (String.ofList (c :: name), rest) else none
  | _ => none

def isLookAround : List Char → Bool
  | '?' :: '=' :: _ | '?' :: '!' :: _ | '?' :: '<' :: '=' :: _ | '?' :: '<' :: '!' :: _ => true
  | _ => false

/-- A number within 32 bits, with blanks around it. -/
def count (cs : List Char) : Option (Option Nat × List Char) :=
  let (ds, rest) := (cs.dropWhile Text.isBlank).span Char.isDigit
  let rest := rest.dropWhile Text.isBlank
  if ds.isEmpty then some (none, rest)
  else
    let n := ds.foldl (fun n c => n * 10 + (c.toNat - '0'.toNat)) 0
    if n < Nat.pow 2 32 then some (some n, rest) else none

/-- The bounds of a repetition; the opening brace has been read. -/
def bounds (f : Flags) (cs : List Char) : Option (Nat × Option Nat × List Char) :=
  (count (f.skip cs)).bind fun (low, rest) =>
    match low, rest with
    | some low, '}' :: rest => some (low, some low, rest)
    | low, ',' :: rest =>
      match low, f.skip rest with
      | some low, '}' :: rest => some (low, none, rest)
      | none, '}' :: _ => none
      | low, rest =>
        (count rest).bind fun (high, rest) =>
          match low, high, rest with
          | some low, some high, '}' :: rest =>
            if low ≤ high then some (low, some high, rest) else none
          | _, _, _ => none
    | _, _ => none

/-- A part and what was read on the way: flags in force after it. -/
structure Sequence where
  flags : Flags
  /-- The finished alternatives, the latest first. -/
  closed : List Part := []
  /-- The parts of the open alternative, the latest first; nothing for flags that were set. -/
  parts : List (Option Part) := []

namespace Sequence

/-- The parts of the open alternative as one. -/
def concat (s : Sequence) : Part :=
  let parts := s.parts.reverse.filterMap id
  let depth := (parts.map Part.depth).foldl max 0
  { regex := seqs (parts.map Part.regex), depth := if 2 ≤ s.parts.length then depth + 1 else depth }

def push (s : Sequence) (p : Part) : Sequence := { s with parts := some p :: s.parts }

def alternate (s : Sequence) : Sequence := { s with closed := s.concat :: s.closed, parts := [] }

def finish (s : Sequence) : Part :=
  match s.closed with
  | [] => s.concat
  | _ =>
    let parts := (s.concat :: s.closed).reverse
    let depth := (parts.map Part.depth).foldl max 0
    { regex := alts (parts.map Part.regex), depth := depth + 1 }

/-- Repeats the latest part. -/
def repeatLast (s : Sequence) (min : Nat) (max : Option Nat) (greedy : Bool) : Option Sequence :=
  match s.parts with
  | some p :: rest =>
    let r := .repeated p.regex min max (greedy != s.flags.swapGreed)
    some { s with parts := some { regex := r, depth := p.depth + 1 } :: rest }
  | _ => none

end Sequence

/-- Skips the question mark that makes a repetition lazy. -/
def laziness : List Char → Bool × List Char
  | '?' :: rest => (false, rest)
  | cs => (true, cs)

mutual

/-- Everything up to a closing parenthesis or the end, and the group names so far. -/
def sequence : Nat → Sequence → List String → List Char → Option (Part × List String × List Char)
  | 0, _, _, _ => none
  | fuel + 1, s, names, cs =>
    match s.flags.skip cs with
    | [] => some (s.finish, names, [])
    | ')' :: rest => some (s.finish, names, ')' :: rest)
    | '|' :: rest => sequence fuel s.alternate names rest
    | '(' :: rest => group fuel s names (s.flags.skip rest)
    | '[' :: rest =>
      (charClass s.flags (rest.length + 1) rest).bind fun (set, depth, rest) =>
        sequence fuel (s.push { regex := .chars set, depth }) names rest
    | '?' :: rest =>
      let (greedy, rest) := laziness rest
      (s.repeatLast 0 (some 1) greedy).bind fun s => sequence fuel s names rest
    | '*' :: rest =>
      let (greedy, rest) := laziness rest
      (s.repeatLast 0 none greedy).bind fun s => sequence fuel s names rest
    | '+' :: rest =>
      let (greedy, rest) := laziness rest
      (s.repeatLast 1 none greedy).bind fun s => sequence fuel s names rest
    | '{' :: rest =>
      (bounds s.flags rest).bind fun (low, high, rest) =>
        let (greedy, rest) := laziness (s.flags.skip rest)
        (s.repeatLast low high greedy).bind fun s => sequence fuel s names rest
    | cs =>
      (primitive s.flags cs).bind fun (r, rest) => sequence fuel (s.push { regex := r }) names rest

/-- A group; its opening parenthesis has been read. -/
def group : Nat → Sequence → List String → List Char → Option (Part × List String × List Char)
  | 0, _, _, _ => none
  | fuel + 1, s, names, cs =>
    if isLookAround cs then none
    else
      match cs with
      | '?' :: 'P' :: '<' :: rest | '?' :: '<' :: rest =>
        (groupName rest).bind fun (name, rest) =>
          if names.contains name then none else inside fuel s s.flags (name :: names) rest
      | '?' :: rest =>
        (flagLetters (rest.length + 1) s.flags false [] false rest).bind fun (f, rest') =>
          match rest' with
          | ')' :: later =>
            if rest.length = rest'.length then none
            else sequence fuel { s with flags := f, parts := none :: s.parts } names later
          | ':' :: later => inside fuel s f names later
          | _ => none
      | rest => inside fuel s s.flags names rest

/-- The inside of a group under the given flags, and what follows the group. -/
def inside : Nat → Sequence → Flags → List String → List Char →
    Option (Part × List String × List Char)
  | 0, _, _, _, _ => none
  | fuel + 1, s, f, names, cs =>
    (sequence fuel { flags := f } names cs).bind fun (p, names, rest) =>
      match rest with
      | ')' :: rest => sequence fuel (s.push { p with depth := p.depth + 1 }) names rest
      | _ => none

end

/-- The regular expression that the text writes. -/
def parse? (s : String) : Option Regex :=
  let cs := s.toList
  (sequence (3 * cs.length + 1) { flags := {} } [] cs).bind fun (p, _, rest) =>
    if rest.isEmpty ∧ p.depth ≤ maxNesting ∧ assumedSize.Allows p.regex then some p.regex else none

end BmpFeed.Regex
