import BmpFeed.Decimal.Binary64

/-!
# TOML lexemes

Keys, quoted texts, numbers and moments of TOML 1.0. Every reader takes the characters that are left
and returns what it read with the rest, or nothing when the text does not begin so.
-/

namespace BmpFeed.Toml.Lexeme

/-- Reads something from the front of the characters. -/
abbrev Reader (α : Type) := List Char → Option (α × List Char)

def isBlank (c : Char) : Bool := c = ' ' || c = '\t'

def skipBlanks (cs : List Char) : List Char := cs.dropWhile isBlank

/-- A character that may stand in comments and literal texts. -/
def isPrintable (c : Char) : Bool := c = '\t' || (0x20 ≤ c.toNat && c.toNat ≠ 0x7F)

/-- What is left of the line end, which is a line feed with or without a carriage return. -/
def newline? : List Char → Option (List Char)
  | '\n' :: cs => some cs
  | '\r' :: '\n' :: cs => some cs
  | _ => none

/-- Skips a comment, if one begins here. -/
def skipComment : List Char → List Char
  | '#' :: cs => cs.dropWhile isPrintable
  | cs => cs

def isDigit (c : Char) : Bool := '0' ≤ c && c ≤ '9'

def digitValue (c : Char) : Nat :=
  if c ≤ '9' then c.toNat - '0'.toNat else c.toLower.toNat - 'a'.toNat + 10

def isHexDigit (c : Char) : Bool := isDigit c || ('a' ≤ c.toLower && c.toLower ≤ 'f')

/-- The number that digits write in a base. -/
def valueOf (base : Nat) (digits : List Char) : Nat :=
  digits.foldl (fun n c => n * base + digitValue c) 0

/-- The character with this code, unless the code is that of a surrogate or too large. -/
def scalar? (n : Nat) : Option Char :=
  if n < 0xD800 ∨ (0xDFFF < n ∧ n < 0x110000) then some (Char.ofNat n) else none

/-- The character of a code with exactly `count` digits. -/
def code (count : Nat) : Reader Char := fun cs =>
  let digits := cs.take count
  if digits.length = count ∧ digits.all isHexDigit then
    (scalar? (valueOf 16 digits)).map fun c => (c, cs.drop count)
  else none

/-- The character that an escape stands for; the backslash has been read. -/
def escape : Reader Char
  | 'b' :: cs => some ('\x08', cs)
  | 't' :: cs => some ('\t', cs)
  | 'n' :: cs => some ('\n', cs)
  | 'f' :: cs => some ('\x0c', cs)
  | 'r' :: cs => some ('\r', cs)
  | '"' :: cs => some ('"', cs)
  | '\\' :: cs => some ('\\', cs)
  | 'u' :: cs => code 4 cs
  | 'U' :: cs => code 8 cs
  | _ => none

/-- The inside of a text in double quotes, up to and including the closing quote. -/
def basicBody : Nat → List Char → Reader String
  | 0, _, _ => none
  | fuel + 1, done, cs =>
    match cs with
    | '"' :: cs => some (String.ofList done.reverse, cs)
    | '\\' :: cs => (escape cs).bind fun (c, cs) => basicBody fuel (c :: done) cs
    | c :: cs => if isPrintable c then basicBody fuel (c :: done) cs else none
    | [] => none

/-- The inside of a text in single quotes, up to and including the closing quote. -/
def literalBody (cs : List Char) : Option (String × List Char) :=
  match cs.span fun c => isPrintable c && c ≠ '\'' with
  | (body, '\'' :: rest) => some (String.ofList body, rest)
  | _ => none

/-- What follows a backslash at the end of a line: all blanks and line ends after it. -/
def skipFold? (cs : List Char) : Option (List Char) :=
  (newline? (skipBlanks cs)).map fun cs => go cs.length cs
where
  go : Nat → List Char → List Char
  | 0, cs => cs
  | fuel + 1, cs =>
    match newline? (skipBlanks cs) with
    | some rest => go fuel rest
    | none => skipBlanks cs

/-- Three quotes close a text of several lines; up to two more before them belong to the text. -/
def closing? (q : Char) (cs : List Char) : Option (List Char × List Char) :=
  let quotes := cs.takeWhile (· = q)
  if 3 ≤ quotes.length ∧ quotes.length ≤ 5 then
    some (quotes.drop 3, cs.drop quotes.length)
  else if 5 < quotes.length then some (List.replicate 2 q, cs.drop 5)
  else none

/-- The inside of a text of several lines in double quotes. -/
def basicLines : Nat → List Char → Reader String
  | 0, _, _ => none
  | fuel + 1, done, cs =>
    match closing? '"' cs with
    | some (more, rest) => some (String.ofList (done.reverse ++ more), rest)
    | none =>
      match newline? cs with
      | some rest => basicLines fuel ('\n' :: done) rest
      | none =>
        match cs with
        | '\\' :: cs =>
          match skipFold? cs with
          | some rest => basicLines fuel done rest
          | none => (escape cs).bind fun (c, cs) => basicLines fuel (c :: done) cs
        | c :: cs => if isPrintable c then basicLines fuel (c :: done) cs else none
        | [] => none

/-- The inside of a text of several lines in single quotes. -/
def literalLines : Nat → List Char → Reader String
  | 0, _, _ => none
  | fuel + 1, done, cs =>
    match closing? '\'' cs with
    | some (more, rest) => some (String.ofList (done.reverse ++ more), rest)
    | none =>
      match newline? cs with
      | some rest => literalLines fuel ('\n' :: done) rest
      | none =>
        match cs with
        | c :: cs => if isPrintable c then literalLines fuel (c :: done) cs else none
        | [] => none

/-- Drops the line end right after the quotes that open a text of several lines. -/
def dropFirstNewline (cs : List Char) : List Char := (newline? cs).getD cs

/-- A quoted text on one line. -/
def quoted : Reader String
  | '"' :: cs => basicBody (cs.length + 1) [] cs
  | '\'' :: cs => literalBody cs
  | _ => none

/-- A quoted text on one line or on several. -/
def readText : Reader String
  | '"' :: '"' :: '"' :: cs => basicLines (cs.length + 1) [] (dropFirstNewline cs)
  | '\'' :: '\'' :: '\'' :: cs => literalLines (cs.length + 1) [] (dropFirstNewline cs)
  | cs => quoted cs

def isBareKey (c : Char) : Bool := c.isAlphanum || c = '_' || c = '-'

/-- One part of a key. -/
def keyPart (cs : List Char) : Option (String × List Char) :=
  match cs with
  | '"' :: _ | '\'' :: _ => quoted cs
  | _ =>
    match cs.span isBareKey with
    | ([], _) => none
    | (part, rest) => some (String.ofList part, rest)

/-- How many parts a key may have, and how deep values may nest. -/
def maxParts : Nat := 79

/-- The parts of a key with dots between them, and blanks around the dots. -/
def key (cs : List Char) : Option (List String × List Char) :=
  (go cs.length cs).bind fun (parts, rest) =>
    if parts.length ≤ maxParts then some (parts, rest) else none
where
  go : Nat → Reader (List String)
  | 0, _ => none
  | fuel + 1, cs =>
    (keyPart (skipBlanks cs)).bind fun (part, rest) =>
      match skipBlanks rest with
      | '.' :: rest => (go fuel rest).map fun (parts, rest) => (part :: parts, rest)
      | rest => some ([part], rest)

/-- Digits with single underscores between them. -/
def digits (isDigit : Char → Bool) (cs : List Char) : Option (List Char × List Char) :=
  match cs with
  | c :: rest =>
    if isDigit c then
      let (more, rest) := go isDigit rest
      some (c :: more, rest)
    else none
  | [] => none
where
  go (isDigit : Char → Bool) : List Char → List Char × List Char
  | '_' :: c :: cs =>
    if isDigit c then let (more, rest) := go isDigit cs; (c :: more, rest) else ([], '_' :: c :: cs)
  | c :: cs =>
    if isDigit c then let (more, rest) := go isDigit cs; (c :: more, rest) else ([], c :: cs)
  | [] => ([], [])

/-- A sign, if there is one: whether it is a minus. -/
def sign : List Char → Bool × List Char
  | '-' :: cs => (true, cs)
  | '+' :: cs => (false, cs)
  | cs => (false, cs)

/-- Decimal digits without a zero in front of others. -/
def whole (cs : List Char) : Option (List Char × List Char) :=
  match digits isDigit cs with
  | some (['0'], rest) => some (['0'], rest)
  | some ('0' :: _, _) => none
  | r => r

/-- An integer within 64 bits. -/
def signed? (minus : Bool) (n : Nat) : Option Int :=
  if minus then if n ≤ Nat.pow 2 63 then some (-n) else none
  else if n < Nat.pow 2 63 then some n else none

def radix (base : Nat) (isDigit : Char → Bool) (cs : List Char) : Option (Int × List Char) :=
  (digits isDigit cs).bind fun (ds, rest) =>
    (signed? false (valueOf base ds)).map fun n => (n, rest)

def readInteger : Reader Int
  | '0' :: 'x' :: cs => radix 16 isHexDigit cs
  | '0' :: 'o' :: cs => radix 8 (fun c => '0' ≤ c && c ≤ '7') cs
  | '0' :: 'b' :: cs => radix 2 (fun c => c = '0' || c = '1') cs
  | cs =>
    let (minus, cs) := sign cs
    (whole cs).bind fun (ds, rest) => (signed? minus (valueOf 10 ds)).map fun n => (n, rest)

/-- The digits after a point. -/
def places : List Char → Option (List Char × List Char)
  | '.' :: cs => digits isDigit cs
  | _ => none

/-- The power of ten after an `e`: its sign and digits. -/
def power : List Char → Option ((Bool × List Char) × List Char)
  | c :: cs =>
    if c = 'e' ∨ c = 'E' then
      let (minus, cs) := sign cs
      (digits isDigit cs).map fun (ds, rest) => ((minus, ds), rest)
    else none
  | [] => none

/-- The positive number is too large for a double. -/
def overflows (whole places : List Char) (power : Option (Bool × List Char)) : Bool :=
  let n := valueOf 10 (whole ++ places)
  let e : Int := match power with
    | some (minus, ds) => if minus then -(valueOf 10 ds : Int) else valueOf 10 ds
    | none => 0
  let top := e - places.length + (Nat.toDigits 10 n).length
  if n = 0 ∨ top ≤ 300 then false
  else if 400 < top then true
  else
    let shift := e - places.length
    (Binary64.ofRatio? false (n * Nat.pow 10 shift.toNat) (Nat.pow 10 (-shift).toNat)).isNone

/-- A float with a point or a power of ten. -/
def readDecimal (cs : List Char) : Option (Unit × List Char) :=
  let (minus, cs) := sign cs
  (whole cs).bind fun (w, rest) =>
    match places rest, power rest with
    | some (p, rest), _ =>
      match power rest with
      | some (e, rest) => if !minus && overflows w p (some e) then none else some ((), rest)
      | none =>
        match rest with
        | 'e' :: _ | 'E' :: _ => none
        | _ => if !minus && overflows w p none then none else some ((), rest)
    | none, some (e, rest) => if !minus && overflows w [] (some e) then none else some ((), rest)
    | none, none => none

/-- `inf` or `nan` with or without a sign. -/
def readSpecial (cs : List Char) : Option (Unit × List Char) :=
  match (sign cs).2 with
  | 'i' :: 'n' :: 'f' :: rest | 'n' :: 'a' :: 'n' :: rest => some ((), rest)
  | _ => none

/-- A number of exactly `count` digits between two bounds. -/
def field (count low high : Nat) : Reader Nat := fun cs =>
  let ds := cs.take count
  let n := valueOf 10 ds
  if ds.length = count ∧ ds.all isDigit ∧ low ≤ n ∧ n ≤ high then some (n, cs.drop count) else none

def expect (c : Char) : Reader Unit
  | d :: cs => if d = c then some ((), cs) else none
  | [] => none

def isLeapYear (year : Nat) : Bool := (year % 4 = 0 && year % 100 ≠ 0) || year % 400 = 0

def daysIn (year month : Nat) : Nat :=
  if month = 2 then if isLeapYear year then 29 else 28
  else if month ∈ [4, 6, 9, 11] then 30 else 31

def date : Reader Unit := fun cs => do
  let (year, cs) ← field 4 0 9999 cs
  let (_, cs) ← expect '-' cs
  let (month, cs) ← field 2 1 12 cs
  let (_, cs) ← expect '-' cs
  let (_, cs) ← field 2 1 (daysIn year month) cs
  some ((), cs)

def clock : Reader Unit := fun cs => do
  let (_, cs) ← field 2 0 23 cs
  let (_, cs) ← expect ':' cs
  let (_, cs) ← field 2 0 59 cs
  let (_, cs) ← expect ':' cs
  let (_, cs) ← field 2 0 60 cs
  match cs with
  | '.' :: rest =>
    match rest.span isDigit with
    | ([], _) => none
    | (_, rest) => some ((), rest)
  | _ => some ((), cs)

/-- The distance from universal time. -/
def offset : Reader Unit
  | 'Z' :: cs | 'z' :: cs => some ((), cs)
  | c :: cs =>
    if c = '+' ∨ c = '-' then do
      let (_, cs) ← field 2 0 23 cs
      let (_, cs) ← expect ':' cs
      let (_, cs) ← field 2 0 59 cs
      some ((), cs)
    else none
  | [] => none

/-- A date, a date with a time, or a time. -/
def readMoment (cs : List Char) : Option (Unit × List Char) :=
  match date cs with
  | none => clock cs
  | some (_, rest) =>
    match rest with
    | c :: later =>
      if c = 'T' ∨ c = 't' ∨ c = ' ' then
        match clock later with
        | some (_, rest) => some ((), ((offset rest).map Prod.snd).getD rest)
        | none => some ((), rest)
      else some ((), rest)
    | [] => some ((), rest)

/-- A fraction of a second to nine places, without the zeros at its end. -/
def plainFraction (ds : List Char) : List Char :=
  match ((ds.take 9).reverse.dropWhile (· = '0')).reverse with
  | [] => []
  | ds => '.' :: ds

/-- The moment in its plain form: capital letters, `T` between date and time, no needless places,
and no minus before an offset of zero. -/
def plainMoment (cs : List Char) : String :=
  let cs := cs.map fun c => if c = ' ' then 'T' else c.toUpper
  let cs := match cs.span (· ≠ '.') with
    | (front, _ :: rest) =>
      front ++ plainFraction (rest.takeWhile isDigit) ++ rest.dropWhile isDigit
    | (front, []) => front
  let zero := ['-', '0', '0', ':', '0', '0']
  String.ofList
    (if zero.isSuffixOf cs then cs.take (cs.length - zero.length) ++ '+' :: zero.drop 1 else cs)

end BmpFeed.Toml.Lexeme
