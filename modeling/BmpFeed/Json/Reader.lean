import BmpFeed.Json.Value

/-!
# Reading JSON

`Json.parse?` reads one value in strict JSON text. The reader is an automaton that takes one
character at a time: what it is in the middle of (`Scan`), what may come next (`Expect`) and the
containers that are still open (`Frame`). At most `maxDepth` containers may be open at once, an
escaped surrogate has to be part of a pair, and the last of several fields of one name counts.
-/

namespace BmpFeed.Json

/-- How many containers may be open at once. -/
def maxDepth : Nat := 127

/-- An open container. -/
inductive Frame
  /-- The items so far, the latest first. -/
  | items (done : List Json)
  /-- The fields so far and the name that waits for its value. -/
  | fields (done : Fields) (name : String)

/-- What may come next outside of a lexeme. -/
inductive Expect
  | value
  /-- A value, or the end of the array that was just opened. -/
  | firstItem
  | name
  /-- A name, or the end of the object that was just opened. -/
  | firstName
  | colon
  /-- A comma or the end of the innermost container; nothing at all outside of containers. -/
  | next

/-- How far a number has been read; digits come latest first. -/
inductive NumberScan
  | sign
  | zero
  | whole (digits : List Nat)
  | point (whole : List Nat)
  | places (whole digits : List Nat)
  | mark (whole : List Nat) (places : Option (List Nat))
  | markSign (whole : List Nat) (places : Option (List Nat)) (minus : Bool)
  | exponent (whole : List Nat) (places : Option (List Nat)) (minus : Bool) (digits : List Nat)

/-- How far an escape in a text has been read. -/
inductive EscapeScan
  | none
  /-- After the backslash; `high` is a first surrogate that waits for its second. -/
  | start (high : Option Nat)
  /-- Inside a code, with the digits read and their value. -/
  | code (high : Option Nat) (count value : Nat)
  /-- After a first surrogate. -/
  | pair (high : Nat)

/-- What the reader is in the middle of. -/
inductive Scan
  | between
  /-- Inside a literal word with these letters to come. -/
  | word (rest : List Char) (value : Json)
  | number (negative : Bool) (scan : NumberScan)
  /-- Inside a text; its characters come latest first. -/
  | text (chars : List Char) (escape : EscapeScan)

structure Reader where
  stack : List Frame := []
  expect : Expect := .value
  scan : Scan := .between
  /-- The value, once it is complete and no container is open. -/
  result : Option Json := none

def digit? (c : Char) : Option Nat :=
  if '0' ≤ c ∧ c ≤ '9' then some (c.toNat - '0'.toNat) else none

def hexDigit? (c : Char) : Option Nat :=
  if '0' ≤ c ∧ c ≤ '9' then some (c.toNat - '0'.toNat)
  else if 'a' ≤ c ∧ c ≤ 'f' then some (c.toNat - 'a'.toNat + 10)
  else if 'A' ≤ c ∧ c ≤ 'F' then some (c.toNat - 'A'.toNat + 10)
  else none

/-- The blanks between lexemes. -/
def isSpace (c : Char) : Bool := c = ' ' || c = '\n' || c = '\t' || c = '\r'

namespace NumberScan

/-- The scan after one more character of the number, if it is one. -/
def step (s : NumberScan) (c : Char) : Option NumberScan :=
  match digit? c, s with
  | some 0, sign => some zero
  | some d, sign => some (whole [d])
  | some _, zero => none
  | some d, whole ds => some (whole (d :: ds))
  | some d, point w => some (places w [d])
  | some d, places w ds => some (places w (d :: ds))
  | some d, mark w p => some (exponent w p false [d])
  | some d, markSign w p m => some (exponent w p m [d])
  | some d, exponent w p m ds => some (exponent w p m (d :: ds))
  | none, zero =>
    if c = '.' then some (point [0])
    else if c = 'e' ∨ c = 'E' then some (mark [0] none) else none
  | none, whole ds =>
    if c = '.' then some (point ds)
    else if c = 'e' ∨ c = 'E' then some (mark ds none) else none
  | none, places w ds => if c = 'e' ∨ c = 'E' then some (mark w (some ds)) else none
  | none, mark w p =>
    if c = '+' then some (markSign w p false)
    else if c = '-' then some (markSign w p true) else none
  | none, _ => none

/-- The number, if it may end here. -/
def finish? (negative : Bool) : NumberScan → Option Number
  | zero => Number.ofParts? negative [0] none none
  | whole ds => Number.ofParts? negative ds.reverse none none
  | places w ds => Number.ofParts? negative w.reverse (some ds.reverse) none
  | exponent w p m ds =>
    Number.ofParts? negative w.reverse (p.map List.reverse) (some (m, ds.reverse))
  | _ => none

end NumberScan

/-- The character that an escape of one letter stands for. -/
def simpleEscape? (c : Char) : Option Char :=
  [('"', '"'), ('\\', '\\'), ('/', '/'), ('b', '\x08'), ('f', '\x0c'), ('n', '\n'), ('r', '\r'),
   ('t', '\t')].lookup c

def isHighSurrogate (n : Nat) : Bool := 0xD800 ≤ n && n ≤ 0xDBFF

def isLowSurrogate (n : Nat) : Bool := 0xDC00 ≤ n && n ≤ 0xDFFF

/-- The text scan after the complete code `n`. -/
def finishCode (chars : List Char) (high : Option Nat) (n : Nat) : Option Scan :=
  match high with
  | some h =>
    if isLowSurrogate n then
      some (.text (Char.ofNat (0x10000 + (h - 0xD800) * 0x400 + (n - 0xDC00)) :: chars) .none)
    else none
  | none =>
    if isHighSurrogate n then some (.text chars (.pair n))
    else if isLowSurrogate n then none
    else some (.text (Char.ofNat n :: chars) .none)

/-- The text scan after one more character that does not end the text. -/
def stepText (chars : List Char) (e : EscapeScan) (c : Char) : Option Scan :=
  match e with
  | .none =>
    if c = '\\' then some (.text chars (.start none))
    else if c.toNat < 0x20 then none
    else some (.text (c :: chars) .none)
  | .pair h => if c = '\\' then some (.text chars (.start (some h))) else none
  | .start high =>
    if c = 'u' then some (.text chars (.code high 0 0))
    else match high with
      | some _ => none
      | none => (simpleEscape? c).map fun d => .text (d :: chars) .none
  | .code high count value =>
    (hexDigit? c).bind fun d =>
      let value := value * 16 + d
      if count = 3 then finishCode chars high value
      else some (.text chars (.code high (count + 1) value))

namespace Reader

/-- A complete value goes to the innermost container, or is the result. -/
def accept (r : Reader) (v : Json) : Reader :=
  match r.stack with
  | [] => { r with expect := .next, scan := .between, result := some v }
  | .items done :: rest =>
    { r with stack := .items (v :: done) :: rest, expect := .next, scan := .between }
  | .fields done name :: rest =>
    { r with stack := .fields (Fields.put name v done) name :: rest, expect := .next,
             scan := .between }

/-- Opens a container, unless too many are open. -/
def opening (r : Reader) (f : Frame) (e : Expect) : Option Reader :=
  if r.stack.length < maxDepth then some { r with stack := f :: r.stack, expect := e } else none

/-- Closes the innermost container. -/
def close (r : Reader) (c : Char) : Option Reader :=
  match r.stack with
  | .items done :: rest =>
    if c = ']' then some ({ r with stack := rest }.accept (.array done.reverse)) else none
  | .fields done _ :: rest =>
    if c = '}' then some ({ r with stack := rest }.accept (.object done)) else none
  | [] => none

/-- A value begins with `c`. -/
def beginValue (r : Reader) (c : Char) : Option Reader :=
  if c = '[' then r.opening (.items []) .firstItem
  else if c = '{' then r.opening (.fields [] "") .firstName
  else if c = '"' then some { r with scan := .text [] .none }
  else if c = 'n' then some { r with scan := .word ['u', 'l', 'l'] .null }
  else if c = 't' then some { r with scan := .word ['r', 'u', 'e'] (.bool true) }
  else if c = 'f' then some { r with scan := .word ['a', 'l', 's', 'e'] (.bool false) }
  else if c = '-' then some { r with scan := .number true .sign }
  else (NumberScan.sign.step c).map fun n => { r with scan := .number false n }

/-- The text that just ended is a name or a value. -/
def acceptText (r : Reader) (s : String) : Option Reader :=
  match r.expect, r.stack with
  | .name, .fields done _ :: rest | .firstName, .fields done _ :: rest =>
    some { r with stack := .fields done s :: rest, expect := .colon, scan := .between }
  | .value, _ | .firstItem, _ => some (r.accept (.text s))
  | _, _ => none

/-- A character between lexemes. -/
def stepBetween (r : Reader) (c : Char) : Option Reader :=
  if isSpace c then some r
  else match r.expect with
    | .value => r.beginValue c
    | .firstItem => if c = ']' then r.close c else r.beginValue c
    | .name => if c = '"' then some { r with scan := .text [] .none } else none
    | .firstName =>
      if c = '}' then r.close c
      else if c = '"' then some { r with scan := .text [] .none } else none
    | .colon => if c = ':' then some { r with expect := .value } else none
    | .next =>
      if c = ',' then
        match r.stack with
        | .items _ :: _ => some { r with expect := .value }
        | .fields _ _ :: _ => some { r with expect := .name }
        | [] => none
      else r.close c

/-- The reader after one more character. -/
def step (r : Reader) (c : Char) : Option Reader :=
  match r.scan with
  | .between => r.stepBetween c
  | .word [] _ => none
  | .word (x :: xs) v =>
    if c = x then
      match xs with
      | [] => some (r.accept v)
      | _ => some { r with scan := .word xs v }
    else none
  | .number negative n =>
    match n.step c with
    | some n => some { r with scan := .number negative n }
    | none => (n.finish? negative).bind fun v => (r.accept (.number v)).stepBetween c
  | .text chars .none =>
    if c = '"' then r.acceptText (String.ofList chars.reverse)
    else (stepText chars .none c).map fun s => { r with scan := s }
  | .text chars e => (stepText chars e c).map fun s => { r with scan := s }

/-- The value, if the text may end here. -/
def finish (r : Reader) : Option Json :=
  match r.scan with
  | .between => r.result
  | .number negative n =>
    (n.finish? negative).bind fun v => (r.accept (.number v)).result
  | _ => none

end Reader

/-- The value of a JSON text. -/
def parse? (s : String) : Option Json :=
  (s.toList.foldlM Reader.step {}).bind Reader.finish

end BmpFeed.Json
