import BmpFeed.Log.Line
import BmpFeed.Settings.Number
import BmpFeed.Text.Blank
import BmpFeed.Text.Case
import BmpFeed.Text.Category

/-!
# Log filters

A filter is a list of directives, separated by commas: a level, a target, or a target with a level.
A line is shown when the most specific directive for its target lets its level through: the one with
the longest target, and among those the last. Directives that name a span, or fields, concern lines
inside of spans or with those fields.
-/

namespace BmpFeed.Log

/-- The lines that are let through: those of this level and of the more severe ones. -/
inductive Threshold
  | off
  | upTo (level : Level)
  deriving DecidableEq, Repr, Inhabited

namespace Threshold

/-- The number that stands for a threshold. -/
def all : List Threshold := [off, upTo .error, upTo .warn, upTo .info, upTo .debug, upTo .trace]

def name : Threshold → String
  | off => "OFF"
  | upTo l => l.name

def shows (t : Threshold) (l : Level) : Bool :=
  match t with
  | off => false
  | upTo least => least.rank ≤ l.rank

/-- Reads a number or a name in any letter case. -/
def ofText? (s : String) : Option Threshold :=
  match Settings.number? (Nat.pow 2 64 - 1) s with
  | some n => all[n]?
  | none =>
    if s.isEmpty then some (upTo .error)
    else all.find? fun t => Text.equalsIgnoringCase t.name s

end Threshold

structure Directive where
  threshold : Threshold
  /-- What the targets it is about begin with. -/
  target : Option String := none
  /-- It is about spans, or about values of fields. -/
  isDynamic : Bool := false
  /-- The fields a line must have. -/
  fields : List String := []
  deriving DecidableEq, Repr, Inhabited

namespace Directive

/-- Characters that can begin a directive. -/
def isStart (c : Char) : Bool :=
  c = '-' || c = ':' || c = '_' || (Text.GeneralCategory.of c).isLetter ||
    match Text.GeneralCategory.of c with
    | .decimalNumber | .letterNumber | .otherNumber => true
    | _ => false

/-- The threshold after an equals sign; nothing stands for everything. -/
def level? (cs : List Char) : Option Threshold :=
  if cs.isEmpty then some (.upTo .trace) else Threshold.ofText? (String.ofList cs)

/-- What may follow the brackets of a span. -/
def afterSpan? (d : Directive) : List Char → Option Directive
  | [] => some d
  | '=' :: cs => (level? cs).map fun threshold => { d with threshold }
  | _ => none

/-- The fields up to a closing brace. -/
def fields? (d : Directive) : Nat → List Char → Option Directive
  | 0, _ => none
  | fuel + 1, cs =>
    let (field, rest) := cs.span fun c => c ≠ ',' && c ≠ '\x7d'
    let (name, value) := field.span (· ≠ '=')
    let d : Directive :=
      { d with
        fields := d.fields ++ [String.ofList name], isDynamic := d.isDynamic || !value.isEmpty }
    match field, rest with
    | _ :: _, ',' :: rest => fields? d fuel rest
    | _ :: _, '\x7d' :: ']' :: rest => d.afterSpan? rest
    | _, _ => none

/-- A span after its opening bracket. -/
def span? (d : Directive) (cs : List Char) : Option Directive :=
  match cs.span fun c => c ≠ ']' && c ≠ '\x7b' with
  | (_, ']' :: rest) => { d with isDynamic := true }.afterSpan? rest
  | (name, '\x7b' :: rest) =>
    { d with isDynamic := !name.isEmpty }.fields? (rest.length + 1) rest
  | _ => none

/-- Reads a directive. Blanks in front are looked past to find where its target ends, but they are
counted as part of it. -/
def ofText? (s : String) : Option Directive :=
  let cs := s.toList
  match (cs.dropWhile Text.isBlank).span fun c => c ≠ '=' && c ≠ '[' with
  | ([], '[' :: _) => span? { threshold := .upTo .trace } (cs.drop 1)
  | ([], _) => none
  | (c :: front, rest) =>
    let target := String.ofList (cs.take (front.length + 1))
    if !isStart c then none
    else
      match rest with
      | '=' :: _ => (level? (cs.drop (front.length + 2))).map fun threshold =>
          { threshold, target := some target }
      | '[' :: _ =>
        span? { threshold := .upTo .trace, target := some target } (cs.drop (front.length + 2))
      | _ =>
        match Threshold.ofText? s with
        | some threshold => some { threshold }
        | none => some { threshold := .upTo .trace, target := some s }

/-- The directive is about lines of the target that have just a message. -/
def isAbout (d : Directive) (target : String) : Bool :=
  !d.isDynamic && (d.target.all fun t => t.toList.isPrefixOf target.toList) &&
    d.fields.all (· == "message")

/-- How specific a directive is: the length of its target, and the number of its fields. -/
def rank (d : Directive) : Nat × Nat :=
  ((d.target.map fun t => t.utf8ByteSize + 1).getD 0, d.fields.length)

/-- The one directive is at least as specific as the other. -/
def covers (d e : Directive) : Bool :=
  e.rank.1 < d.rank.1 || (e.rank.1 == d.rank.1 && e.rank.2 ≤ d.rank.2)

end Directive

abbrev Filter := List Directive

namespace Filter

/-- The directives as they are written; empty ones do not count. -/
def parts (s : String) : List String := ((s.split (· == ',')).toList.map toString).filter (· ≠ "")

/-- Reads a filter in which every directive is well formed. A filter without any shows nothing. -/
def ofText? (s : String) : Option Filter := (parts s).mapM Directive.ofText?

/-- Reads a filter without the directives that are not well formed. A filter without any shows
errors. The second result says whether some were left out. -/
def ofTextLossy (s : String) : Filter × Bool :=
  let ds := (parts s).filterMap Directive.ofText?
  (if ds.isEmpty then [{ threshold := .upTo .error }] else ds,
    (parts s).any fun p => (Directive.ofText? p).isNone)

/-- The most specific of some directives; of two that are equally specific, the later. -/
def strongest? (ds : List Directive) : Option Directive :=
  ds.foldl (fun best d => if best.all d.covers then some d else best) none

/-- The filter lets lines of the target and the level through. -/
def shows (f : Filter) (target : String) (l : Level) : Bool :=
  (strongest? (f.filter fun d => d.isAbout target)).any fun d => d.threshold.shows l

end Filter

end BmpFeed.Log
