import BmpFeed.Regex.Parser

/-!
# Topic patterns

A pattern keeps the text it was written as beside the regular expression the text means. It matches
a topic when the preferred match that begins with the topic spans it: `a|ab` does not match `ab`,
because its left side is preferred and ends too soon.
-/

namespace BmpFeed.Feed

structure Pattern where
  text : String
  regex : Regex
  deriving DecidableEq, Repr

namespace Pattern

def ofText? (s : String) : Option Pattern := (Regex.parse? s).map fun r => ⟨s, r⟩

def accepts (p : Pattern) (topic : String) : Bool := p.regex.spans topic

theorem text_ofText? {s : String} {p : Pattern} (h : ofText? s = some p) : p.text = s := by
  obtain ⟨r, _, rfl⟩ := Option.map_eq_some_iff.1 h
  rfl

end Pattern

end BmpFeed.Feed
