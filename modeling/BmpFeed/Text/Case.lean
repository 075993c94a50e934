/-!
# Case-blind comparison

`Text.equalsIgnoringCase` compares two texts up to the case of the 26 ASCII letters; every other
character has to agree exactly.
-/

namespace BmpFeed.Text

/-- The texts agree once the ASCII letters of both are lowered. -/
def equalsIgnoringCase (s t : String) : Bool :=
  s.toList.map Char.toLower == t.toList.map Char.toLower

end BmpFeed.Text
