/-!
# Cutting texts

Splitting a text at the first or the last place where a separator stands, and searching it for a
smaller text.
-/

namespace BmpFeed.Text

/-- What stands before and after the first occurrence of `sep`. -/
def cutFirst? (sep : List Char) : List Char → Option (List Char × List Char)
  | [] => if sep = [] then some ([], []) else none
  | c :: cs =>
    if sep.isPrefixOf (c :: cs) then some ([], (c :: cs).drop sep.length)
    else (cutFirst? sep cs).map fun h => (c :: h.1, h.2)

/-- The text cut at the first occurrence of `sep`. -/
def splitFirst? (s sep : String) : Option (String × String) :=
  (cutFirst? sep.toList s.toList).map fun h => (String.ofList h.1, String.ofList h.2)

/-- The text cut at the last occurrence of the character `c`. -/
def splitLast? (s : String) (c : Char) : Option (String × String) :=
  (cutFirst? [c] s.toList.reverse).map fun h =>
    (String.ofList h.2.reverse, String.ofList h.1.reverse)

/-- `part` stands somewhere in the text. -/
def contains (s part : String) : Bool := (cutFirst? part.toList s.toList).isSome

/-- The rest of the text after a leading `front`. -/
def dropPrefix? (s front : String) : Option String :=
  if front.toList.isPrefixOf s.toList then
    some (String.ofList (s.toList.drop front.toList.length))
  else none

end BmpFeed.Text
