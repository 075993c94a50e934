import BmpFeed.Feed.Payload

/-!
# SQL literals

A text literal stands between single quotes, with every quote inside written twice. Arrays and
objects are written as literals of their JSON text, all other values as they are printed.
-/

namespace BmpFeed.Sql

/-- The inside of a literal: a quote is written twice and all else once. -/
def doubleQuotes : List Char → List Char
  | [] => []
  | c :: cs => if c = '\'' then '\'' :: '\'' :: doubleQuotes cs else c :: doubleQuotes cs

def quote (text : String) : String :=
  String.ofList ('\'' :: doubleQuotes text.toList ++ ['\''])

/-- A field as it stands in a values list. -/
def literal : Option Json → String
  | none | some .null => "null"
  | some (.bool true) => "true"
  | some (.bool false) => "false"
  | some (.number n) => n.render
  | some (.text s) => quote s
  | some v => quote v.render

end BmpFeed.Sql
