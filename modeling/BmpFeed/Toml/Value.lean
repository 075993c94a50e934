/-!
# TOML values

A table holds each key once. Tables and arrays can be written in several ways (headers, dotted keys,
inline); a value no longer shows which.
-/

namespace BmpFeed

inductive Toml
  | text (s : String)
  | integer (n : Int)
  /-- A float, as it was written. -/
  | float (written : String)
  | boolean (b : Bool)
  /-- A date, a time or both, in its plain form. -/
  | moment (plain : String)
  | array (items : List Toml)
  | table (entries : List (String × Toml))
  deriving Repr, Inhabited

end BmpFeed
