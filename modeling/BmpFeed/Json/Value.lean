import BmpFeed.Json.Number

/-!
# JSON values

The fields of an object are kept in the order of their names, each name once; `Fields.put` keeps
them so.
-/

namespace BmpFeed

inductive Json
  | null
  | bool (b : Bool)
  | number (n : Json.Number)
  | text (s : String)
  | array (items : List Json)
  | object (fields : List (String × Json))
  deriving Repr, Inhabited

namespace Json

/-- The fields of an object. -/
abbrev Fields := List (String × Json)

namespace Fields

def get? (fields : Fields) (name : String) : Option Json := List.lookup name fields

def has (fields : Fields) (name : String) : Bool := (get? fields name).isSome

/-- Sets a field; it takes its place in the order of names. -/
def put (name : String) (value : Json) : Fields → Fields
  | [] => [(name, value)]
  | (n, v) :: rest =>
    if name = n then (name, value) :: rest
    else if name < n then (name, value) :: (n, v) :: rest
    else (n, v) :: put name value rest

def erase (fields : Fields) (name : String) : Fields := fields.filter fun f => f.1 ≠ name

end Fields

/-- Neither an array nor an object. -/
def isScalar : Json → Bool
  | array _ | object _ => false
  | _ => true

end Json

end BmpFeed
