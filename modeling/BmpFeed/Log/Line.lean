/-!
# Log lines

A log line is a level, a message and named fields. It is written `LEVEL message name=value …`.
-/

namespace BmpFeed.Log

inductive Level
  | trace
  | debug
  | info
  | warn
  | error
  deriving DecidableEq, Repr, Inhabited

namespace Level

def name : Level → String
  | trace => "TRACE"
  | debug => "DEBUG"
  | info => "INFO"
  | warn => "WARN"
  | error => "ERROR"

/-- How severe a level is. -/
def rank : Level → Nat
  | trace => 1
  | debug => 2
  | info => 3
  | warn => 4
  | error => 5

end Level

structure Line where
  level : Level
  message : String
  fields : List (String × String) := []
  deriving DecidableEq, Repr, Inhabited

namespace Line

def render (l : Line) : String :=
  l.fields.foldl (fun s f => s ++ " " ++ f.1 ++ "=" ++ f.2) (l.level.name ++ " " ++ l.message)

end Line

end BmpFeed.Log
