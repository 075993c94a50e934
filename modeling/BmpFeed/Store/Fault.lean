import BmpFeed.Text.Cut

/-!
# Storage faults

What can go wrong with a statement, in the three classes that are answered differently: a lost
connection is opened again, a deadlock is waited out, anything else only costs an attempt.
-/

namespace BmpFeed.Store

inductive Fault
  /-- The connection is lost or could not be opened. -/
  | connection (reason : String)
  /-- The transaction was ended by deadlock detection. -/
  | deadlock (reason : String)
  /-- Any other failure, with the code the store gave for it, if any. -/
  | statement (code : Option String) (reason : String)
  deriving DecidableEq, Repr, Inhabited

namespace Fault

/-- The code of a deadlock. -/
def deadlockCode : String := "40P01"

/-- The code of a syntax error. -/
def syntaxErrorCode : String := "42601"

/-- Classifies the store's own report. -/
def classify (code : Option String) (report : String) : Fault :=
  if code = some deadlockCode ∨ Text.contains report "deadlock" then .deadlock report
  else if Text.contains report "connection" ∨ Text.contains report "Broken pipe" then
    .connection report
  else .statement code report

def isConnection : Fault → Bool
  | connection _ => true
  | _ => false

def isDeadlock : Fault → Bool
  | deadlock _ => true
  | _ => false

def code? : Fault → Option String
  | statement code _ => code
  | deadlock _ => some deadlockCode
  | connection _ => none

def message : Fault → String
  | connection reason => "connection error: " ++ reason
  | deadlock reason => "deadlock detected: " ++ reason
  | statement code reason => "statement failed (" ++ code.getD "-" ++ "): " ++ reason

/-- What a connection that was never opened, or was lost, answers. -/
def noConnection : Fault := .connection "no connection to the server"

/-- What a refused attempt to connect answers. -/
def refused : Fault := .connection "connection refused"

/-- What an attempt to connect through a missing socket answers. -/
def noSocket : Fault :=
  .connection "error communicating with database: No such file or directory (os error 2)"

end Fault

end BmpFeed.Store
