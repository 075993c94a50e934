import BmpFeed.Store.Fault

/-!
# The store

A store in memory. It keeps what its sessions ran, and a script of what goes wrong: faults that the
next statements meet, and a number of attempts to connect that it refuses.
-/

namespace BmpFeed

/-- One row of a query result. -/
abbrev Row := List (String × String)

namespace Store

/-- A statement that was run, and the session that ran it. -/
structure Execution where
  session : Nat
  sql : String
  deriving DecidableEq, Repr, Inhabited

end Store

structure Store where
  /-- The statements that were run, in their order. -/
  executed : List Store.Execution := []
  /-- The queries that were answered, in their order. -/
  selects : List String := []
  /-- The answer to every query. -/
  rows : List Row := []
  /-- The faults that the next statements meet, in order. -/
  faults : List Store.Fault := []
  /-- How many of the next attempts to connect are refused. -/
  refusals : Nat := 0
  /-- How often a session was connected. -/
  connects : Nat := 0
  /-- Milliseconds until a statement is run. -/
  latency : Nat := 0
  /-- How many sessions were opened. -/
  opened : Nat := 0
  /-- A statement with this text in it ends the process that runs it. -/
  fatal : Option String := none
  deriving Repr, Inhabited

namespace Store

/-- Opens a session; sessions are numbered from one. -/
def takeNumber (t : Store) : Nat × Store := (t.opened + 1, { t with opened := t.opened + 1 })

def isFatal (t : Store) (sql : String) : Bool := t.fatal.any (Text.contains sql)

/-- Whether an attempt to connect succeeds, and the store after it. -/
def link (t : Store) : Bool × Store :=
  if t.refusals = 0 then (true, { t with connects := t.connects + 1 })
  else (false, { t with refusals := t.refusals - 1 })

/-- Runs a statement of a connected session, unless a scripted fault is due. -/
def run (t : Store) (session : Nat) (sql : String) : Option Fault × Store :=
  match t.faults with
  | f :: rest => (some f, { t with faults := rest })
  | [] => (none, { t with executed := t.executed ++ [⟨session, sql⟩] })

/-- Answers a query of a connected session. -/
def select (t : Store) (sql : String) : List Row × Store :=
  (t.rows, { t with selects := t.selects ++ [sql] })

end Store

end BmpFeed
