import BmpFeed.Store.Session
import BmpFeed.Writer.Policy

/-!
# Queries

The attempts at one statement, as a machine that can wait. A session that is not connected first
makes one attempt to connect. A lost connection is opened again, however long that takes, and a
deadlock is waited out; either costs the attempt that failed, like any other fault. `Query.step?` is
one step of the machine, or nothing while it waits or when it has finished.
-/

namespace BmpFeed.Store

/-- Where a query stands. -/
inductive Query.Stage
  /-- The session is made sure to be connected, if that is possible. -/
  | opening
  /-- The next attempt is due. -/
  | ready
  /-- The store runs the statement until the given time. -/
  | executing (until_ : Nat)
  /-- The connection was lost and is to be opened again. -/
  | linking
  /-- The store refused a connection; the next attempt to connect is at the given time. -/
  | pausing (until_ : Nat)
  /-- A deadlock is waited out. -/
  | resting (until_ : Nat)
  | finished (ok : Bool)
  /-- The statement ended the process that ran it. -/
  | crashed
  deriving DecidableEq, Repr, Inhabited

structure Query where
  sql : String
  /-- How often the statement is tried. -/
  retries : Nat
  /-- The attempts that have failed. -/
  attempt : Nat := 0
  stage : Query.Stage := .opening
  deriving DecidableEq, Repr, Inhabited

namespace Query

/-- The time the query waits for. -/
def wake? (q : Query) : Option Nat :=
  match q.stage with
  | .executing t | .pausing t | .resting t => some t
  | _ => none

/-- Counts the attempt as failed and goes on with the given stage. -/
def retry (q : Query) (stage : Stage) : Query := { q with attempt := q.attempt + 1, stage }

/-- What a fault leads to. -/
def onFault (pauses : Writer.Pauses) (now : Nat) (q : Query) (f : Fault) (s : Session) (t : Store) :
    Query × Exchange :=
  let notes : List Note :=
    if q.retries ≤ q.attempt + 1 ∧ f.code? ≠ some Fault.syntaxErrorCode then
      [.statementFailed q.attempt f]
    else []
  match f with
  | .connection _ =>
    ({ q with stage := .linking },
      ⟨{ s with connected := false }, t, notes ++ [.connectionLost f]⟩)
  | .deadlock _ => (q.retry (.resting (now + pauses.deadlock)), ⟨s, t, notes⟩)
  | .statement _ _ => (q.retry .ready, ⟨s, t, notes⟩)

/-- Gives the statement to the store, or gives it up. -/
def issue (pauses : Writer.Pauses) (now : Nat) (q : Query) (s : Session) (t : Store) :
    Query × Exchange :=
  if q.attempt < q.retries then
    let note := Note.executing s.id q.attempt q.sql
    if t.isFatal q.sql then ({ q with stage := .crashed }, ⟨s, t, [note]⟩)
    else if s.linked then ({ q with stage := .executing (now + t.latency) }, ⟨s, t, [note]⟩)
    else
      let (q, e) := q.onFault pauses now Fault.noConnection s t
      (q, { e with notes := note :: e.notes })
  else
    ({ q with stage := .finished false },
      ⟨s, t, [.retriesExhausted q.retries, .statementDropped q.sql]⟩)

/-- Takes the store's answer to the statement. -/
def answered (pauses : Writer.Pauses) (now : Nat) (q : Query) (s : Session) (t : Store) :
    Query × Exchange :=
  match t.run s.id q.sql with
  | (none, t) => ({ q with stage := .finished true }, ⟨s, t, []⟩)
  | (some f, t) => q.onFault pauses now f { s with linked := s.linked && !f.isConnection } t

/-- One more attempt to open a lost connection. -/
def relink (pauses : Writer.Pauses) (now : Nat) (q : Query) (s : Session) (t : Store) :
    Query × Exchange :=
  let e := s.connect t
  if e.session.connected then (q.retry .ready, e)
  else ({ q with stage := .pausing (now + pauses.reconnect) }, e)

/-- One step of a query, unless it waits or has finished. -/
def step? (pauses : Writer.Pauses) (now : Nat) (q : Query) (s : Session) (t : Store) :
    Option (Query × Exchange) :=
  match q.stage with
  | .opening => some ({ q with stage := .ready }, s.ensure t)
  | .ready => some (q.issue pauses now s t)
  | .executing due => if due ≤ now then some (q.answered pauses now s t) else none
  | .linking => some (q.relink pauses now s t)
  | .pausing due => if due ≤ now then some ({ q with stage := .linking }, ⟨s, t, []⟩) else none
  | .resting due => if due ≤ now then some ({ q with stage := .ready }, ⟨s, t, []⟩) else none
  | .finished _ | .crashed => none

end Query

end BmpFeed.Store
