import BmpFeed.Log.Note

/-!
# Sessions

A session with the store. `linked` says whether the store has a connection for it, `connected`
whether its owner believes so. The two agree whenever no query is under way.
-/

namespace BmpFeed.Store

structure Session where
  id : Nat
  linked : Bool := false
  connected : Bool := false
  deriving DecidableEq, Repr, Inhabited

/-- A session and the store after something was done, with what there is to note. -/
structure Exchange where
  session : Session
  store : Store
  notes : List Note := []

/-- A session that is not connected yet. -/
def openSession (t : Store) : Session × Store :=
  ({ id := t.takeNumber.1 }, t.takeNumber.2)

namespace Session

/-- One attempt to connect. -/
def connect (s : Session) (t : Store) : Exchange :=
  match t.link with
  | (true, t) => ⟨{ s with linked := true, connected := true }, t, [.connected]⟩
  | (false, t) =>
    ⟨{ s with linked := false, connected := false }, t, [.connectFailed Fault.refused]⟩

/-- Connects unless the session is believed to be connected. -/
def ensure (s : Session) (t : Store) : Exchange :=
  if s.connected then ⟨s, t, []⟩ else s.connect t

def disconnect (s : Session) : Session := { s with linked := false, connected := false }

/-- Asks a query over the connection that there is. Without one there are no rows. -/
def ask (s : Session) (t : Store) (sql : String) : List Row × Exchange :=
  if s.linked then
    let (rows, t) := t.select sql
    (rows, ⟨s, t, []⟩)
  else ([], ⟨{ s with connected := false }, t, [.selectFailed Fault.noConnection sql]⟩)

/-- Makes sure of a connection and asks a query. -/
def select (s : Session) (t : Store) (sql : String) : List Row × Exchange :=
  let e := s.ensure t
  let (rows, reply) := e.session.ask e.store sql
  (rows, { reply with notes := e.notes ++ reply.notes })

end Session

end BmpFeed.Store
