import BmpFeed.Clock
import BmpFeed.Store.Query

/-!
# Sessions by themselves

Some sessions of one store and a clock, with one query under way at most.
-/

namespace BmpFeed.Store

structure Bench where
  now : Nat := 0
  store : Store
  sessions : List Session
  pauses : Writer.Pauses
  /-- The query under way, and the place of its session. -/
  query : Option (Nat × Query) := none
  /-- What there is to note, the latest first. -/
  notes : List Note := []

namespace Bench

/-- One open session. -/
def start (pauses : Writer.Pauses) (t : Store) : Bench :=
  let (session, store) := openSession t
  { store, sessions := [session], pauses }

def addSession (b : Bench) : Bench :=
  let (session, store) := openSession b.store
  { b with store, sessions := b.sessions ++ [session] }

/-- Takes over what was done to the session at a place. -/
def update (b : Bench) (place : Nat) (e : Exchange) : Bench :=
  { b with
    sessions := b.sessions.set place e.session, store := e.store
    notes := e.notes.reverse ++ b.notes }

def step? (b : Bench) : Option Bench := do
  let (place, q) ← b.query
  let s ← b.sessions[place]?
  let (q, e) ← q.step? b.pauses b.now s b.store
  some { b.update place e with query := some (place, q) }

instance : Timed Bench where
  now := Bench.now
  setNow b t := { b with now := t }
  step? := step?
  wake? b := b.query.bind fun q => q.2.wake?

/-- Runs a statement in the session at a place and waits for its end. -/
def run (fuel place retries : Nat) (sql : String) (b : Bench) : Bool × Bench :=
  let b := Timed.finish (fun _ : Bench => false) fuel
    { b with query := some (place, { sql, retries }) }
  let ok := match b.query with
    | some (_, { stage := .finished ok, .. }) => ok
    | _ => false
  (ok, { b with query := none })

def connect (place : Nat) (b : Bench) : Bool × Bench :=
  match b.sessions[place]? with
  | none => (false, b)
  | some s =>
    let e := s.connect b.store
    (e.session.connected, b.update place e)

def select (place : Nat) (sql : String) (b : Bench) : List Row × Bench :=
  match b.sessions[place]? with
  | none => ([], b)
  | some s =>
    let (rows, e) := s.select b.store sql
    (rows, b.update place e)

def disconnect (place : Nat) (b : Bench) : Bench :=
  { b with sessions := b.sessions.modify place Session.disconnect }

end Bench

end BmpFeed.Store
