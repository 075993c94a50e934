import BmpFeed.Clock
import BmpFeed.Fleet.Load

/-!
# Fleets

The crews of all categories, and the writers that were taken out of a crew and have not left yet.
Writers are numbered in the order in which they are hired.
-/

namespace BmpFeed

structure Fleet where
  policy : Fleet.Policy
  general : Fleet.Crew
  bulk : Fleet.Crew
  /-- The writers outside the crews. -/
  leaving : List Writer := []
  nextId : Nat := 0
  deriving Repr, Inhabited

namespace Fleet

/-- The place of a writer. It is good until a crew changes. -/
structure Slot where
  category : Category
  place : Nat
  deriving DecidableEq, Repr, Inhabited

def crew (f : Fleet) : Category → Crew
  | .general => f.general
  | .bulk => f.bulk

def setCrew (f : Fleet) (c : Category) (crew : Crew) : Fleet :=
  match c with
  | .general => { f with general := crew }
  | .bulk => { f with bulk := crew }

def setMembers (f : Fleet) (c : Category) (ms : List Member) : Fleet :=
  f.setCrew c { f.crew c with members := ms }

/-- The requests in all queues. -/
def depth (f : Fleet) : Nat := (Category.all.map fun c => (f.crew c).depth).foldr (· + ·) 0

/-- Half the size of a queue. -/
def mid (f : Fleet) : Nat := f.policy.queueSize / 2

/-- A new writer, which is in no crew yet. -/
def hire (f : Fleet) (now : Nat) (t : Store) : Member × Fleet × Store :=
  let (writer, t) := Writer.hire f.nextId f.policy.writer f.policy.queueSize now t
  ({ writer }, { f with nextId := f.nextId + 1 }, t)

/-- Hires writers into the crew of a category. -/
def recruit (c : Category) (now : Nat) : Nat → Fleet × Store → Fleet × Store
  | 0, s => s
  | n + 1, (f, t) =>
    let (m, f, t) := f.hire now t
    recruit c now n (f.setMembers c ((f.crew c).members ++ [m]), t)

/-- A fleet in which every crew is as large as it may be. -/
def start (p : Policy) (now : Nat) (t : Store) : Fleet × Store :=
  let empty : Crew := { resized := now, rebalanced := now }
  let f : Fleet := { policy := p, general := empty, bulk := empty }
  Category.all.foldl (fun s c => recruit c now (max p.maxWriters 1) s) (f, t)

/-- The place for a key of a category. -/
def route (f : Fleet) (c : Category) (key : String) : Slot × Fleet :=
  let (place, crew) := (f.crew c).route f.mid key
  (⟨c, place⟩, f.setCrew c crew)

/-- The writer at a place. -/
def member? (f : Fleet) (s : Slot) : Option Member := (f.crew s.category).members[s.place]?

/-- Puts a request into the queue of the writer at a place, unless it refuses. -/
def send? (f : Fleet) (s : Slot) (r : Request) : Option (Fleet × Note) := do
  let m ← f.member? s
  let w ← m.writer.send? r
  some
    (f.setMembers s.category ((f.crew s.category).members.set s.place { m with writer := w }),
     .requestDelivered w.id r)

/-- All writers, those of the crews first. -/
def writers (f : Fleet) : List Writer :=
  Category.all.flatMap (fun c => (f.crew c).members.map Member.writer) ++ f.leaving

/-- Changes every writer. -/
def mapWriters (g : Writer → Writer) (f : Fleet) : Fleet :=
  let change (c : Crew) : Crew :=
    { c with members := c.members.map fun m => { m with writer := g m.writer } }
  { f with general := change f.general, bulk := change f.bulk, leaving := f.leaving.map g }

/-- Puts a writer in the place of the one with its number. -/
def replace (f : Fleet) (w : Writer) : Fleet := f.mapWriters fun v => if v.id = w.id then w else v

/-- Closes the queue of a writer. -/
def closeQueue (f : Fleet) (id : Nat) : Fleet :=
  f.mapWriters fun w => if w.id = id then w.shut else w

/-- Closes the queues of all writers. -/
def abandon (f : Fleet) : Fleet := f.mapWriters Writer.shut

/-- One of the writers makes a step, unless it waits. -/
def writerStep? (f : Fleet) (now : Nat) (t : Store) (w : Writer) :
    Option (Fleet × Store × List Note) :=
  (w.step? now t).map fun turn => (f.replace turn.writer, turn.store, turn.notes)

/-- The first writer that does not wait makes a step. -/
def step? (f : Fleet) (now : Nat) (t : Store) : Option (Fleet × Store × List Note) :=
  f.writers.findSome? (f.writerStep? now t)

/-- The first time at which a writer goes on by itself. -/
def wake? (f : Fleet) : Option Nat := Timed.earliest (f.writers.map Writer.wake?)

end Fleet

end BmpFeed
