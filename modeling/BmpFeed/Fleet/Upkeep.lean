import BmpFeed.Fleet.Basic

/-!
# Upkeep

Health checks and the dismissal of a fleet, as chores that can wait. A chore makes one step at a
time and leaves the chores that follow from it. A writer is reset only once its queue is empty;
while that takes long, the owner of the fleet is asked for a sign of life.
-/

namespace BmpFeed.Fleet

inductive Chore
  /-- Replaces writers that crashed, and does what the load asks for. -/
  | inspect (c : Category)
  /-- Resets the writer at a place. -/
  | reset (c : Category) (place : Nat)
  /-- Waits until the queue of the writer at a place is empty. -/
  | drain (c : Category) (place steps due : Nat)
  /-- Resets all writers. -/
  | resetAll (c : Category)
  | grow (c : Category)
  /-- Adds a writer. -/
  | enlist (c : Category)
  | shrink (c : Category)
  /-- Takes the last writer out of the crew. -/
  | release (c : Category)
  /-- Closes the queue of a writer outside the crews. -/
  | close (writer : Nat)
  /-- Waits until a writer outside the crews has left. -/
  | join (writer : Nat)
  | removed (c : Category)
  /-- Takes all writers out of the crew. -/
  | dismiss (c : Category)
  deriving DecidableEq, Repr, Inhabited

/-- The chores of a health check. -/
def checkChores : List Chore := Category.all.map .inspect

/-- The chores that end a fleet. -/
def shutdownChores : List Chore := Category.all.flatMap fun c => [.resetAll c, .dismiss c]

namespace Chore

/-- Looks at an empty queue between two signs of life. -/
def pulseSteps : Nat := 5000

/-- What a chore did in one step. -/
structure Turn where
  /-- What is to be done next. -/
  chores : List Chore := []
  fleet : Fleet
  store : Store
  notes : List Note := []
  /-- A sign of life is asked for, before the notes. -/
  pulse : Bool := false

/-- Replaces the crashed writers among some members. -/
def replaceDead (c : Category) (now : Nat) :
    List Member → Fleet × Store → List Member × (Fleet × Store) × List Note
  | [], s => ([], s, [])
  | m :: ms, (f, t) =>
    if m.writer.isClosed then
      let (new, f, t) := f.hire now t
      let (ms, s, notes) := replaceDead c now ms (f, t)
      (new :: ms, s, .writerReplaced c m.writer.id new.writer.id :: notes)
    else
      let (ms, s, notes) := replaceDead c now ms (f, t)
      (m :: ms, s, notes)

/-- What a verdict leads to. -/
def ofVerdict (c : Category) : Verdict → List Chore × List Note
  | .rebalance places => (places.map (reset c), [.rebalancing c places.length])
  | .grow => ([grow c], [])
  | .shrink => ([shrink c], [])
  | .hold => ([], [])

def inspectStep (c : Category) (now : Nat) (f : Fleet) (t : Store) : Turn :=
  let (members, (f, t), replaced) := replaceDead c now (f.crew c).members (f, t)
  let crew := f.crew c
  let rebalanceDue := decide (crew.rebalanced + f.policy.rebalancePause ≤ now)
  let shrinkDue := decide (crew.resized + f.policy.resizePause ≤ now)
  let found := f.policy.assess c rebalanceDue shrinkDue members
  let (chores, notes) := ofVerdict c found.verdict
  { chores
    fleet := f.setCrew c
      { crew with
        members := found.members, rebalanced := if rebalanceDue then now else crew.rebalanced }
    store := t
    notes := replaced ++ found.notes ++ notes }

/-- Looks at the queue of the writer at a place. -/
def drainStep (c : Category) (place steps now : Nat) (f : Fleet) (t : Store) : Turn :=
  match f.member? ⟨c, place⟩ with
  | none => { fleet := f, store := t }
  | some m =>
    if m.depth = 0 ∨ m.writer.isClosed then
      { fleet := f.setMembers c ((f.crew c).members.modify place Member.reset), store := t }
    else if pulseSteps ≤ steps + 1 then
      { chores := [drain c place 0 (now + 1)], fleet := f, store := t
        notes := [.stillDraining c m.depth], pulse := true }
    else { chores := [drain c place (steps + 1) (now + 1)], fleet := f, store := t }

def releaseStep (c : Category) (now : Nat) (f : Fleet) (t : Store) : Turn :=
  let crew := f.crew c
  let f := f.setCrew c { crew with members := crew.members.dropLast, resized := now }
  match crew.members.getLast? with
  | none => { chores := [removed c], fleet := f, store := t }
  | some m =>
    { chores := [close m.writer.id, join m.writer.id, removed c]
      fleet := { f with leaving := f.leaving ++ [m.writer] }, store := t }

/-- Strikes a writer that has left. -/
def joinStep? (id : Nat) (f : Fleet) (t : Store) : Option Turn :=
  match f.leaving.find? fun w => w.id = id with
  | none => some { fleet := f, store := t }
  | some w =>
    if w.isClosed then
      some
        { fleet := { f with leaving := f.leaving.filter fun w => w.id ≠ id }, store := t
          notes := [if w.phase = .gone then .writerJoined id else .writerFailed id] }
    else none

/-- One step of a chore, unless it waits. -/
def step? (now : Nat) (f : Fleet) (t : Store) : Chore → Option Turn
  | inspect c => some (inspectStep c now f t)
  | reset c place =>
    match f.member? ⟨c, place⟩ with
    | none => some { fleet := f, store := t }
    | some m =>
      some
        { chores := [drain c place 0 now], fleet := f, store := t
          notes := [.writerResetting c m.writer.id m.depth] }
  | drain c place steps due => if due ≤ now then some (drainStep c place steps now f t) else none
  | resetAll c =>
    some
      { chores := (List.range (f.crew c).size).map (reset c), fleet := f, store := t
        notes := [.drainingAll c] }
  | grow c =>
    if f.policy.maxWriters ≤ (f.crew c).size then some { fleet := f, store := t }
    else
      some
        { chores := [resetAll c, enlist c], fleet := f, store := t, notes := [.writerAdding c] }
  | enlist c =>
    let (m, f, t) := f.hire now t
    let crew := f.crew c
    let crew := { crew with members := crew.members ++ [m], resized := now }
    some { fleet := f.setCrew c crew, store := t, notes := [.writerAdded c crew.size] }
  | shrink c =>
    if (f.crew c).size ≤ 1 then some { fleet := f, store := t }
    else
      some
        { chores := [reset c ((f.crew c).size - 1), release c], fleet := f, store := t
          notes := [.writerRemoving c] }
  | release c => some (releaseStep c now f t)
  | close id => some { fleet := f.closeQueue id, store := t }
  | join id => joinStep? id f t
  | removed c =>
    some { fleet := f, store := t, notes := [.writerRemoved c (f.crew c).size] }
  | dismiss c =>
    let ws := (f.crew c).members.map Member.writer
    some
      { chores := ws.flatMap fun w => [close w.id, join w.id]
        fleet := { f.setMembers c [] with leaving := f.leaving ++ ws }, store := t
        notes := [.writersDismissed c] }

/-- The time a chore waits for. -/
def wake? : Chore → Option Nat
  | drain _ _ _ due => some due
  | _ => none

end Chore

end BmpFeed.Fleet
