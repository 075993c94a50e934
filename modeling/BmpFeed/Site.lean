import BmpFeed.Clock
import BmpFeed.Intake

/-!
# Sites

Some intakes over one store with a clock and a flag that stops them. A supervisor, if there is one,
starts the intakes, reports their counters at fixed intervals, stops all of them as soon as one has
ended, and ends itself when all have. `Site.step?` is one step of a part that does not wait: an
intake before the supervisor, and the writers last.
-/

namespace BmpFeed

namespace Site

/-- Why a run failed. -/
inductive Failure
  /-- An intake got no bus. -/
  | noBus (fault : Feed.Fault)
  | intakeFailed (intake : Nat) (fault : Feed.Fault)
  | intakeCrashed (intake : Nat)
  deriving DecidableEq, Repr, Inhabited

/-- What ended the intake, or the creation of one. -/
def Failure.reason : Failure → String
  | noBus f | intakeFailed _ f => f.message
  | intakeCrashed _ => "panic"

def Failure.message : Failure → String
  | noBus f => f.message
  | f@(intakeFailed i _) | f@(intakeCrashed i) =>
    "consumer instance " ++ toString i ++ " stopped: " ++ f.reason

/-- What creating an intake without a bus answers. -/
def noBrokers : Feed.Fault := .client "no brokers available"

structure Supervisor where
  /-- Milliseconds between two reports, 0 for none. -/
  interval : Nat
  /-- The time of the next report. -/
  nextReport : Nat
  /-- The intakes whose end has been noticed. -/
  joined : List Nat := []
  /-- The first failure. -/
  failure : Option Failure := none
  /-- The failure is that of a creation, so that later ends are not reported. -/
  aborted : Bool := false
  ended : Bool := false
  deriving Repr

end Site

structure Site where
  now : Nat := 0
  store : Store
  /-- The intakes are to stop. -/
  stopping : Bool := false
  intakes : List Intake := []
  /-- The buses that no intake took. -/
  spare : List Feed.Bus := []
  supervisor : Option Site.Supervisor := none
  /-- The intakes that have ended, in the order of their ends. -/
  ended : List Nat := []
  /-- What there is to note, the latest first. -/
  notes : List Note := []

namespace Site

def note (s : Site) (notes : List Note) : Site := { s with notes := notes.reverse ++ s.notes }

/-- One intake on the first of the buses and no supervisor. -/
def single (id : Nat) (settings : Settings) (buses : List Feed.Bus) (t : Store) : Site :=
  match buses with
  | [] => { store := t }
  | bus :: spare =>
    let (intake, store) := Intake.open_ id settings bus 0 t
    { store, intakes := [intake], spare }

/-- One attempt to connect to the store, in a session of its own. -/
def probe (t : Store) : Bool × Store × List Note :=
  let (s, t) := Store.openSession t
  let e := s.connect t
  (e.session.connected, e.store, e.notes)

/-- Creates up to `count` intakes from the number `id` on, one per bus. -/
def recruit (settings : Settings) : Nat → Nat → List Feed.Bus → Store →
    List Intake × List Feed.Bus × Store
  | _, 0, buses, t => ([], buses, t)
  | _, _ + 1, [], t => ([], [], t)
  | id, count + 1, bus :: buses, t =>
    let (intake, t) := Intake.open_ id settings bus 0 t
    let (intakes, buses, t) := recruit settings (id + 1) count buses t
    (intake :: intakes, buses, t)

/-- As many intakes as the settings ask for, under a supervisor. -/
def supervised (settings : Settings) (buses : List Feed.Bus) (t : Store) : Site :=
  let (intakes, spare, store) := recruit settings 0 settings.base.intakes buses t
  let interval := settings.base.statsInterval * 1000
  let s : Site := { store, intakes, spare }
  let supervisor : Supervisor := { interval, nextReport := interval }
  if intakes.length < settings.base.intakes then
    { s with
      stopping := true
      supervisor := some { supervisor with failure := some (.noBus noBrokers), aborted := true }
      notes := [.intakeNotStarted intakes.length noBrokers.message] }
  else
    { s with
      supervisor := some supervisor, notes := [.intakesStarted intakes.length] }

/-- Puts an intake in the place of the one with its number. -/
def replace (s : Site) (i : Intake) : Site :=
  { s with intakes := s.intakes.map fun j => if j.id = i.id then i else j }

/-- One of the intakes makes a step, unless it waits. -/
def intakeStep? (s : Site) (i : Intake) : Option Site :=
  (i.step? s.now s.stopping s.store).map fun turn =>
    { s.replace turn.intake with
      store := turn.store, notes := turn.notes.reverse ++ s.notes
      ended := if turn.intake.hasEnded then s.ended ++ [i.id] else s.ended }

/-- A writer of one of the intakes makes a step, unless all of them wait. -/
def writerStep? (s : Site) (i : Intake) : Option Site :=
  (i.dispatch.fleet.step? s.now s.store).map fun (fleet, store, notes) =>
    { s.replace { i with dispatch := { i.dispatch with fleet } } with
      store, notes := notes.reverse ++ s.notes }

/-- The failure of an intake that has ended. -/
def failureOf? (i : Intake) : Option Failure :=
  match i.outcome with
  | some (.failed f) => some (.intakeFailed i.id f)
  | some .crashed => some (.intakeCrashed i.id)
  | _ => none

/-- The supervisor notices that an intake has ended. -/
def join (s : Site) (v : Supervisor) (id : Nat) : Site :=
  let v := { v with joined := v.joined ++ [id] }
  if v.aborted then { s with supervisor := some v }
  else
    let failure := (s.intakes.find? fun i => i.id = id).bind failureOf?
    let notes :=
      (if s.stopping then [] else [Note.allStopping]) ++
        (failure.map fun f => Note.intakeFailed f.message).toList
    { s with
      stopping := true, supervisor := some { v with failure := v.failure.or failure } }.note notes

/-- The counters of all intakes. -/
def report (s : Site) : List Note :=
  s.intakes.flatMap fun i => (i.stats.lines i.id).map .statistics

/-- The supervisor still reports. -/
def Supervisor.reports (v : Supervisor) : Bool := !v.ended && !v.aborted && v.interval ≠ 0

/-- The supervisor makes a step, unless it waits or has ended. -/
def superviseStep? (s : Site) : Option Site := do
  let v ← s.supervisor
  if v.ended then none
  else
    match s.ended.find? fun id => !v.joined.contains id with
    | some id => some (s.join v id)
    | none =>
      if v.joined.length = s.intakes.length then
        some { s with supervisor := some { v with ended := true } }
      else if v.reports ∧ v.nextReport ≤ s.now then
        some ({ s with
          supervisor := some { v with nextReport := v.nextReport + v.interval } }.note s.report)
      else none

/-- One step, unless every part waits. -/
def step? (s : Site) : Option Site :=
  (s.intakes.findSome? s.intakeStep?).or
    (s.superviseStep?.or (s.intakes.findSome? s.writerStep?))

/-- The time the supervisor waits for. -/
def Supervisor.wake? (v : Supervisor) : Option Nat := if v.reports then some v.nextReport else none

def wake? (s : Site) : Option Nat :=
  Timed.earliest
    ((s.supervisor.bind Supervisor.wake?) ::
      s.intakes.flatMap fun i => [i.wake?, i.dispatch.fleet.wake?])

instance : Timed Site where
  now := Site.now
  setNow s t := { s with now := t }
  step? := step?
  wake? := wake?

/-- The supervisor, or the only intake, has ended. -/
def isOver (s : Site) : Bool :=
  match s.supervisor with
  | some v => v.ended
  | none => s.intakes.all Intake.hasEnded

/-- The failure with which a run that is over ended, if it failed. -/
def failure? (s : Site) : Option Failure :=
  match s.supervisor with
  | some v => v.failure
  | none => s.intakes.findSome? failureOf?

/-- Tells the intakes to stop and waits until all is over. -/
def finish (fuel : Nat) (s : Site) : Site :=
  Timed.finish isOver fuel { s with stopping := true }

/-- The buses of the intakes, then the others. -/
def buses (s : Site) : List Feed.Bus := s.intakes.map Intake.bus ++ s.spare

/-- Changes the bus at a place of `buses`. -/
def updateBus (s : Site) (place : Nat) (f : Feed.Bus → Feed.Bus) : Site :=
  if place < s.intakes.length then
    { s with intakes := s.intakes.modify place fun i => { i with bus := f i.bus } }
  else { s with spare := s.spare.modify (place - s.intakes.length) f }

end Site

end BmpFeed
