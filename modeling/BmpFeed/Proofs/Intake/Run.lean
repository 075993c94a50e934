import BmpFeed.Intake
import BmpFeed.Proofs.Dispatch.Run

/-!
# Runs of an intake

`Run` holds of everything that can happen to an intake: its own steps and those of its writers, with
the store in any state at each of them, whatever happens to the bus, and time that passes. `Move`
lists what one step of the intake does with its tasks and its dispatch.
-/

namespace BmpFeed.Intake

/-- What a run of an intake shows. -/
inductive Event
  | dispatch (e : Dispatch.Event)
  /-- A poll brought these messages. -/
  | polled (ms : List Feed.Message)
  /-- The intake took up a message. -/
  | received (m : Feed.Message)

/-! ## What becomes of a message -/

/-- The rows of a message that is batched, with their mapping. -/
def batch? (ms : List Sql.Mapping) (m : Feed.Message) : Option (Sql.Mapping × List Record) :=
  match Kind.classify m.tag m.topic, Record.decode m.payload with
  | some k, .ok (row :: rows) =>
    if k.isSynchronous then none
    else (Sql.Mapping.forKind? ms k).map fun mapping => (mapping, row :: rows)
  | _, _ => none

/-- The request for the rows of a message that is batched. -/
def request? (ms : List Sql.Mapping) (m : Feed.Message) : Option Request :=
  (batch? ms m).bind fun (mapping, rows) =>
    (requestKey? m.key (mapping.values rows)).map fun key => mapping.request key rows

/-! ## Runs -/

/-- What the next step of the intake shows. -/
def events (now : Nat) (i : Intake) (t : Store) : List Event :=
  match i.tasks with
  | .poll :: _ =>
    match i.bus.poll.result with
    | .ok ms => [.polled ms]
    | .error _ => []
  | .handle m :: _ =>
    .received m :: (request? i.mappings m).toList.map fun r => .dispatch (.pushed r)
  | .work (.pass q) :: _ =>
    if q.left = 0 then [] else (Dispatch.passEvents q i.dispatch).map .dispatch
  | .work (.chore c) :: _ =>
    ((c.events now i.dispatch.fleet t).map .fleet).map .dispatch
  | .drainOut _ :: _ => if i.dispatch.backlog.isEmpty then [.dispatch (.fleet .dismissed)] else []
  | _ => []

/-- The runs of an intake with some settings, with their events and the time. -/
inductive Run (s : Settings) : List Event → Nat → Intake → Prop
  | open_ (id : Nat) (bus : Feed.Bus) (now : Nat) (t : Store) :
      Run s [] now (Intake.open_ id s bus now t).1
  | wait {es : List Event} {now now' : Nat} {i : Intake} :
      Run s es now i → now ≤ now' → Run s es now' i
  | bus {es : List Event} {now : Nat} {i : Intake} (bus : Feed.Bus) :
      Run s es now i → Run s es now { i with bus }
  | step {es : List Event} {now : Nat} {i : Intake} {stopping : Bool} {t : Store} {turn : Turn} :
      Run s es now i → i.step? now stopping t = some turn →
        Run s (es ++ i.events now t) now turn.intake
  | write {es : List Event} {now : Nat} {i : Intake} {t : Store} {w : Writer}
      {turn : Writer.Turn} :
      Run s es now i → w ∈ i.dispatch.fleet.writers → w.step? now t = some turn →
        Run s (es ++ (((w.events t).map (.writer w.id)).map .fleet).map .dispatch) now
          { i with
            dispatch := { i.dispatch with fleet := i.dispatch.fleet.replace turn.writer } }

/-- The events of the dispatch. -/
def dispatchEvents (es : List Event) : List Dispatch.Event :=
  es.filterMap fun | .dispatch e => some e | _ => none

/-- The events of the fleet. -/
def fleetEvents (es : List Event) : List Fleet.Event := Dispatch.fleetEvents (dispatchEvents es)

/-- The messages that polls brought, in order. -/
def polled (es : List Event) : List Feed.Message :=
  es.flatMap fun | .polled ms => ms | _ => []

/-- The messages that the intake took up, in order. -/
def received (es : List Event) : List Feed.Message :=
  es.filterMap fun | .received m => some m | _ => none

section Views

variable (es es' : List Event)

@[simp] theorem dispatchEvents_append :
    dispatchEvents (es ++ es') = dispatchEvents es ++ dispatchEvents es' :=
  List.filterMap_append

@[simp] theorem polled_append : polled (es ++ es') = polled es ++ polled es' :=
  List.flatMap_append

@[simp] theorem received_append : received (es ++ es') = received es ++ received es' :=
  List.filterMap_append

@[simp] theorem dispatchEvents_map (ds : List Dispatch.Event) :
    dispatchEvents (ds.map .dispatch) = ds := by
  simp [dispatchEvents, List.filterMap_map]

@[simp] theorem polled_map (ds : List Dispatch.Event) : polled (ds.map .dispatch) = [] := by
  simp [polled, List.flatMap_map]

@[simp] theorem received_map (ds : List Dispatch.Event) : received (ds.map .dispatch) = [] := by
  simp [received, List.filterMap_map]

end Views

/-! ## Moves -/

/-- A call on the bus that brings nothing. -/
def Task.isOrder : Task → Bool
  | .subscribe | .pause | .resume => true
  | _ => false

/-- Tasks that have to do with neither the dispatch nor the bus. -/
def Task.isAside : Task → Bool
  | .idle _ | .idleCheck | .check | .checked | .run _ | .beat | .routers _ | .peersDown _
  | .refresh | .depths => true
  | _ => false

def chore (c : Fleet.Chore) : Task := .work (.chore c)

/-- What a step does with the tasks and the dispatch of an intake that has not ended, the events
that show it, and how the intake ends if it does. -/
inductive Move (now : Nat) (ms : List Sql.Mapping) (d : Dispatch) :
    List Task → List Event → List Task → Dispatch → Option Outcome → Prop
  | start (rest : List Task) : Move now ms d (.start :: rest) [] (.refresh :: .cycle :: rest) d none
  | aside {task : Task} (new rest : List Task) (h : task.isAside = true)
      (hnew : ∀ t ∈ new, t.isAside = true) : Move now ms d (task :: rest) [] (new ++ rest) d none
  | order {task : Task} (rest : List Task) (h : task.isOrder = true) :
      Move now ms d (task :: rest) [] rest d none
  /-- A call on the bus fails. -/
  | fail {task : Task} (rest : List Task) (f : Feed.Fault)
      (h : task.isOrder = true ∨ task = .poll) :
      Move now ms d (task :: rest) [] [.halt (some f)] d none
  | cycle (rest : List Task) :
      Move now ms d (.cycle :: rest) [] (.subscribe :: .poll :: rest) d none
  | stop (rest : List Task) : Move now ms d (.cycle :: rest) [] [.halt none] d none
  | poll (msgs : List Feed.Message) (rest : List Task) :
      Move now ms d (.poll :: rest) [.polled msgs] (afterPoll now msgs ++ rest) d none
  | idleCheck (rest : List Task) :
      Move now ms d (.idleCheck :: rest) [] (.pause :: checkTasks ++ .resume :: rest) d none
  | check (rest : List Task) : Move now ms d (.check :: rest) [] (checkTasks ++ rest) d none
  /-- Takes up a message that leads to no request. -/
  | receive (m : Feed.Message) (new rest : List Task) (h : request? ms m = none)
      (hnew : ∀ t ∈ new, t.isAside = true) :
      Move now ms d (.handle m :: rest) [.received m] (new ++ rest) d none
  | request (m : Feed.Message) {r : Request} (rest : List Task) (h : request? ms m = some r) :
      Move now ms d (.handle m :: rest) [.received m, .dispatch (.pushed r)]
        (.work (.push r) :: rest) d none
  | push {r : Request} {backlog : Backlog} (rest : List Task)
      (h : d.backlog.push? r = some backlog) :
      Move now ms d (.work (.push r) :: rest) [] rest { d with backlog } none
  | full (r : Request) (rest : List Task) :
      Move now ms d (.work (.push r) :: rest) [] (.work .drain :: .work (.rest r) :: rest) d none
  | rest (r : Request) (due : Nat) (rest : List Task) :
      Move now ms d (.work (.rest r) :: rest) [] (.work (.retry r due) :: rest) d none
  | retry (r : Request) (due : Nat) (rest : List Task) :
      Move now ms d (.work (.retry r due) :: rest) [] (.work (.push r) :: rest) d none
  | drain (rest : List Task) :
      Move now ms d (.work .drain :: rest) [] (.work (.pass d.backlog.begin_) :: rest) d none
  | endPass {q : Backlog.Pass} (rest : List Task) (h : q.left = 0) :
      Move now ms d (.work (.pass q) :: rest) [] rest d none
  | passOn {q : Backlog.Pass} (rest : List Task) (h : q.left ≠ 0) :
      Move now ms d (.work (.pass q) :: rest) ((Dispatch.passEvents q d).map .dispatch)
        (.work (.pass (d.passStep q).1) :: rest) (d.passStep q).2.1 none
  | chore {c : Fleet.Chore} {t : Store} {turn : Fleet.Chore.Turn} (rest : List Task)
      (h : c.step? now d.fleet t = some turn) :
      Move now ms d (.work (.chore c) :: rest) (((c.events now d.fleet t).map .fleet).map .dispatch)
        (turn.chores.map chore ++ rest) { d with fleet := turn.fleet } none
  | halt (fault : Option Feed.Fault) (rest : List Task) :
      Move now ms d (.halt fault :: rest) [] [.lastPause, .drainOut 0, .leave fault] d none
  | lastPause (rest : List Task) : Move now ms d (.lastPause :: rest) [] rest d none
  | dismiss (n : Nat) (rest : List Task) (h : d.backlog.isEmpty = true) :
      Move now ms d (.drainOut n :: rest) [.dispatch (.fleet .dismissed)]
        (Fleet.shutdownChores.map chore ++ rest) d none
  | drainOut (n : Nat) (rest : List Task) :
      Move now ms d (.drainOut n :: rest) [] (.work .drain :: .drainWait (n + 1) :: rest) d none
  | drainWait (n due : Nat) (rest : List Task) :
      Move now ms d (.drainWait n :: rest) [] (.drainPause n due :: rest) d none
  | drainPause (n due : Nat) (rest : List Task) :
      Move now ms d (.drainPause n due :: rest) [] (.drainOut n :: rest) d none
  | leave (fault : Option Feed.Fault) (rest : List Task) :
      Move now ms d (.leave fault :: rest) [] [] d
        (some (match fault with
          | some f => .failed f
          | none => .stopped))
  /-- A statement ends the intake. -/
  | crash (q : Store.Query) (rest : List Task) :
      Move now ms d (.run q :: rest) [] [] { d with fleet := d.fleet.abandon } (some .crashed)

end BmpFeed.Intake
