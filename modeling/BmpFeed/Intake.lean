import BmpFeed.Dispatch
import BmpFeed.Feed.Subscription
import BmpFeed.Stats
import BmpFeed.Settings.Check

/-!
# Intakes

An intake polls its bus and turns the messages into statements. Collector, router and peer messages
are written at once through the intake's own session, together with the corrections they call for;
all others become requests for the fleet. While messages are handled the bus is paused. An intake
ends when it is told to stop or when a call on the bus fails, and either way it first empties its
backlog and dismisses its fleet. `Intake.step?` is one step, or nothing while the intake waits.
-/

namespace BmpFeed

namespace Intake

/-- Milliseconds that a poll waits for messages. -/
def pollTimeout : Nat := 10

/-- Passes between two reports while the backlog is emptied. -/
def reportPasses : Nat := 100

inductive Task
  | start
  /-- Begins a cycle, unless it is time to stop. -/
  | cycle
  /-- Extends the subscription. -/
  | subscribe
  | poll
  /-- A poll without messages ends at the given time. -/
  | idle (due : Nat)
  /-- Checks the fleet with the bus paused, if a check is due. -/
  | idleCheck
  | pause
  | resume
  | handle (m : Feed.Message)
  /-- Checks the fleet, if a check is due. -/
  | check
  | checked
  | run (query : Store.Query)
  /-- Shows the bus a sign of life. -/
  | beat
  /-- Takes the rows of a router message. -/
  | routers (rows : List Record)
  /-- Marks the peers of a router down. -/
  | peersDown (sql : String)
  /-- Reads the routers from the store. -/
  | refresh
  | work (t : Dispatch.Task)
  /-- Reports the depths of the queues. -/
  | depths
  /-- Ends the cycles. -/
  | halt (fault : Option Feed.Fault)
  | lastPause
  /-- Empties the backlog after a number of passes. -/
  | drainOut (passes : Nat)
  | drainWait (passes : Nat)
  | drainPause (passes due : Nat)
  /-- Ends the session and closes the bus. -/
  | leave (fault : Option Feed.Fault)
  deriving Repr, Inhabited

/-- How an intake ended. -/
inductive Outcome
  | stopped
  | failed (fault : Feed.Fault)
  /-- A statement ended the intake. -/
  | crashed
  deriving DecidableEq, Repr, Inhabited

end Intake

structure Intake where
  id : Nat
  mappings : List Sql.Mapping
  /-- Attempts at one statement. -/
  retries : Nat
  /-- Milliseconds between two checks of the fleet. -/
  checkPause : Nat
  bus : Feed.Bus
  session : Store.Session
  dispatch : Dispatch
  subscription : Feed.Subscription
  routers : Routers := {}
  stats : Stats := {}
  lastCheck : Nat
  tasks : List Intake.Task := [.start]
  outcome : Option Intake.Outcome := none
  deriving Repr

namespace Intake

/-- An intake on a bus, and the store in which it and its writers have sessions. -/
def open_ (id : Nat) (s : Settings) (bus : Feed.Bus) (now : Nat) (t : Store) : Intake × Store :=
  let (session, t) := Store.openSession t
  let (dispatch, t) := Dispatch.start (.ofSettings s) s.base.backlog now t
  ({ id, mappings := s.tables, retries := s.postgres.retries
     checkPause := s.base.checkSeconds * 1000
     bus, session, dispatch
     subscription := { patterns := s.kafka.compiled, delay := s.kafka.subscribeDelay }
     lastCheck := now }, t)

/-- What an intake did in one step. -/
structure Turn where
  intake : Intake
  store : Store
  notes : List Note := []

/-- The intake goes on with some tasks. -/
def goOn (i : Intake) (tasks : List Task) (t : Store) (notes : List Note := []) : Turn :=
  ⟨{ i with tasks }, t, notes⟩

/-- Takes over a call on the bus; a fault ends the cycles. -/
def onReply {α : Type} (i : Intake) (r : Feed.Reply α) (next : α → List Task) (t : Store) : Turn :=
  match r.result with
  | .ok a => ({ i with bus := r.bus }).goOn (next a) t [r.note]
  | .error f => ({ i with bus := r.bus }).goOn [.halt (some f)] t [r.note]

/-- Takes over what was done in the intake's session. -/
def onExchange (i : Intake) (e : Store.Exchange) (tasks : List Task) (notes : List Note := []) :
    Turn :=
  ({ i with session := e.session }).goOn tasks e.store (e.notes ++ notes)

def isCheckDue (i : Intake) (now : Nat) : Bool := i.lastCheck + i.checkPause ≤ now

/-- The tasks of a check of the fleet. -/
def checkTasks : List Task := Fleet.checkChores.map (fun c => .work (.chore c)) ++ [.checked]

def startStep (i : Intake) (rest : List Task) (t : Store) : Turn :=
  let e := i.session.connect t
  let unreachable := if e.session.connected then [] else [Note.storeUnreachable i.id]
  { intake :=
      { i with
        session := e.session, stats := { i.stats with running := true }
        tasks := .refresh :: .cycle :: rest }
    store := e.store
    notes := .intakeStarted i.id :: e.notes ++ unreachable }

def cycleStep (i : Intake) (stopping : Bool) (rest : List Task) (t : Store) : Turn :=
  if stopping then i.goOn [.halt none] t else i.goOn (.subscribe :: .poll :: rest) t

def subscribeStep (i : Intake) (now : Nat) (rest : List Task) (t : Store) : Turn :=
  let stage := i.subscription.step now i.bus
  let i := { i with subscription := stage.subscription, bus := stage.bus }
  match stage.result with
  | .ok _ => i.goOn rest t stage.notes
  | .error f => i.goOn [.halt (some f)] t stage.notes

/-- What follows a poll: the messages it brought, or a rest. -/
def afterPoll (now : Nat) : List Feed.Message → List Task
  | [] => [.idle (now + pollTimeout), .work .drain, .idleCheck, .depths, .cycle]
  | ms => .pause :: ms.map .handle ++ [.check, .work .drain, .resume, .depths, .cycle]

/-- The statement that stores the rows, if their kind is stored. -/
def insert? (i : Intake) (k : Kind) (rows : List Record) : Option String :=
  (Sql.Mapping.forKind? i.mappings k).bind fun m =>
    if (m.values rows).size = 0 then none else some (m.request "" rows).sql

def query (i : Intake) (sql : String) : Task := .run { sql, retries := i.retries }

/-- The tasks for the rows of a message that is written at once. -/
def inlineTasks (i : Intake) (k : Kind) (rows : List Record) : List Task :=
  let insert := ((i.insert? k rows).map i.query).toList
  match k with
  | .collector => insert ++ (Correction.ofCollectors rows).map i.query ++ [.beat]
  | .router => insert ++ [.beat, .routers rows]
  | .peer => insert ++ .beat :: (Correction.ofPeers rows).flatMap fun sql => [i.query sql, .beat]
  | _ => insert

/-- The key of a request: the message's own, or the first identity of its values. -/
def requestKey? (key : String) (values : FirstSeen String String) : Option String :=
  if key.isEmpty then values.keys.head? else some key

/-- The tasks for the rows of a message that is batched. -/
def batchTasks (i : Intake) (k : Kind) (key : String) (rows : List Record) :
    List Task × List Note :=
  match Sql.Mapping.forKind? i.mappings k with
  | none => ([], [.kindUnmapped k])
  | some m =>
    match requestKey? key (m.values rows) with
    | some key => ([.work (.push (m.request key rows))], [])
    | none => ([], [])

def handleStep (i : Intake) (m : Feed.Message) (rest : List Task) (t : Store) : Turn :=
  let i := { i with stats := i.stats.countMessage }
  match Kind.classify m.tag m.topic with
  | none => i.goOn rest t [.messageUnknown m.topic m.tag]
  | some k =>
    match Record.decode m.payload with
    | .error e => i.goOn rest t [.payloadRefused k m.key e]
    | .ok [] => i.goOn rest t
    | .ok rows =>
      let i := { i with stats := i.stats.countKind k }
      if k.isSynchronous then i.goOn (i.inlineTasks k rows ++ rest) t
      else
        let (tasks, notes) := i.batchTasks k m.key rows
        i.goOn (tasks ++ rest) t notes

/-- The intake ends at once. Its writers write what they have and leave. -/
def crash (i : Intake) (t : Store) : Turn :=
  { intake :=
      { i with
        tasks := [], outcome := some .crashed
        dispatch := { i.dispatch with fleet := i.dispatch.fleet.abandon } }
    store := t }

def runStep? (i : Intake) (now : Nat) (q : Store.Query) (rest : List Task) (t : Store) :
    Option Turn :=
  match q.stage with
  | .finished _ => some (i.goOn rest t)
  | .crashed => some (i.crash t)
  | _ => (q.step? {} now i.session t).map fun (q, e) => i.onExchange e (.run q :: rest)

def beatStep (i : Intake) (tasks : List Task) (t : Store) (notes : List Note := []) : Turn :=
  let (bus, beat) := i.bus.keepAlive
  ({ i with bus }).goOn tasks t (beat ++ notes)

def routersStep (i : Intake) (rows : List Record) (rest : List Task) (t : Store) : Turn :=
  let (routers, events) := i.routers.apply rows
  let marks := (Routers.corrections events).map Task.peersDown
  ({ i with routers }).goOn (marks ++ Task.refresh :: rest) t (events.map .routerEvent)

def refreshStep (i : Intake) (rest : List Task) (t : Store) : Turn :=
  let (rows, e) := i.session.select t Routers.refreshQuery
  ({ i with routers := i.routers.refresh rows }).onExchange e rest
    ((Routers.stored rows).map .routerRefreshed)

def workStep? (i : Intake) (now : Nat) (task : Dispatch.Task) (rest : List Task) (t : Store) :
    Option Turn :=
  (i.dispatch.taskStep? now t task).map fun turn =>
    let i := { i with dispatch := turn.dispatch }
    let tasks := turn.tasks.map .work ++ rest
    if turn.pulse then i.beatStep tasks turn.store turn.notes
    else i.goOn tasks turn.store turn.notes

def haltStep (i : Intake) (fault : Option Feed.Fault) (t : Store) : Turn :=
  ({ i with stats := { i.stats with running := false } }).goOn
    [.lastPause, .drainOut 0, .leave fault] t (fault.map (Note.busFailed i.id)).toList

def lastPauseStep (i : Intake) (rest : List Task) (t : Store) : Turn :=
  let r := i.bus.pause
  match r.result with
  | .ok _ => ({ i with bus := r.bus }).goOn rest t [r.note]
  | .error f => ({ i with bus := r.bus }).goOn rest t [r.note, .pauseFailed f]

def drainOutStep (i : Intake) (passes : Nat) (rest : List Task) (t : Store) : Turn :=
  if i.dispatch.backlog.isEmpty then
    i.goOn (Fleet.shutdownChores.map (fun c => .work (.chore c)) ++ rest) t
  else
    let tasks := .work .drain :: .drainWait (passes + 1) :: rest
    if (passes + 1) % reportPasses = 0 then
      let turn := i.beatStep tasks t
      { turn with notes := .backlogDraining i.id i.dispatch.backlog.size :: turn.notes }
    else i.goOn tasks t

def leaveStep (i : Intake) (fault : Option Feed.Fault) (t : Store) : Turn :=
  let r := i.bus.close
  { intake :=
      { i with
        bus := r.bus, session := i.session.disconnect, stats := i.stats.setDepths 0 0, tasks := []
        outcome := some (match fault with
          | some f => .failed f
          | none => .stopped) }
    store := t
    notes := [r.note, .intakeStopped i.id] }

/-- One step of an intake, unless it waits or has ended. -/
def step? (now : Nat) (stopping : Bool) (i : Intake) (t : Store) : Option Turn :=
  match i.tasks with
  | [] => none
  | task :: rest =>
    match task with
    | .start => some (i.startStep rest t)
    | .cycle => some (i.cycleStep stopping rest t)
    | .subscribe => some (i.subscribeStep now rest t)
    | .poll => some (i.onReply i.bus.poll (fun ms => afterPoll now ms ++ rest) t)
    | .idle due => if due ≤ now then some (i.goOn rest t) else none
    | .idleCheck =>
      some
        (if i.subscription.isComplete && i.isCheckDue now then
          i.goOn (.pause :: checkTasks ++ .resume :: rest) t
        else i.goOn rest t)
    | .pause => some (i.onReply i.bus.pause (fun _ => rest) t)
    | .resume => some (i.onReply i.bus.resume (fun _ => rest) t)
    | .handle m => some (i.handleStep m rest t)
    | .check => some (i.goOn (if i.isCheckDue now then checkTasks ++ rest else rest) t)
    | .checked => some (({ i with lastCheck := now }).goOn rest t)
    | .run q => i.runStep? now q rest t
    | .beat => some (i.beatStep rest t)
    | .routers rows => some (i.routersStep rows rest t)
    | .peersDown sql => some (i.goOn (i.query sql :: rest) t [.peersMarkedDown sql])
    | .refresh => some (i.refreshStep rest t)
    | .work w => i.workStep? now w rest t
    | .depths =>
      let stats := i.stats.setDepths i.dispatch.backlog.size i.dispatch.fleet.depth
      some (({ i with stats }).goOn rest t)
    | .halt fault => some (i.haltStep fault t)
    | .lastPause => some (i.lastPauseStep rest t)
    | .drainOut passes => some (i.drainOutStep passes rest t)
    | .drainWait passes => some (i.goOn (.drainPause passes (now + 1) :: rest) t)
    | .drainPause passes due =>
      if due ≤ now then some (i.goOn (.drainOut passes :: rest) t) else none
    | .leave fault => some (i.leaveStep fault t)

/-- The time the intake itself waits for. -/
def wake? (i : Intake) : Option Nat :=
  match i.tasks with
  | .idle due :: _ | .drainPause _ due :: _ => some due
  | .run q :: _ => q.wake?
  | .work w :: _ => w.wake?
  | _ => none

def hasEnded (i : Intake) : Bool := i.outcome.isSome

end Intake

end BmpFeed
