import BmpFeed.Feed.Pattern
import BmpFeed.Log.Note

/-!
# The message bus

A message bus in memory, as one consumer sees it. Messages wait in the batches they came in. A poll
brings those messages of the first batch that the subscription accepts and leaves the others where
they are. A script says which calls the client refuses.
-/

namespace BmpFeed

namespace Feed

structure Message where
  topic : String
  key : String
  payload : String
  /-- Names the kind of the message, if it does. -/
  tag : Option String := none
  deriving DecidableEq, Repr, Inhabited

structure Bus where
  /-- The messages that wait, batch by batch. -/
  batches : List (List Message) := []
  /-- The latest subscription. -/
  subscription : Option Pattern := none
  paused : Bool := false
  closed : Bool := false
  /-- The next poll fails with this fault. -/
  pollFault : Option Fault := none
  /-- The patterns that were subscribed, in their order. -/
  subscriptions : List String := []
  polls : Nat := 0
  pauses : Nat := 0
  resumes : Nat := 0
  heartbeats : Nat := 0
  commits : Nat := 0
  /-- The call with this number among the calls of its kind to come is refused. -/
  refusals : List (Call × Nat) := []
  deriving Repr

/-- What a call answered, the bus after it, and the note of it. -/
structure Reply (α : Type) where
  result : Except Fault α
  bus : Bus
  note : Note

namespace Bus

/-- Makes a batch available. -/
def push (b : Bus) (batch : List Message) : Bus := { b with batches := b.batches ++ [batch] }

/-- How many messages wait. -/
def pending (b : Bus) : Nat := (b.batches.map List.length).foldr (· + ·) 0

/-- Counts a call against the script. -/
def countCall (c : Call) (b : Bus) : Bus :=
  { b with refusals := b.refusals.map fun r => if r.1 = c then (c, r.2 - 1) else r }

def refuses (c : Call) (b : Bus) : Bool := b.refusals.contains (c, 1)

/-- Makes a call unless the client refuses it. -/
def call {α : Type} (c : Call) (messages : α → Nat) (f : Bus → Except Fault α × Bus) (b : Bus) :
    Reply α :=
  let refused := b.refuses c
  let b := b.countCall c
  if refused then ⟨.error c.refusal, b, .busCalled c 0 (some c.refusal)⟩
  else
    match f b with
    | (.ok a, b) => ⟨.ok a, b, .busCalled c (messages a) none⟩
    | (.error e, b) => ⟨.error e, b, .busCalled c 0 (some e)⟩

/-- Makes a call that brings nothing. -/
def order (c : Call) (f : Bus → Except Fault Unit × Bus) (b : Bus) : Reply Unit :=
  call c (fun _ => 0) f b

def subscribe (p : Pattern) (b : Bus) : Reply Unit :=
  b.order .subscribe fun b =>
    if b.closed then (.error .closed, b)
    else
      (.ok (), { b with subscription := some p, subscriptions := b.subscriptions ++ [p.text] })

/-- Takes the accepted messages out of the first batch that has any. Batches that are or become
empty on the way go away. -/
def takeAccepted (accepts : Message → Bool) :
    List (List Message) → List Message × List (List Message)
  | [] => ([], [])
  | batch :: batches =>
    let (taken, left) := batch.partition accepts
    let keep (later : List (List Message)) := if left.isEmpty then later else left :: later
    if taken.isEmpty then
      let (taken, later) := takeAccepted accepts batches
      (taken, keep later)
    else (taken, keep batches)

/-- The messages a poll brings while nothing is wrong. -/
def deliver (b : Bus) : List Message × Bus :=
  match b.paused, b.subscription with
  | false, some p =>
    let (taken, batches) := takeAccepted (fun m => p.accepts m.topic) b.batches
    (taken, { b with batches })
  | _, _ => ([], b)

def poll (b : Bus) : Reply (List Message) :=
  b.call .poll List.length fun b =>
    if b.closed then (.error .closed, b)
    else
      let b := { b with polls := b.polls + 1 }
      match b.pollFault with
      | some f => (.error f, { b with pollFault := none })
      | none =>
        let (taken, b) := b.deliver
        (.ok taken, b)

def pause (b : Bus) : Reply Unit :=
  b.order .pause fun b => (.ok (), { b with paused := true, pauses := b.pauses + 1 })

def resume (b : Bus) : Reply Unit :=
  b.order .resume fun b => (.ok (), { b with paused := false, resumes := b.resumes + 1 })

def heartbeat (b : Bus) : Reply Unit :=
  b.order .heartbeat fun b => (.ok (), { b with heartbeats := b.heartbeats + 1 })

def commit (b : Bus) : Reply Unit :=
  b.order .commit fun b => (.ok (), { b with commits := b.commits + 1 })

def close (b : Bus) : Reply Unit := b.order .close fun b => (.ok (), { b with closed := true })

/-- Shows that the consumer is alive; a heartbeat that fails is only noted. -/
def keepAlive (b : Bus) : Bus × List Note :=
  let r := b.heartbeat
  match r.result with
  | .ok _ => (r.bus, [r.note])
  | .error f => (r.bus, [r.note, .heartbeatFailed f])

end Bus

end Feed

end BmpFeed
