import BmpFeed.Store.Query
import BmpFeed.Writer.Batch

/-!
# Writers

A writer owns a session and a bounded queue of requests. It merges what it takes from the queue into
a batch and writes the batch when the window since the last writing has passed, when the batch is
full, or when a fragment is oversized; requests that are not batched are written as they come. Once
its queue is sealed it empties the queue, writes what is left and leaves. `Writer.step?` is one step
of a writer, or nothing while it waits.
-/

namespace BmpFeed

namespace Writer

/-- A fragment of more bytes has the batch written at once. -/
def maxFragment : Nat := 100000

/-- How often a request that is not batched is tried. -/
def immediateRetries : Nat := 3

/-- What a writer still has to do before it looks at its queue again. -/
inductive Duty
  /-- Opens the session. -/
  | start
  | run (query : Store.Query)
  /-- Writes the batch. -/
  | flush
  /-- The batch with this many records has been written. -/
  | flushed (records : Nat)
  /-- Writes the batch if it is time to. -/
  | review
  | leave
  deriving DecidableEq, Repr, Inhabited

inductive Phase
  | working
  /-- The writer has left in good order. -/
  | gone
  /-- A statement ended the writer. -/
  | crashed
  deriving DecidableEq, Repr, Inhabited

end Writer

structure Writer where
  id : Nat
  policy : Writer.Policy
  session : Store.Session
  capacity : Nat
  /-- The requests that wait, the oldest first. -/
  queue : List Request := []
  /-- No more requests will come. -/
  closing : Bool := false
  batch : Writer.Batch := {}
  lastFlush : Nat
  duties : List Writer.Duty := [.start]
  phase : Writer.Phase := .working
  deriving Repr, Inhabited

namespace Writer

/-- A writer with an empty queue, and the store in which it has a session. -/
def hire (id : Nat) (policy : Policy) (capacity now : Nat) (t : Store) : Writer × Store :=
  let (session, t) := Store.openSession t
  ({ id, policy, session, capacity, lastFlush := now }, t)

def depth (w : Writer) : Nat := w.queue.length

/-- Nobody reads the queue any more. -/
def isClosed (w : Writer) : Bool := w.phase ≠ .working

/-- Puts a request into the queue; a full or closed queue refuses it. -/
def send? (w : Writer) (r : Request) : Option Writer :=
  if w.isClosed ∨ w.capacity ≤ w.queue.length then none else some { w with queue := w.queue ++ [r] }

/-- Closes the queue for further requests. -/
def shut (w : Writer) : Writer := { w with closing := true }

/-- What the writer did in one step. -/
structure Turn where
  writer : Writer
  store : Store
  notes : List Note := []

/-- When the window since the last writing ends. -/
def deadline (w : Writer) : Nat := w.lastFlush + w.policy.window

/-- What a request makes the writer do. -/
def accept (w : Writer) (r : Request) : Writer × List Note :=
  if r.batchable then
    let w := { w with batch := w.batch.merge r }
    if maxFragment < r.maxFragment then
      ({ w with duties := [.flush, .review] }, [.requestTaken w.id r, .fragmentOversized w.id])
    else ({ w with duties := [.review] }, [.requestTaken w.id r])
  else
    ({ w with duties := [.run { sql := r.sql, retries := immediateRetries }, .review] },
      [.requestTaken w.id r])

/-- Writes the batch, if it holds anything, before the other duties. -/
def flush (now : Nat) (w : Writer) (rest : List Duty) : Writer :=
  let w := { w with lastFlush := now, duties := rest }
  if w.batch.isEmpty then w
  else
    let (sqls, batch) := w.batch.take
    let runs := sqls.map fun sql => Duty.run { sql, retries := w.policy.retries }
    { w with batch, duties := runs ++ .flushed w.batch.size :: rest }

/-- It is time to write the batch. -/
def isDue (now : Nat) (w : Writer) : Bool :=
  w.deadline ≤ now || w.policy.limit ≤ w.batch.size

/-- A step of a writer that has nothing left to do but look at its queue. -/
def look? (now : Nat) (w : Writer) : Option (Writer × List Note) :=
  match w.queue with
  | r :: rest => some ({ w with queue := rest }.accept r)
  | [] =>
    if w.closing then some ({ w with duties := [.flush, .leave] }, [])
    else if w.deadline ≤ now then some ({ w with duties := [.review] }, [])
    else none

/-- A step of a writer that runs a statement. -/
def runStep? (now : Nat) (w : Writer) (q : Store.Query) (rest : List Duty) (t : Store) :
    Option Turn :=
  match q.stage with
  | .finished _ => some { writer := { w with duties := rest }, store := t }
  | .crashed =>
    some
      { writer := { w with phase := .crashed, queue := [], batch := {}, duties := [] }
        store := t }
  | _ =>
    (q.step? w.policy.pauses now w.session t).map fun (q, e) =>
      { writer := { w with session := e.session, duties := .run q :: rest }
        store := e.store, notes := e.notes }

/-- One step of a writer, unless it waits or has left. -/
def step? (now : Nat) (w : Writer) (t : Store) : Option Turn :=
  if w.isClosed then none
  else
    match w.duties with
    | [] => (w.look? now).map fun (writer, notes) => { writer, store := t, notes }
    | .start :: rest =>
      let e := w.session.connect t
      some
        { writer := { w with session := e.session, duties := rest }, store := e.store
          notes := .writerStarted w.id :: e.notes }
    | .run q :: rest => w.runStep? now q rest t
    | .flush :: rest => some { writer := w.flush now rest, store := t }
    | .flushed records :: rest =>
      some
        { writer := { w with duties := rest }, store := t
          notes := [.batchFlushed w.id records] }
    | .review :: rest =>
      some
        { writer := { w with duties := if w.isDue now then .flush :: rest else rest }
          store := t }
    | .leave :: _ =>
      some
        { writer := { w with session := w.session.disconnect, duties := [], phase := .gone }
          store := t, notes := [.writerStopped w.id] }

/-- The time a writer waits for, if nothing else happens to it. -/
def wake? (w : Writer) : Option Nat :=
  if w.isClosed then none
  else
    match w.duties with
    | .run q :: _ => q.wake?
    | [] => some w.deadline
    | _ => none

end Writer

end BmpFeed
