import BmpFeed.Proofs.Writer.Plan

/-!
# Runs of a writer

`Run` holds of everything that can happen to a writer: its own steps, with the store in any state at
each of them, requests that its queue takes while it is open, the closing of the queue, and time
that passes. The events of a run are what it shows of the requests and of the statements.
-/

namespace BmpFeed.Writer

/-- What a run of a writer shows. -/
inductive Event
  /-- The queue took a request. -/
  | accepted (r : Request)
  /-- The writer took a request out of its queue. -/
  | took (r : Request)
  /-- The writer turned this batch into statements. -/
  | flushed (b : Batch)
  /-- The writer began a query. -/
  | queried (sql : String) (retries : Nat)
  /-- The store ran the statement of the query. -/
  | executed (sql : String)
  /-- The query ended without success. -/
  | dropped (sql : String)
  /-- A statement ended the writer. -/
  | died
  deriving DecidableEq, Repr

/-- What the next step of a query of the writer shows. -/
def queryEvents (w : Writer) (q : Store.Query) (t : Store) : List Event :=
  match q.stage with
  | .opening => [.queried q.sql q.retries]
  | .executing _ => if (t.run w.session.id q.sql).1 = none then [.executed q.sql] else []
  | .finished ok => if ok then [] else [.dropped q.sql]
  | .crashed => [.died]
  | _ => []

/-- What the next step of the writer shows. -/
def events (w : Writer) (t : Store) : List Event :=
  match w.duties with
  | [] => (w.queue.head?.map Event.took).toList
  | .flush :: _ => if w.batch.isEmpty then [] else [.flushed w.batch]
  | .run q :: _ => w.queryEvents q t
  | _ => []

/-- The runs of a writer, with their events and the time. -/
inductive Run (policy : Policy) (capacity : Nat) : List Event → Nat → Writer → Prop
  | hire (id now : Nat) (t : Store) : Run policy capacity [] now (hire id policy capacity now t).1
  | step {es : List Event} {now : Nat} {w : Writer} {t : Store} {turn : Turn} :
      Run policy capacity es now w → w.step? now t = some turn →
        Run policy capacity (es ++ w.events t) now turn.writer
  | send {es : List Event} {now : Nat} {w w' : Writer} {r : Request} :
      Run policy capacity es now w → w.closing = false → w.send? r = some w' →
        Run policy capacity (es ++ [.accepted r]) now w'
  | shut {es : List Event} {now : Nat} {w : Writer} :
      Run policy capacity es now w → Run policy capacity es now w.shut
  | wait {es : List Event} {now now' : Nat} {w : Writer} :
      Run policy capacity es now w → now ≤ now' → Run policy capacity es now' w

/-! ## Views of the events -/

/-- The requests that the queue took. -/
def accepted (es : List Event) : List Request :=
  es.filterMap fun | .accepted r => some r | _ => none

/-- The statements that the writer gave to the store, with their attempts. -/
def queried (es : List Event) : List (String × Nat) :=
  es.filterMap fun | .queried sql retries => some (sql, retries) | _ => none

/-- The statements that the store ran for the writer. -/
def executed (es : List Event) : List String :=
  es.filterMap fun | .executed sql => some sql | _ => none

/-- The batches that the writer wrote. -/
def flushed (es : List Event) : List Batch :=
  es.filterMap fun | .flushed b => some b | _ => none

/-- The requests that the writer took, with a cut for each batch that it wrote. -/
def plan (es : List Event) : List Mark :=
  es.filterMap fun | .took r => some (.arrival r) | .flushed _ => some .cut | _ => none

/-- The statements that the writer made of its requests and batches. -/
def begun (es : List Event) : List Statement :=
  es.flatMap fun
    | .took r => if r.batchable then [] else [r.statement]
    | .flushed b => b.writing
    | _ => []

section Views

variable (es es' : List Event)

@[simp] theorem accepted_append : accepted (es ++ es') = accepted es ++ accepted es' :=
  List.filterMap_append

@[simp] theorem queried_append : queried (es ++ es') = queried es ++ queried es' :=
  List.filterMap_append

@[simp] theorem executed_append : executed (es ++ es') = executed es ++ executed es' :=
  List.filterMap_append

@[simp] theorem flushed_append : flushed (es ++ es') = flushed es ++ flushed es' :=
  List.filterMap_append

@[simp] theorem plan_append : plan (es ++ es') = plan es ++ plan es' :=
  List.filterMap_append

@[simp] theorem begun_append : begun (es ++ es') = begun es ++ begun es' :=
  List.flatMap_append

end Views

end BmpFeed.Writer
