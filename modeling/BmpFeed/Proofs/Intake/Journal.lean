import BmpFeed.Proofs.Intake.Run
import BmpFeed.Proofs.Store.Retry

/-!
# The journal of an intake

The events of a run show nothing of the statements that an intake runs in its own session. A journal
notes these as well, in one order with everything else: which statements a message calls for when it
is taken up, and when the intake begins a query, has its statement run, and ends it. `Journal.run`
and `Run.journal` say that journals and runs are the same runs.
-/

namespace BmpFeed.Intake

/-- What a journal notes. -/
inductive Entry
  | dispatch (e : Dispatch.Event)
  | polled (ms : List Feed.Message)
  /-- The intake took up a message, which calls for these statements in the intake's own session. -/
  | taken (m : Feed.Message) (due : List String)
  /-- The intake began a query in its session. -/
  | asked (sql : String) (retries : Nat)
  /-- The store ran the statement of the query. -/
  | executed (sql : String)
  /-- The query ended after some failed attempts. -/
  | ended (sql : String) (ok : Bool) (failures : Nat)

/-- An event that is not about the intake's own statements. -/
def Event.entry : Event → Entry
  | .dispatch e => .dispatch e
  | .polled ms => .polled ms
  | .received m => .taken m []

/-- The corrective statements for the rows of a message, in the order of the rows. -/
def corrections (t : Routers) (k : Kind) (rows : List Record) : List String :=
  match k with
  | .collector => Correction.ofCollectors rows
  | .router => Routers.corrections (t.apply rows).2
  | .peer => Correction.ofPeers rows
  | _ => []

/-- The statements for a message that is written at once: its insert, then its corrections. -/
def due (i : Intake) (m : Feed.Message) : List String :=
  match Kind.classify m.tag m.topic, Record.decode m.payload with
  | some k, .ok (row :: rows) =>
    if k.isSynchronous then
      (i.insert? k (row :: rows)).toList ++ corrections i.routers k (row :: rows)
    else []
  | _, _ => []

/-- What the next step of a query in the intake's session adds to a journal. -/
def queryEntries (i : Intake) (q : Store.Query) (t : Store) : List Entry :=
  match q.stage with
  | .opening => [.asked q.sql q.retries]
  | .executing _ => if (t.run i.session.id q.sql).1 = none then [.executed q.sql] else []
  | .finished ok => [.ended q.sql ok q.attempt]
  | _ => []

/-- What the next step of the intake adds to a journal. -/
def entries (now : Nat) (i : Intake) (t : Store) : List Entry :=
  match i.tasks with
  | .handle m :: _ =>
    .taken m (i.due m) :: (request? i.mappings m).toList.map fun r => .dispatch (.pushed r)
  | .run q :: _ => i.queryEntries q t
  | _ => (i.events now t).map Event.entry

/-- What a step of a writer adds to a journal. -/
def writerEntries (w : Writer) (t : Store) : List Entry :=
  (w.events t).map fun e => .dispatch (.fleet (.writer w.id e))

/-- The runs of an intake with some settings, with their journals and the time. -/
inductive Journal (s : Settings) : List Entry → Nat → Intake → Prop
  | open_ (id : Nat) (bus : Feed.Bus) (now : Nat) (t : Store) :
      Journal s [] now (Intake.open_ id s bus now t).1
  | wait {log : List Entry} {now now' : Nat} {i : Intake} :
      Journal s log now i → now ≤ now' → Journal s log now' i
  | bus {log : List Entry} {now : Nat} {i : Intake} (bus : Feed.Bus) :
      Journal s log now i → Journal s log now { i with bus }
  | step {log : List Entry} {now : Nat} {i : Intake} {stopping : Bool} {t : Store} {turn : Turn} :
      Journal s log now i → i.step? now stopping t = some turn →
        Journal s (log ++ i.entries now t) now turn.intake
  | write {log : List Entry} {now : Nat} {i : Intake} {t : Store} {w : Writer}
      {turn : Writer.Turn} :
      Journal s log now i → w ∈ i.dispatch.fleet.writers → w.step? now t = some turn →
        Journal s (log ++ writerEntries w t) now
          { i with
            dispatch := { i.dispatch with fleet := i.dispatch.fleet.replace turn.writer } }

/-! ## Views of a journal -/

/-- The events of a journal. -/
def shown (log : List Entry) : List Event :=
  log.flatMap fun
    | .dispatch e => [.dispatch e]
    | .polled ms => [.polled ms]
    | .taken m _ => [.received m]
    | _ => []

/-- The messages that the intake took up, with the statements that they call for. -/
def takings (log : List Entry) : List (Feed.Message × List String) :=
  log.filterMap fun | .taken m due => some (m, due) | _ => none

/-- The statements that the messages call for. -/
def dues (log : List Entry) : List String := (takings log).flatMap Prod.snd

/-- The statements for which the intake began a query. -/
def asked (log : List Entry) : List String :=
  log.filterMap fun | .asked sql _ => some sql | _ => none

/-- The statements that the store ran in the intake's session. -/
def executed (log : List Entry) : List String :=
  log.filterMap fun | .executed sql => some sql | _ => none

/-- The statements whose queries have ended. -/
def ended (log : List Entry) : List String :=
  log.filterMap fun | .ended sql _ _ => some sql | _ => none

/-- The statements whose queries have succeeded. -/
def succeeded (log : List Entry) : List String :=
  log.filterMap fun | .ended sql ok _ => if ok then some sql else none | _ => none

section Views

variable (log log' : List Entry)

@[simp] theorem shown_append : shown (log ++ log') = shown log ++ shown log' :=
  List.flatMap_append

@[simp] theorem takings_append : takings (log ++ log') = takings log ++ takings log' :=
  List.filterMap_append

@[simp] theorem dues_append : dues (log ++ log') = dues log ++ dues log' := by
  simp [dues]

@[simp] theorem asked_append : asked (log ++ log') = asked log ++ asked log' :=
  List.filterMap_append

@[simp] theorem executed_append : executed (log ++ log') = executed log ++ executed log' :=
  List.filterMap_append

@[simp] theorem ended_append : ended (log ++ log') = ended log ++ ended log' :=
  List.filterMap_append

@[simp] theorem succeeded_append : succeeded (log ++ log') = succeeded log ++ succeeded log' :=
  List.filterMap_append

end Views

@[simp] theorem shown_map_entry (es : List Event) : shown (es.map Event.entry) = es := by
  induction es with
  | nil => rfl
  | cons e es ih =>
    rw [List.map_cons, ← List.singleton_append, shown_append, ih]
    cases e <;> rfl

theorem shown_map_dispatch {α : Type} (f : α → Dispatch.Event) (l : List α) :
    shown (l.map fun a => .dispatch (f a)) = l.map fun a => .dispatch (f a) := by
  unfold shown
  rw [List.flatMap_map, List.map_eq_flatMap]

/-- What was noted of messages is what the events show of them. -/
theorem received_shown (log : List Entry) : received (shown log) = (takings log).map Prod.fst := by
  induction log with
  | nil => rfl
  | cons e log ih =>
    rw [← List.singleton_append, shown_append, received_append, takings_append, List.map_append, ih]
    cases e <;> rfl

/-- Entries that are not about the intake's own statements. -/
structure Aloof (log : List Entry) : Prop where
  takings_eq : takings log = []
  asked_eq : asked log = []
  executed_eq : executed log = []
  ended_eq : ended log = []
  succeeded_eq : succeeded log = []

theorem Aloof.append {log log' : List Entry} (h : Aloof log) (h' : Aloof log') :
    Aloof (log ++ log') := by
  constructor
  · rw [takings_append, h.takings_eq, h'.takings_eq, List.append_nil]
  · rw [asked_append, h.asked_eq, h'.asked_eq, List.append_nil]
  · rw [executed_append, h.executed_eq, h'.executed_eq, List.append_nil]
  · rw [ended_append, h.ended_eq, h'.ended_eq, List.append_nil]
  · rw [succeeded_append, h.succeeded_eq, h'.succeeded_eq, List.append_nil]

theorem aloof_map_entry {es : List Event} (h : received es = []) :
    Aloof (es.map Event.entry) := by
  induction es with
  | nil => exact ⟨rfl, rfl, rfl, rfl, rfl⟩
  | cons e es ih =>
    rw [← List.singleton_append, received_append, List.append_eq_nil_iff] at h
    rw [List.map_cons, ← List.singleton_append]
    refine Aloof.append ?_ (ih h.2)
    cases e with
    | received m => exact absurd h.1 (by simp [received])
    | _ => exact ⟨rfl, rfl, rfl, rfl, rfl⟩

theorem aloof_map_dispatch {α : Type} (f : α → Dispatch.Event) (l : List α) :
    Aloof (l.map fun a => .dispatch (f a)) := by
  constructor <;> simp [takings, asked, executed, ended, succeeded, List.filterMap_map]

/-! ## Journals and runs -/

variable {s : Settings} {es : List Event} {log : List Entry} {now : Nat} {i : Intake} {t : Store}

theorem shown_entries (now : Nat) (i : Intake) (t : Store) :
    shown (i.entries now t) = i.events now t := by
  unfold entries
  split
  · rename_i m rest htasks
    unfold events
    rw [htasks, ← List.singleton_append, shown_append, shown_map_dispatch]
    rfl
  · rename_i q rest htasks
    unfold events queryEntries
    rw [htasks]
    split <;> first | rfl | (split_ifs <;> rfl)
  · exact shown_map_entry _

theorem shown_writerEntries (w : Writer) (t : Store) :
    shown (writerEntries w t) =
      (((w.events t).map (.writer w.id)).map .fleet).map .dispatch := by
  rw [writerEntries, shown_map_dispatch, List.map_map, List.map_map]
  rfl

theorem Journal.run (h : Journal s log now i) : Run s (shown log) now i := by
  induction h with
  | open_ id bus now t => exact .open_ id bus now t
  | wait _ hle ih => exact ih.wait hle
  | bus b _ ih => exact ih.bus b
  | step _ hstep ih =>
    rw [shown_append, shown_entries]
    exact ih.step hstep
  | write _ hw hstep ih =>
    rw [shown_append, shown_writerEntries]
    exact ih.write hw hstep

theorem Run.journal (h : Run s es now i) : ∃ log, shown log = es ∧ Journal s log now i := by
  induction h with
  | open_ id bus now t => exact ⟨[], rfl, .open_ id bus now t⟩
  | wait _ hle ih =>
    obtain ⟨log, hlog, hj⟩ := ih
    exact ⟨log, hlog, hj.wait hle⟩
  | bus b _ ih =>
    obtain ⟨log, hlog, hj⟩ := ih
    exact ⟨log, hlog, hj.bus b⟩
  | step _ hstep ih =>
    obtain ⟨log, rfl, hj⟩ := ih
    exact ⟨_, by rw [shown_append, shown_entries], hj.step hstep⟩
  | write _ hw hstep ih =>
    obtain ⟨log, rfl, hj⟩ := ih
    exact ⟨_, by rw [shown_append, shown_writerEntries], hj.write hw hstep⟩

/-! ## Where entries come from -/

/-- An element of a list made of two is in the first or in the second. -/
theorem split_append {α : Type} {l l' past later : List α} {a : α}
    (h : l ++ l' = past ++ a :: later) :
    (∃ later', l = past ++ a :: later') ∨
      ∃ before, past = l ++ before ∧ l' = before ++ a :: later := by
  rcases List.append_eq_append_iff.1 h with ⟨before, hpast, hl'⟩ | ⟨rest, hl, hrest⟩
  · exact .inr ⟨before, hpast, hl'⟩
  · cases rest with
    | nil => exact .inr ⟨[], by simpa using hl.symm, hrest.symm⟩
    | cons b rest =>
      obtain ⟨rfl, -⟩ := List.cons.inj hrest
      exact .inl ⟨rest, hl⟩

/-- An element of a list with a new one at its end is an old one or this. -/
theorem split_snoc {α : Type} {l past later : List α} {a b : α}
    (h : l ++ [a] = past ++ b :: later) :
    (∃ later', l = past ++ b :: later') ∨ (l = past ∧ a = b) := by
  rcases split_append h with hold | ⟨before, rfl, hnew⟩
  · exact .inl hold
  · cases before with
    | nil => exact .inr ⟨(List.append_nil l).symm, (List.cons.inj hnew).1⟩
    | cons c before => exact absurd (List.cons.inj hnew).2 (by simp)

/-- The entry was noted right after those before it. -/
inductive Noted (s : Settings) : List Entry → Entry → Prop
  | step {log before after : List Entry} {now : Nat} {i : Intake} {stopping : Bool} {t : Store}
      {turn : Turn} {e : Entry} (h : Journal s log now i)
      (hstep : i.step? now stopping t = some turn)
      (hentries : i.entries now t = before ++ e :: after) : Noted s (log ++ before) e
  | write {log : List Entry} {now : Nat} {i : Intake} {t : Store} {w : Writer}
      {turn : Writer.Turn} {e : Writer.Event} (h : Journal s log now i)
      (hw : w ∈ i.dispatch.fleet.writers) (hstep : w.step? now t = some turn)
      (hevents : w.events t = [e]) : Noted s log (.dispatch (.fleet (.writer w.id e)))

/-- Every entry of a journal came with a step. -/
theorem Journal.noted {past later : List Entry} {e : Entry} (h : Journal s log now i)
    (hlog : log = past ++ e :: later) : Noted s past e := by
  induction h generalizing later with
  | open_ => exact absurd hlog (by simp)
  | wait _ _ ih => exact ih hlog
  | bus _ _ ih => exact ih hlog
  | @step log now i stopping t turn hj hstep ih =>
    rcases split_append hlog with ⟨later', hold⟩ | ⟨before, rfl, hentries⟩
    · exact ih hold
    · exact .step hj hstep hentries
  | @write log now i t w turn hj hw hstep ih =>
    have hlen := (Writer.move_of_step? hstep).length_le
    unfold writerEntries at hlog
    cases hevents : w.events t with
    | nil =>
      rw [hevents, List.map_nil, List.append_nil] at hlog
      exact ih hlog
    | cons e' es =>
      rw [hevents] at hlog hlen
      obtain rfl : es = [] := List.eq_nil_of_length_eq_zero (by simpa using hlen)
      rcases split_snoc hlog with ⟨later', hold⟩ | ⟨rfl, rfl⟩
      · exact ih hold
      · exact .write hj hw hstep hevents

end BmpFeed.Intake
