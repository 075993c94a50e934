import BmpFeed.Proofs.Intake.Tape

/-!
# Watched runs

The journal of an intake shows neither its calls on the bus nor what the store answers to it. A
watched run shows these as well, in one order with everything else, and says what may happen to the
bus from outside. `Watched.journal` and `Journal.watched` say that watched runs and journals are the
same runs where anything may happen.
-/

namespace BmpFeed.Intake

/-- What can be seen of a run. -/
inductive Sight
  | noted (e : Entry)
  /-- A call on the bus and its fault; a poll also says how many messages it brought. -/
  | called (c : Feed.Call) (messages : Nat) (fault : Option Feed.Fault)
  /-- The store answered these rows when the routers were read. -/
  | refreshed (rows : List Row)
  /-- A check of the fleet ended. -/
  | checked

/-- The calls on the bus. -/
def calls (notes : List Note) : List Sight :=
  notes.filterMap fun | .busCalled c n fault => some (.called c n fault) | _ => none

/-- What a step shows besides its entries in the journal and its calls. -/
def findings (i : Intake) (t : Store) : List Sight :=
  match i.tasks with
  | .refresh :: _ => [.refreshed (i.session.select t Routers.refreshQuery).1]
  | .checked :: _ => [.checked]
  | _ => []

/-- What a step shows. -/
def sights (now : Nat) (i : Intake) (t : Store) (turn : Turn) : List Sight :=
  (i.entries now t).map .noted ++ i.findings t ++ calls turn.notes

/-- How a bus may be when an intake opens, and what others may do to it. -/
structure World where
  fresh : Feed.Bus → Prop
  change : Feed.Bus → Feed.Bus → Prop

/-- Anything may happen to the bus. -/
def World.any : World := ⟨fun _ => True, fun _ _ => True⟩

/-- The runs of an intake with some settings, with what can be seen of them and the time. -/
inductive Watched (w : World) (s : Settings) : List Sight → Nat → Intake → Prop
  | open_ (id : Nat) {bus : Feed.Bus} (now : Nat) (t : Store) (h : w.fresh bus) :
      Watched w s [] now (Intake.open_ id s bus now t).1
  | wait {log : List Sight} {now now' : Nat} {i : Intake} :
      Watched w s log now i → now ≤ now' → Watched w s log now' i
  | bus {log : List Sight} {now : Nat} {i : Intake} {bus : Feed.Bus} :
      Watched w s log now i → w.change i.bus bus → Watched w s log now { i with bus }
  | step {log : List Sight} {now : Nat} {i : Intake} {stopping : Bool} {t : Store} {turn : Turn} :
      Watched w s log now i → i.step? now stopping t = some turn →
        Watched w s (log ++ i.sights now t turn) now turn.intake
  | write {log : List Sight} {now : Nat} {i : Intake} {t : Store} {writer : Writer}
      {turn : Writer.Turn} :
      Watched w s log now i → writer ∈ i.dispatch.fleet.writers →
        writer.step? now t = some turn →
        Watched w s (log ++ (writerEntries writer t).map .noted) now
          { i with
            dispatch := { i.dispatch with fleet := i.dispatch.fleet.replace turn.writer } }

/-! ## Journals -/

/-- The entries of the journal. -/
def journalOf (log : List Sight) : List Entry :=
  log.filterMap fun | .noted e => some e | _ => none

@[simp] theorem journalOf_append (log log' : List Sight) :
    journalOf (log ++ log') = journalOf log ++ journalOf log' :=
  List.filterMap_append

@[simp] theorem journalOf_map (es : List Entry) : journalOf (es.map .noted) = es := by
  simp [journalOf, List.filterMap_map]

@[simp] theorem journalOf_calls (notes : List Note) : journalOf (calls notes) = [] := by
  unfold journalOf calls
  rw [List.filterMap_filterMap]
  apply List.filterMap_eq_nil_iff.2
  intro note _
  cases note <;> rfl

@[simp] theorem journalOf_sights (now : Nat) (i : Intake) (t : Store) (turn : Turn) :
    journalOf (i.sights now t turn) = i.entries now t := by
  have hfindings : journalOf (i.findings t) = [] := by
    unfold findings
    split <;> rfl
  simp [sights, hfindings]

variable {w : World} {s : Settings} {log : List Sight} {now : Nat} {i : Intake}

theorem Watched.journal (h : Watched w s log now i) : Journal s (journalOf log) now i := by
  induction h with
  | open_ id now t _ => exact .open_ id _ now t
  | wait _ hle ih => exact ih.wait hle
  | bus _ _ ih => exact ih.bus _
  | step _ hstep ih =>
    rw [journalOf_append, journalOf_sights]
    exact ih.step hstep
  | write _ hw hstep ih =>
    rw [journalOf_append, journalOf_map]
    exact ih.write hw hstep

theorem Journal.watched {es : List Entry} (h : Journal s es now i) :
    ∃ log, journalOf log = es ∧ Watched .any s log now i := by
  induction h with
  | open_ id bus now t => exact ⟨[], rfl, .open_ id now t trivial⟩
  | wait _ hle ih =>
    obtain ⟨log, hlog, hw⟩ := ih
    exact ⟨log, hlog, hw.wait hle⟩
  | bus b _ ih =>
    obtain ⟨log, hlog, hw⟩ := ih
    exact ⟨log, hlog, hw.bus trivial⟩
  | step _ hstep ih =>
    obtain ⟨log, rfl, hw⟩ := ih
    exact ⟨_, by rw [journalOf_append, journalOf_sights], hw.step hstep⟩
  | write _ hmem hstep ih =>
    obtain ⟨log, rfl, hw⟩ := ih
    exact ⟨_, by rw [journalOf_append, journalOf_map], hw.write hmem hstep⟩

/-! ## Where sights come from -/

variable {past later : List Sight} {x : Sight}

/-- The sight came right after those before it. -/
inductive Seen (w : World) (s : Settings) : List Sight → Sight → Prop
  | step {log before after : List Sight} {now : Nat} {i : Intake} {stopping : Bool} {t : Store}
      {turn : Turn} {x : Sight} (h : Watched w s log now i)
      (hstep : i.step? now stopping t = some turn)
      (hsights : i.sights now t turn = before ++ x :: after) : Seen w s (log ++ before) x
  | write {log before after : List Sight} {now : Nat} {i : Intake} {t : Store} {writer : Writer}
      {turn : Writer.Turn} {x : Sight} (h : Watched w s log now i)
      (hw : writer ∈ i.dispatch.fleet.writers) (hstep : writer.step? now t = some turn)
      (hentries : (writerEntries writer t).map .noted = before ++ x :: after) :
      Seen w s (log ++ before) x

/-- Everything that can be seen came with a step. -/
theorem Watched.seen (h : Watched w s log now i) (hlog : log = past ++ x :: later) :
    Seen w s past x := by
  induction h generalizing later with
  | open_ => exact absurd hlog (by simp)
  | wait _ _ ih => exact ih hlog
  | bus _ _ ih => exact ih hlog
  | step hw hstep ih =>
    rcases split_append hlog with ⟨later', hold⟩ | ⟨before, rfl, hsights⟩
    · exact ih hold
    · exact .step hw hstep hsights
  | write hw hmem hstep ih =>
    rcases split_append hlog with ⟨later', hold⟩ | ⟨before, rfl, hentries⟩
    · exact ih hold
    · exact .write hw hmem hstep hentries

/-! ## Watched runs by the clock -/

/-- What the next step of a trace shows. -/
def Trace.sights (x : Trace) : List Sight :=
  match x.intake.step? x.now x.intake.bus.batches.isEmpty x.store with
  | some turn => x.intake.sights x.now x.store turn
  | none => x.entries.map .noted

/-- A trace of an intake with what can be seen of it. -/
structure Reel where
  trace : Trace
  seen : List Sight := []

namespace Reel

/-- An intake that has just been opened on a bus. -/
def start (s : Settings) (bus : Feed.Bus) (t : Store) : Reel := { trace := .start s bus t }

instance : Timed Reel where
  now x := x.trace.now
  setNow x t := { x with trace := { x.trace with now := t } }
  step? x := x.trace.step?.map fun trace => ⟨trace, x.seen ++ x.trace.sights⟩
  wake? x := x.trace.wake?

/-- Goes on for some steps, until the condition holds. -/
def finish (done : Reel → Bool) (fuel : Nat) (x : Reel) : Reel := Timed.finish done fuel x

variable {x x' : Reel}

theorem watched_start (s : Settings) {bus : Feed.Bus} (t : Store) (h : w.fresh bus) :
    Watched w s (start s bus t).seen (start s bus t).trace.now (start s bus t).trace.intake :=
  .open_ 0 0 t h

theorem watched_step (h : Watched w s x.seen x.trace.now x.trace.intake)
    (hs : Timed.step? x = some x') : Watched w s x'.seen x'.trace.now x'.trace.intake := by
  obtain ⟨y, hy, rfl⟩ := Option.map_eq_some_iff.1 hs
  unfold Trace.sights
  dsimp only
  obtain ⟨hnow, ⟨turn, hturn, -, hi⟩ | ⟨hnone, v, turn, hv, hturn, hentries, hi⟩⟩ :=
    Trace.cases_of_step hy
  · rw [hnow, hi, hturn]
    exact h.step hturn
  · rw [hnow, hi, hnone, hentries]
    exact h.write hv hturn

theorem watched_finish (h : Watched w s x.seen x.trace.now x.trace.intake) (done : Reel → Bool)
    (fuel : Nat) :
    Watched w s (finish done fuel x).seen (finish done fuel x).trace.now
      (finish done fuel x).trace.intake := by
  exact Timed.finish_induction
    (P := fun x : Reel => Watched w s x.seen x.trace.now x.trace.intake)
    (fun _ _ h hs => watched_step h hs) (fun _ _ h => h.wait (Nat.le_max_right _ _)) done fuel h

end Reel

end BmpFeed.Intake
