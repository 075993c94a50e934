import BmpFeed.Proofs.Clock
import BmpFeed.Proofs.Writer.Compression
import BmpFeed.Proofs.Writer.Ledger
import BmpFeed.Writer.Bench

/-!
# The diary of a writer

`Diary` holds of everything that can happen to a writer, as `Run` does, and writes down what the
events of a run leave out: when the writer took a request, at which points it flushed its batch,
whether or not there was anything to write, and how it stood when it came back to its queue.
`Kept` relates the batch of a writer at work to its diary.
-/

namespace BmpFeed.Writer

/-- A line of a diary. -/
inductive Entry
  /-- The writer took a request out of its queue. -/
  | took (now : Nat) (r : Request)
  /-- The writer flushed a batch with this many records, and has these statements to run for it. -/
  | flush (now records : Nat) (sqls : List String)
  /-- The writer came to its queue with this batch. -/
  | top (now : Nat) (batch : Batch) (lastFlush : Nat)
  deriving DecidableEq, Repr

/-- The writer is at the top of its loop: it works, and has nothing left to do but look at its
queue. -/
def isAtTop (w : Writer) : Bool := w.phase = .working ∧ w.duties = []

/-- What a step from `w` to `w'` does with requests and with the batch. -/
def acts (now : Nat) (w w' : Writer) : List Entry :=
  match w.duties with
  | [] => (w.queue.head?.map (Entry.took now)).toList
  | .flush :: _ => [.flush now w.batch.size ((unasked w'.duties).map Prod.fst)]
  | _ => []

/-- What the diary says of a writer after a step. -/
def arrival (now : Nat) (w : Writer) : List Entry :=
  if w.isAtTop then [.top now w.batch w.lastFlush] else []

/-- The runs of a writer, with their diaries and the time. -/
inductive Diary (policy : Policy) (capacity : Nat) : List Entry → Nat → Writer → Prop
  | hire (id now : Nat) (t : Store) : Diary policy capacity [] now (hire id policy capacity now t).1
  | step {log : List Entry} {now : Nat} {w : Writer} {t : Store} {turn : Turn} :
      Diary policy capacity log now w → w.step? now t = some turn →
        Diary policy capacity (log ++ acts now w turn.writer ++ arrival now turn.writer) now
          turn.writer
  | send {log : List Entry} {now : Nat} {w w' : Writer} {r : Request} :
      Diary policy capacity log now w → w.closing = false → w.send? r = some w' →
        Diary policy capacity log now w'
  | shut {log : List Entry} {now : Nat} {w : Writer} :
      Diary policy capacity log now w → Diary policy capacity log now w.shut
  | wait {log : List Entry} {now now' : Nat} {w : Writer} :
      Diary policy capacity log now w → now ≤ now' → Diary policy capacity log now' w

variable {p : Policy} {capacity : Nat} {log : List Entry} {es : List Event} {now : Nat}
  {w w' : Writer} {t : Store}

theorem Diary.run (h : Diary p capacity log now w) : ∃ es, Run p capacity es now w := by
  induction h with
  | hire id now t => exact ⟨_, .hire id now t⟩
  | step _ hs ih => obtain ⟨es, ih⟩ := ih; exact ⟨_, ih.step hs⟩
  | send _ hopen hs ih => obtain ⟨es, ih⟩ := ih; exact ⟨_, ih.send hopen hs⟩
  | shut _ ih => obtain ⟨es, ih⟩ := ih; exact ⟨_, ih.shut⟩
  | wait _ hle ih => obtain ⟨es, ih⟩ := ih; exact ⟨_, ih.wait hle⟩

/-- Every run of a writer has a diary. -/
theorem Run.diary (h : Run p capacity es now w) : ∃ log, Diary p capacity log now w := by
  induction h with
  | hire id now t => exact ⟨_, .hire id now t⟩
  | step _ hs ih => obtain ⟨log, ih⟩ := ih; exact ⟨_, ih.step hs⟩
  | send _ hopen hs ih => obtain ⟨log, ih⟩ := ih; exact ⟨_, ih.send hopen hs⟩
  | shut _ ih => obtain ⟨log, ih⟩ := ih; exact ⟨_, ih.shut⟩
  | wait _ hle ih => obtain ⟨log, ih⟩ := ih; exact ⟨_, ih.wait hle⟩

/-! ## Views of a diary -/

/-- The batched requests that were taken since the last flush, with their times. -/
def sinceFlush (log : List Entry) : List (Nat × Request) :=
  log.foldl (fun seg e =>
    match e with
    | .took now r => if r.batchable then seg ++ [(now, r)] else seg
    | .flush .. => []
    | .top .. => seg) []

/-- The batched requests that were taken since a flush last had anything to write. -/
def sinceWritten (log : List Entry) : List Request :=
  log.foldl (fun seg e =>
    match e with
    | .took _ r => if r.batchable then seg ++ [r] else seg
    | .flush _ records _ => if records = 0 then seg else []
    | .top .. => seg) []

section Views

variable (log : List Entry)

@[simp] theorem sinceFlush_took (now : Nat) (r : Request) :
    sinceFlush (log ++ [.took now r]) =
      if r.batchable then sinceFlush log ++ [(now, r)] else sinceFlush log := by
  simp [sinceFlush]

@[simp] theorem sinceFlush_flush (now records : Nat) (sqls : List String) :
    sinceFlush (log ++ [.flush now records sqls]) = [] := by
  simp [sinceFlush]

@[simp] theorem sinceFlush_top (now : Nat) (b : Batch) (lastFlush : Nat) :
    sinceFlush (log ++ [.top now b lastFlush]) = sinceFlush log := by
  simp [sinceFlush]

@[simp] theorem sinceWritten_took (now : Nat) (r : Request) :
    sinceWritten (log ++ [.took now r]) =
      if r.batchable then sinceWritten log ++ [r] else sinceWritten log := by
  simp [sinceWritten]

@[simp] theorem sinceWritten_flush (now records : Nat) (sqls : List String) :
    sinceWritten (log ++ [.flush now records sqls]) =
      if records = 0 then sinceWritten log else [] := by
  simp [sinceWritten]

@[simp] theorem sinceWritten_top (now : Nat) (b : Batch) (lastFlush : Nat) :
    sinceWritten (log ++ [.top now b lastFlush]) = sinceWritten log := by
  simp [sinceWritten]

end Views

/-- Something holds of every line of a diary and what stands before it. -/
def Each (P : List Entry → Entry → Prop) (log : List Entry) : Prop :=
  ∀ before e later, log = before ++ e :: later → P before e

namespace Each

variable {P : List Entry → Entry → Prop}

theorem nil : Each P [] := fun before e later h => by simp at h

theorem snoc (h : Each P log) {e : Entry} (he : P log e) : Each P (log ++ [e]) := by
  intro before e' later hsplit
  rcases later.eq_nil_or_concat with rfl | ⟨later, e'', rfl⟩
  · obtain ⟨rfl, hlast⟩ := List.append_inj' hsplit rfl
    obtain rfl := List.head_eq_of_cons_eq hlast
    exact he
  · rw [List.concat_eq_append, ← List.cons_append, ← List.append_assoc] at hsplit
    exact h before e' later (List.append_inj' hsplit rfl).1

end Each

/-! ## The batch and the diary -/

section Acts

variable {d : Duty} {rest : List Duty}

theorem acts_took {r : Request} {queue : List Request} (hd : w.duties = [])
    (hq : w.queue = r :: queue) : acts now w w' = [.took now r] := by
  unfold acts
  rw [hd, hq]
  rfl

theorem append_acts_idle (hd : w.duties = []) (hq : w.queue = []) :
    log ++ acts now w w' = log := by
  have hacts : acts now w w' = [] := by
    unfold acts
    rw [hd, hq]
    rfl
  rw [hacts, List.append_nil]

theorem acts_flush (hd : w.duties = .flush :: rest) :
    acts now w w' = [.flush now w.batch.size ((unasked w'.duties).map Prod.fst)] := by
  unfold acts
  rw [hd]

theorem append_acts_of_head (hd : w.duties = d :: rest) (hne : d ≠ .flush) :
    log ++ acts now w w' = log := by
  have hacts : acts now w w' = [] := by
    unfold acts
    rw [hd]
    cases d <;> first | rfl | exact absurd rfl hne
  rw [hacts, List.append_nil]

end Acts

/-- How a writer at work stands to its diary. -/
structure Kept (p : Policy) (log : List Entry) (now : Nat) (w : Writer) : Prop where
  policy_eq : w.policy = p
  agenda : Agenda w.duties
  batch_eq : w.batch = .ofRequests (sinceWritten log)
  /-- What was not written when it was flushed carries nothing. -/
  held : ∃ seg, sinceWritten log = seg ++ (sinceFlush log).map Prod.snd ∧
    ∀ r ∈ seg, r.values.entries = []
  lastFlush_le : w.lastFlush ≤ now
  /-- What was taken since the last flush was taken after it. -/
  taken : ∀ x ∈ sinceFlush log, w.lastFlush ≤ x.1

namespace Kept

theorem hire (id capacity now : Nat) (t : Store) :
    Kept p [] now (Writer.hire id p capacity now t).1 where
  policy_eq := rfl
  agenda := .start
  batch_eq := rfl
  held := ⟨[], rfl, by simp⟩
  lastFlush_le := Nat.le_refl now
  taken := by simp [sinceFlush]

/-- A step that neither takes a request nor flushes. -/
theorem go_on (h : Kept p log now w) {session : Store.Session} {ds : List Duty} {phase : Phase}
    (hagenda : Agenda ds) : Kept p log now { w with session, duties := ds, phase } :=
  { h with agenda := hagenda }

theorem take (h : Kept p log now w) {r : Request} {queue : List Request} :
    Kept p (log ++ [.took now r]) now (({ w with queue } : Writer).accept r).1 := by
  obtain ⟨seg, hseg, hnil⟩ := h.held
  unfold accept
  by_cases hb : r.batchable = true
  · have hbatch : w.batch.merge r = .ofRequests (sinceWritten (log ++ [.took now r])) := by
      rw [sinceWritten_took, if_pos hb, Batch.ofRequests_snoc, h.batch_eq]
    have hheld : ∃ seg, sinceWritten (log ++ [.took now r]) =
        seg ++ (sinceFlush (log ++ [.took now r])).map Prod.snd ∧
          ∀ r ∈ seg, r.values.entries = [] := by
      refine ⟨seg, ?_, hnil⟩
      rw [sinceWritten_took, sinceFlush_took, if_pos hb, if_pos hb, hseg, List.map_append,
        List.append_assoc]
      rfl
    have htaken : ∀ x ∈ sinceFlush (log ++ [.took now r]), w.lastFlush ≤ x.1 := by
      rw [sinceFlush_took, if_pos hb]
      intro x hx
      rcases List.mem_append.1 hx with hx | hx
      · exact h.taken x hx
      · obtain rfl := List.mem_singleton.1 hx
        exact h.lastFlush_le
    rw [if_pos hb]
    dsimp only
    split_ifs
    · exact ⟨h.policy_eq, .flush .review, hbatch, hheld, h.lastFlush_le, htaken⟩
    · exact ⟨h.policy_eq, .running (.errand .review), hbatch, hheld, h.lastFlush_le, htaken⟩
  · rw [if_neg hb]
    refine ⟨h.policy_eq, .running (.run _ (.errand .review)), ?_, ⟨seg, ?_, hnil⟩,
      h.lastFlush_le, ?_⟩
    · rw [sinceWritten_took, if_neg hb]
      exact h.batch_eq
    · rw [sinceWritten_took, sinceFlush_took, if_neg hb, if_neg hb]
      exact hseg
    · rw [sinceFlush_took, if_neg hb]
      exact h.taken

/-- A flush that has nothing to write leaves the batch as it is, with the templates of all that came
since something was written. -/
theorem skip (h : Kept p log now w) (hb : w.batch.isEmpty = true) {ds : List Duty}
    (hagenda : Agenda ds) (sqls : List String) :
    Kept p (log ++ [.flush now w.batch.size sqls]) now
      { w with lastFlush := now, duties := ds } where
  policy_eq := h.policy_eq
  agenda := hagenda
  batch_eq := by
    rw [sinceWritten_flush, if_pos (of_decide_eq_true hb)]
    exact h.batch_eq
  held := by
    refine ⟨sinceWritten log, ?_, Batch.isEmpty_ofRequests.1 (h.batch_eq ▸ hb)⟩
    rw [sinceWritten_flush, if_pos (of_decide_eq_true hb), sinceFlush_flush, List.map_nil,
      List.append_nil]
  lastFlush_le := Nat.le_refl now
  taken := by simp

theorem write (h : Kept p log now w) (hb : w.batch.isEmpty = false) {ds : List Duty}
    (hagenda : Agenda ds) (sqls : List String) :
    Kept p (log ++ [.flush now w.batch.size sqls]) now
      { w with lastFlush := now, batch := {}, duties := ds } where
  policy_eq := h.policy_eq
  agenda := hagenda
  batch_eq := by
    rw [sinceWritten_flush, if_neg (of_decide_eq_false hb)]
    rfl
  held := by
    refine ⟨[], ?_, by simp⟩
    rw [sinceWritten_flush, if_neg (of_decide_eq_false hb), sinceFlush_flush]
    rfl
  lastFlush_le := Nat.le_refl now
  taken := by simp

/-- What a step of a writer that goes on working preserves. -/
theorem move (h : Kept p log now w) (hphase' : w'.phase = .working) (m : Move now w t es w') :
    Kept p (log ++ acts now w w') now w' := by
  have hagenda := h.agenda
  cases m with
  | take hd hq =>
    rw [acts_took hd hq]
    exact h.take
  | skip hd hb =>
    rw [hd] at hagenda
    rw [acts_flush hd]
    exact h.skip hb (.running (.errand hagenda.of_flush)) _
  | write hd hb =>
    rw [hd] at hagenda
    rw [acts_flush hd]
    exact h.write hb (.running (.runs _ _ (.flushed _ hagenda.of_flush))) _
  | finish hd hq hc =>
    rw [append_acts_idle hd hq]
    exact h.go_on (.flush .leave)
  | expire hd hq hc hdl =>
    rw [append_acts_idle hd hq]
    exact h.go_on (.running (.errand .review))
  | start session hd =>
    rw [hd] at hagenda
    obtain rfl := hagenda.of_start
    rw [append_acts_of_head hd (by simp)]
    exact h.go_on (.running (.errand .nil))
  | ask session hd hs =>
    rw [hd] at hagenda
    rw [append_acts_of_head hd (by simp)]
    exact h.go_on (.running (.run _ hagenda.of_run))
  | progress session hd hs hfin hsql hs' hfin' =>
    rw [hd] at hagenda
    rw [append_acts_of_head hd (by simp)]
    exact h.go_on (.running (.run _ hagenda.of_run))
  | ran session hd hs =>
    rw [hd] at hagenda
    rw [append_acts_of_head hd (by simp)]
    exact h.go_on (.running (.run _ hagenda.of_run))
  | answer hd hs =>
    rw [hd] at hagenda
    rw [append_acts_of_head hd (by simp)]
    exact h.go_on (.running hagenda.of_run)
  | written hd =>
    rw [hd] at hagenda
    rw [append_acts_of_head hd (by simp)]
    exact h.go_on (.running (.errand hagenda.of_flushed))
  | review hd =>
    rw [hd] at hagenda
    obtain rfl := hagenda.of_review
    rw [append_acts_of_head hd (by simp)]
    split_ifs
    · exact h.go_on (.flush .nil)
    · exact h.go_on (.running (.errand .nil))
  | die hd hs => exact absurd hphase' (by simp)
  | leave hd => exact absurd hphase' (by simp)

/-- Coming to the queue changes nothing. -/
theorem arrive (h : Kept p log now w) : Kept p (log ++ arrival now w) now w := by
  unfold arrival
  split_ifs
  · exact
      { h with
        batch_eq := by rw [sinceWritten_top]; exact h.batch_eq
        held := by rw [sinceWritten_top, sinceFlush_top]; exact h.held
        taken := by rw [sinceFlush_top]; exact h.taken }
  · rw [List.append_nil]
    exact h

theorem send (h : Kept p log now w) {r : Request} (hs : w.send? r = some w') :
    Kept p log now w' := by
  obtain ⟨-, -, rfl⟩ := send?_spec hs
  exact { h with }

theorem wait (h : Kept p log now w) {now' : Nat} (hle : now ≤ now') : Kept p log now' w :=
  { h with lastFlush_le := Nat.le_trans h.lastFlush_le hle }

end Kept

theorem Diary.kept (h : Diary p capacity log now w) (hphase : w.phase = .working) :
    Kept p log now w := by
  induction h with
  | hire id now t => exact .hire id capacity now t
  | step _ hs ih => exact ((ih (working_of_step? hs)).move hphase (move_of_step? hs)).arrive
  | send _ hopen hs ih => exact (ih (send?_spec hs).1).send hs
  | shut _ ih => exact { ih hphase with }
  | wait _ hle ih => exact (ih hphase).wait hle

/-! ## Flushes -/

theorem writer_of_flush {turn : Turn} {rest : List Duty} (hs : w.step? now t = some turn)
    (hd : w.duties = .flush :: rest) : turn.writer = w.flush now rest := by
  have hopen : ¬w.isClosed = true := by simp [isClosed, working_of_step? hs]
  unfold step? at hs
  rw [if_neg hopen] at hs
  simp only [hd, Option.some.injEq] at hs
  rw [← hs]

/-- A flush has the statements to run to which the requests since the last writing come. -/
theorem Kept.texts_eq (h : Kept p log now w) {rest : List Duty} (hd : w.duties = .flush :: rest) :
    (unasked (w.flush now rest).duties).map Prod.fst = Segment.texts (sinceWritten log) := by
  have hagenda := h.agenda
  rw [hd] at hagenda
  have hrest : unasked rest = [] := hagenda.of_flush.unasked
  have htexts : w.batch.statements = Segment.texts (sinceWritten log) := by
    rw [h.batch_eq, Batch.statements_ofRequests]
  rw [← htexts]
  unfold Writer.flush
  dsimp only
  split_ifs with hb
  · have hnil : Segment.texts (sinceWritten log) = [] := by
      rw [Segment.texts, Segment.templates_eq_nil, List.map_nil]
      exact Batch.isEmpty_ofRequests.1 (h.batch_eq ▸ hb)
    rw [hrest, htexts, hnil]
    rfl
  · have htail : unasked (.flushed w.batch.size :: rest) = [] := hrest
    show (unasked ((w.batch.statements.map fun sql => .run { sql, retries := w.policy.retries }) ++
      .flushed w.batch.size :: rest)).map Prod.fst = w.batch.statements
    rw [unasked_append, unasked_runs, htail, List.append_nil, List.map_map]
    exact List.map_id _

/-- What holds of every flush and of every arrival at the queue holds of the lines of a diary. -/
theorem Diary.each {P : List Entry → Entry → Prop} (h : Diary p capacity log now w)
    (htook : ∀ log now r, P log (.took now r))
    (hflush : ∀ {log : List Entry} {now : Nat} {w : Writer} {rest : List Duty},
      Diary p capacity log now w → w.phase = .working → w.duties = .flush :: rest →
        P log (.flush now w.batch.size (Segment.texts (sinceWritten log))))
    (htop : ∀ {log : List Entry} {now : Nat} {w w' : Writer} {t : Store} {es : List Event},
      Diary p capacity log now w → w.phase = .working → Move now w t es w' → w'.isAtTop = true →
        P (log ++ acts now w w') (.top now w'.batch w'.lastFlush)) : Each P log := by
  induction h with
  | hire id now t => exact .nil
  | send _ _ _ ih | shut _ ih | wait _ _ ih => exact ih
  | @step log now w t turn hd hs ih =>
    have hphase := working_of_step? hs
    -- a step writes at most two lines: what it did, and that the writer came to its queue
    have hacts : Each P (log ++ acts now w turn.writer) := by
      cases hduties : w.duties with
      | nil =>
        cases hqueue : w.queue with
        | nil => rw [append_acts_idle hduties hqueue]; exact ih
        | cons r queue => rw [acts_took hduties hqueue]; exact ih.snoc (htook _ _ _)
      | cons d rest =>
        by_cases hflushing : d = .flush
        · subst hflushing
          rw [acts_flush hduties, writer_of_flush hs hduties, (hd.kept hphase).texts_eq hduties]
          exact ih.snoc (hflush hd hphase hduties)
        · rw [append_acts_of_head hduties hflushing]
          exact ih
    unfold arrival
    split_ifs with hattop
    · exact hacts.snoc (htop hd hphase (move_of_step? hs) hattop)
    · rw [List.append_nil]
      exact hacts

/-! ## Diaries by the clock -/

/-- A writer by itself with its diary. -/
structure Desk where
  bench : Bench
  log : List Entry := []

namespace Desk

def step? (d : Desk) : Option Desk :=
  d.bench.step?.map fun b =>
    { bench := b
      log := d.log ++ acts d.bench.now d.bench.writer b.writer ++ arrival d.bench.now b.writer }

instance : Timed Desk where
  now d := d.bench.now
  setNow d t := { d with bench := { d.bench with now := t } }
  step? := step?
  wake? d := d.bench.writer.wake?

/-- Puts a request into the queue, if it takes it. -/
def send (d : Desk) (r : Request) : Desk :=
  match d.bench.writer.send? r with
  | some w => { d with bench := { d.bench with writer := w } }
  | none => d

/-- Lets the writer work until a time, and puts some requests into its queue then. -/
def visit (fuel : Nat) (d : Desk) (v : Nat × List Request) : Desk :=
  v.2.foldl send (Timed.advance v.1 fuel d)

/-- A new writer with these visits. -/
def visited (p : Policy) (capacity : Nat) (visits : List (Nat × List Request)) : Desk :=
  visits.foldl (visit 100) { bench := .start p 0 capacity {} }

/-- The diary of the desk is that of its writer, whose queue is open. -/
structure Kept (p : Policy) (capacity : Nat) (d : Desk) : Prop where
  diary : Diary p capacity d.log d.bench.now d.bench.writer
  isOpen : d.bench.writer.closing = false

namespace Kept

variable {d d' : Desk}

theorem start (p : Policy) (id capacity : Nat) (t : Store) :
    Kept p capacity { bench := .start p id capacity t } :=
  ⟨.hire id 0 t, rfl⟩

theorem send (h : d.Kept p capacity) (r : Request) : (d.send r).Kept p capacity := by
  unfold Desk.send
  split
  · rename_i w hs
    exact ⟨h.diary.send h.isOpen hs, (send?_frame hs).2.trans h.isOpen⟩
  · exact h

theorem step (h : d.Kept p capacity) (hs : d.step? = some d') : d'.Kept p capacity := by
  unfold step? Bench.step? at hs
  simp only [Option.map_map, Option.map_eq_some_iff] at hs
  obtain ⟨turn, hturn, rfl⟩ := hs
  exact ⟨h.diary.step hturn, (move_of_step? hturn).frame.2.trans h.isOpen⟩

theorem advance (h : d.Kept p capacity) (target fuel : Nat) :
    (Timed.advance target fuel d).Kept p capacity := by
  refine Timed.advance_induction (P := Desk.Kept p capacity) ?_ ?_ target fuel h
  · exact fun d d' hd hs => hd.step hs
  · exact fun d t hd => ⟨hd.diary.wait (Nat.le_max_right _ _), hd.isOpen⟩

theorem visit (h : d.Kept p capacity) (fuel : Nat) (v : Nat × List Request) :
    (d.visit fuel v).Kept p capacity :=
  List.foldlRecOn v.2 Desk.send (h.advance v.1 fuel) fun _ hd r _ => hd.send r

theorem visited (p : Policy) (capacity : Nat) (visits : List (Nat × List Request)) :
    (Desk.visited p capacity visits).Kept p capacity :=
  List.foldlRecOn visits (Desk.visit 100) (start p 0 capacity {}) fun _ hd v _ => hd.visit 100 v

end Kept

end Desk

/-- A writer that takes a request without rows for the table `u`, and in the window behind it a row
for the table `t` and one for `u`, which it writes when that window ends. -/
def sampleDesk : Desk :=
  .visited .standard 5
    [(0, [rowsOf "u" []]), (80, [rowsOf "t" [("a", "(1)")], rowsOf "u" [("a", "(2)")]]), (160, [])]

theorem diary_sampleDesk : Diary .standard 5 sampleDesk.log 160 sampleDesk.bench.writer := by
  have hnow : sampleDesk.bench.now = 160 := by decide +kernel
  exact hnow ▸ (Desk.Kept.visited _ _ _).diary

end BmpFeed.Writer
