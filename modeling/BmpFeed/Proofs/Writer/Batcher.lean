import BmpFeed.Proofs.Clock
import BmpFeed.Proofs.Writer.Ledger
import BmpFeed.Writer.Bench

/-!
# A writer writes what the plain batcher writes

`Run.refines_batcher` is about every run at whose end the writer has left, whatever the store did,
however long its queries took, and whatever made the writer write a batch. `Bench.run_finish` finds
such runs in a writer with its store and a clock.
-/

namespace BmpFeed.Writer

variable {p : Policy} {capacity : Nat} {es : List Event} {now : Nat} {w : Writer}

/-! ## Runs by the clock -/

namespace Bench

variable {b b' : Bench}

theorem run_step (h : Run p capacity es b.now b.writer) (hs : b.step? = some b') :
    ∃ es', accepted es' = accepted es ∧ Run p capacity es' b'.now b'.writer := by
  unfold step? at hs
  obtain ⟨turn, hturn, rfl⟩ := Option.map_eq_some_iff.1 hs
  refine ⟨_, ?_, h.step hturn⟩
  rw [accepted_append, (move_of_step? hturn).accepted_eq, List.append_nil]

theorem run_finish (done : Bench → Bool) (fuel : Nat) (h : Run p capacity es b.now b.writer) :
    ∃ es', accepted es' = accepted es ∧
      Run p capacity es' (Timed.finish done fuel b).now (Timed.finish done fuel b).writer := by
  refine Timed.finish_induction
    (P := fun b => ∃ es', accepted es' = accepted es ∧ Run p capacity es' b.now b.writer)
    ?_ ?_ done fuel ⟨es, rfl, h⟩
  · rintro b b' ⟨es', hacc, h'⟩ hs
    obtain ⟨es'', hacc', h''⟩ := run_step h' hs
    exact ⟨es'', hacc'.trans hacc, h''⟩
  · rintro b t ⟨es', hacc, h'⟩
    exact ⟨es', hacc, h'.wait (Nat.le_max_right _ _)⟩

end Bench

/-! ## The refinement -/

/-- The queries of a writer that has left are the calls of a plan in which the requests arrive as
its queue took them. Each batched request is in one segment of the plan, and nothing is behind the
last cut. -/
theorem Run.refines_batcher (hrun : Run p capacity es now w) (hfilled : Filled es)
    (hgone : w.phase = .gone) :
    ∃ plan : List Mark,
      arrivals plan = accepted es ∧
      (Outline.ofPlan p.retries plan).segments.flatten = (accepted es).filter Request.batchable ∧
      [] ∉ (Outline.ofPlan p.retries plan).segments ∧
      (Outline.ofPlan p.retries plan).rest = [] ∧
      queried es = (Outline.ofPlan p.retries plan).calls.map fun c => (c.1.sql, c.2) := by
  have hdied : .died ∉ es := fun hmem =>
    absurd ((hrun.crashed_of_died hmem).symm.trans hgone) (by simp)
  have hledger := hrun.ledger hfilled hdied
  obtain ⟨hduties, -, hqueue, hrest⟩ := hledger.left hgone
  have harr : arrivals (plan es) = accepted es := by
    rw [hledger.books.queue_eq, hqueue, List.append_nil]
  have hsegments := Outline.flatten_segments p.retries (plan es)
  have hasked := hledger.account.asked
  rw [hduties] at hasked
  refine ⟨plan es, harr, ?_, hledger.books.cuts, hrest, ?_⟩
  · rw [← harr, ← hsegments]
    exact (List.append_nil _).symm.trans (congrArg _ hrest.symm)
  · exact (List.append_nil _).symm.trans hasked

/-- A writer whose queue took a batched request and one that is not, and was closed then. -/
def sampleBench : Bench :=
  let row : Request :=
    { key := "k", category := .general, opening := "insert into t values ", closing := ""
      values := .ofList [("a", "(1)")], batchable := true }
  let b := Bench.start .standard 0 2 {}
  { b with writer :=
      { b.writer with queue := [row, .immediate "k" .general "delete from u"] }.shut }

theorem refines_batcher_sample :
    ∃ es now w, Run .standard 2 es now w ∧ Filled es ∧ w.phase = .gone ∧
      accepted es = sampleBench.writer.queue ∧
      ∃ plan : List Mark,
        arrivals plan = accepted es ∧
        (Outline.ofPlan Policy.standard.retries plan).segments.flatten =
          (accepted es).filter Request.batchable ∧
        [] ∉ (Outline.ofPlan Policy.standard.retries plan).segments ∧
        (Outline.ofPlan Policy.standard.retries plan).rest = [] ∧
        queried es =
          (Outline.ofPlan Policy.standard.retries plan).calls.map fun c => (c.1.sql, c.2) := by
  have hstart : Run .standard 2 (sampleBench.writer.queue.map .accepted) 0 sampleBench.writer :=
    (((Run.hire 0 0 {}).send rfl rfl).send rfl rfl).shut
  obtain ⟨es, hacc, hrun⟩ :=
    Bench.run_finish (b := sampleBench) (fun b => b.writer.isClosed) 50 hstart
  have hgone :
      (Timed.finish (fun b : Bench => b.writer.isClosed) 50 sampleBench).writer.phase = .gone := by
    decide +kernel
  have hqueue : accepted es = sampleBench.writer.queue := hacc.trans rfl
  have hfilled : Filled es := by
    unfold Filled
    rw [hqueue]
    decide
  exact ⟨es, _, _, hrun, hfilled, hgone, hqueue, hrun.refines_batcher hfilled hgone⟩

end BmpFeed.Writer
