import BmpFeed.Proofs.Writer.Diary

/-!
# What a flush writes

A flush that finds no record leaves the batch as it is, with the groups of requests that carried
nothing. So the rows of a flush are those of the requests since the flush before it, but the order
of its statements is that in which their templates came since a flush last had anything to write.
Where every batched request carries a fragment this is what a new batch gives; in general it is not.
-/

namespace BmpFeed.Writer

/-! ## Flushes -/

/-- What a flush writes after the diary `before`. -/
structure Flushes (before : List Entry) (sqls : List String) : Prop where
  /-- The rows are those of the requests since the last flush, in statements that come in the order
  of the requests since something was written. -/
  texts_eq : sqls = (Segment.templates (sinceWritten before)).map fun g =>
    (Segment.gathered ((sinceFlush before).map Prod.snd) g).sql
  /-- Only requests that carry nothing can be between the two. -/
  held : ∃ seg, sinceWritten before = seg ++ (sinceFlush before).map Prod.snd ∧
    ∀ r ∈ seg, r.values.entries = []
  /-- The texts are those that a new batch gives for the requests since the last flush. -/
  perm : sqls.Perm (Batch.ofRequests ((sinceFlush before).map Prod.snd)).statements
  /-- Where every batched request carries a fragment, so is their order. -/
  fresh : (∀ r ∈ sinceWritten before, r.values.entries ≠ []) →
    sqls = (Batch.ofRequests ((sinceFlush before).map Prod.snd)).statements

theorem Kept.flushes {p : Policy} {log : List Entry} {now : Nat} {w : Writer}
    (h : Kept p log now w) : Flushes log (Segment.texts (sinceWritten log)) := by
  obtain ⟨seg, hseg, hnil⟩ := h.held
  have htexts : Segment.texts (sinceWritten log) = (Segment.templates (sinceWritten log)).map
      fun g => (Segment.gathered ((sinceFlush log).map Prod.snd) g).sql := by
    unfold Segment.texts
    rw [hseg]
    simp only [Segment.gathered_append_of_nil hnil]
  refine ⟨htexts, ⟨seg, hseg, hnil⟩, ?_, fun hfilled => ?_⟩
  · rw [htexts, Batch.statements_ofRequests, hseg]
    exact (Segment.templates_perm hnil).map _
  · have hnone : seg = [] := by
      refine List.eq_nil_iff_forall_not_mem.2 fun r hr => ?_
      exact hfilled r (hseg ▸ List.mem_append_left _ hr) (hnil r hr)
    rw [Batch.statements_ofRequests, hseg, hnone, List.nil_append]

variable {p : Policy} {capacity : Nat} {log before later : List Entry} {now time records : Nat}
  {w : Writer} {sqls : List String}

/-- A flush in a diary writes what it has to; other lines are free. -/
def WritesRows (before : List Entry) : Entry → Prop
  | .flush _ _ sqls => Flushes before sqls
  | .took .. | .top .. => True

/-- Every flush writes the rows of the requests since the flush before it, in statements that come
in the order of the requests since something was written. -/
theorem Diary.flush_texts (h : Diary p capacity log now w)
    (hsplit : log = before ++ .flush time records sqls :: later) : Flushes before sqls := by
  have heach : Each WritesRows log := by
    refine h.each (fun _ _ _ => trivial) ?_ (fun _ _ _ _ => trivial)
    intro log now w rest hdiary hphase hd
    exact (hdiary.kept hphase).flushes
  exact heach before _ later hsplit

/-- The row for `u` is written first, as a request for that table came before the last flush; a new
batch writes it last. -/
theorem flush_order_leaks :
    ∃ before time later, Diary .standard 5 sampleDesk.log 160 sampleDesk.bench.writer ∧
      sampleDesk.log = before ++
        .flush time 2 ["insert into u values (2)", "insert into t values (1)"] :: later ∧
      (sinceFlush before).map Prod.snd =
        [rowsOf "t" [("a", "(1)")], rowsOf "u" [("a", "(2)")]] ∧
      (Batch.ofRequests ((sinceFlush before).map Prod.snd)).statements =
        ["insert into t values (1)", "insert into u values (2)"] :=
  ⟨sampleDesk.log.take 9, 150, sampleDesk.log.drop 10, diary_sampleDesk, by decide +kernel,
    by decide +kernel, by decide +kernel⟩

theorem flush_texts_sample :
    ∃ before time sqls later, Diary .standard 5 sampleDesk.log 160 sampleDesk.bench.writer ∧
      sampleDesk.log = before ++ .flush time 2 sqls :: later ∧ Flushes before sqls ∧
      sqls = ["insert into u values (2)", "insert into t values (1)"] := by
  have hsplit : sampleDesk.log = sampleDesk.log.take 9 ++
      .flush 150 2 ["insert into u values (2)", "insert into t values (1)"] ::
        sampleDesk.log.drop 10 := by decide +kernel
  exact ⟨_, _, _, _, diary_sampleDesk, hsplit, diary_sampleDesk.flush_texts hsplit, rfl⟩

end BmpFeed.Writer
