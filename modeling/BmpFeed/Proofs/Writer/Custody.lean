import BmpFeed.Proofs.Writer.Latest
import BmpFeed.Proofs.Writer.Origin

/-!
# Where a request is

A request that the queue of a writer took is in the queue, or in the batch, or in a statement that
the store has not run, and then the writer holds it. `Run.landed` is about the only other
possibility: the store has run the statements of the batches that the request was merged into.
-/

namespace BmpFeed

/-- A statement writes a record of the request, under its template. -/
def Statement.Covers (st : Statement) (r : Request) : Prop :=
  st.template = r.template ∧ ∃ v ∈ r.values.entries, v.1 ∈ st.rows.map Prod.fst

namespace Writer

variable {r : Request} {st : Statement} {seg : List Request} {plan : List Mark} {retries : Nat}

/-- Something of the request is on its way to the store. -/
def Holds (w : Writer) (r : Request) : Prop :=
  r ∈ w.queue ∨ (∃ v ∈ r.values.entries, v.1 ∈ (w.batch.fragments r.template).keys) ∨
    ∃ st : Statement, st.sql ∈ unrun w.duties ∧ st.Covers r

/-- The statements that the writer made and the store has not run. -/
def outstanding (es : List Event) : List Statement := (begun es).drop (executed es).length

/-- The writer merged the request into batches, as often as its queue took it, and the store has run
the statements of these batches that write the request. -/
def Landed (es : List Event) (r : Request) : Prop :=
  ∃ segments : List (List Request),
    flushed es = segments.map Batch.ofRequests ∧
    segments.flatten.count r = (accepted es).count r ∧
    ∀ seg ∈ segments, r ∈ seg → ∃ st ∈ Segment.statements seg,
      st.template = r.template ∧ (∀ v ∈ r.values.entries, v.1 ∈ st.rows.map Prod.fst) ∧
      st ∈ ran es ∧ st ∉ outstanding es

/-- A segment writes each of its requests in one statement. -/
theorem Segment.exists_statement (hr : r ∈ seg) :
    ∃ st ∈ statements seg, st.template = r.template ∧
      ∀ v ∈ r.values.entries, v.1 ∈ st.rows.map Prod.fst := by
  refine ⟨⟨r.opening, r.closing, latest (pairs seg r.template)⟩, ?_, rfl, fun v hv => ?_⟩
  · exact List.mem_map.2 ⟨r.template, mem_distinct.2 (List.mem_map_of_mem hr), rfl⟩
  · rw [map_fst_latest, mem_distinct]
    exact List.mem_map_of_mem (mem_pairs.2 ⟨r, hr, rfl, hv⟩)

/-- The statements of the segments are among the calls. -/
theorem Outline.mem_calls (hseg : seg ∈ (ofPlan retries plan).segments)
    (hst : st ∈ Segment.statements seg) : st ∈ (ofPlan retries plan).calls.map Prod.fst := by
  induction plan using List.reverseRecOn with
  | nil => exact absurd hseg (by simp [ofPlan])
  | append_singleton plan m ih =>
    rw [ofPlan_snoc] at hseg ⊢
    cases m with
    | arrival r =>
      unfold next at hseg ⊢
      dsimp only at hseg ⊢
      split_ifs at hseg ⊢
      · exact ih hseg
      · rw [List.map_append]
        exact List.mem_append_left _ (ih hseg)
    | cut =>
      rw [next, List.map_append, List.mem_append]
      rcases List.mem_append.1 hseg with hseg | hseg
      · exact .inl (ih hseg)
      · rw [List.mem_singleton.1 hseg] at hst
        exact .inr (by simpa [Function.comp_def] using hst)

/-- The records of the requests behind the last cut are in the batch. -/
theorem Batch.mem_keys_ofRequests (hr : r ∈ seg) {v : String × String}
    (hv : v ∈ r.values.entries) : v.1 ∈ ((ofRequests seg).fragments r.template).keys := by
  rw [fragments_ofRequests, FirstSeen.keys_ofList, mem_distinct]
  exact List.mem_map_of_mem (Segment.mem_pairs.2 ⟨r, hr, rfl, hv⟩)

variable {p : Policy} {capacity now : Nat} {es : List Event} {w : Writer}

namespace Run

theorem outstanding_eq (h : Run p capacity es now w) (hf : Filled es) (hdied : .died ∉ es)
    (hdrop : ∀ sql, .dropped sql ∉ es) : (outstanding es).map Statement.sql = unrun w.duties := by
  rw [outstanding, List.map_drop, ← h.executed_eq hf hdied hdrop, List.drop_left]

/-- What a writer no longer holds is in the store. -/
theorem landed (h : Run p capacity es now w) (hf : Filled es) (hdied : .died ∉ es)
    (hdrop : ∀ sql, .dropped sql ∉ es) (hb : ∀ r ∈ accepted es, r.batchable = true)
    (hr : r.values.entries ≠ []) (hholds : ¬w.Holds r) : Landed es r := by
  obtain ⟨v, hv⟩ := List.exists_mem_of_ne_nil _ hr
  have hbooks := (h.ledger hf hdied).books
  have hqueue : r ∉ w.queue := fun hmem => hholds (.inl hmem)
  have hrest : r ∉ (outline p es).rest := by
    intro hmem
    refine hholds (.inr (.inl ⟨v, hv, ?_⟩))
    rw [hbooks.batch_eq]
    exact Batch.mem_keys_ofRequests hmem hv
  refine ⟨_, hbooks.flushed_eq, ?_, fun seg hseg hmem => ?_⟩
  · have hsegments : (outline p es).segments.flatten ++ (outline p es).rest = _ :=
      Outline.flatten_segments p.retries (plan es)
    have hplan : (arrivals (plan es)).filter Request.batchable = arrivals (plan es) :=
      List.filter_eq_self.2 fun r hr =>
        hb r (by rw [hbooks.queue_eq]; exact List.mem_append_left _ hr)
    have hcount := congrArg (List.count r) (hsegments.trans hplan)
    rw [List.count_append, List.count_eq_zero_of_not_mem hrest] at hcount
    rw [hbooks.queue_eq, List.count_append, List.count_eq_zero_of_not_mem hqueue]
    exact hcount
  · obtain ⟨st, hst, htemplate, hrows⟩ := Segment.exists_statement hmem
    have hbegun : st ∈ begun es := by
      rw [hbooks.begun_eq]
      exact Outline.mem_calls hseg hst
    have hdone : st ∉ outstanding es := by
      intro hout
      refine hholds (.inr (.inr ⟨st, ?_, htemplate, v, hv, hrows v hv⟩))
      rw [← h.outstanding_eq hf hdied hdrop]
      exact List.mem_map_of_mem hout
    have hran : st ∈ ran es ++ outstanding es := by
      rw [ran, outstanding, List.take_append_drop]
      exact hbegun
    exact ⟨st, hst, htemplate, hrows, (List.mem_append.1 hran).resolve_right hdone, hdone⟩

/-- A writer that has left holds nothing. -/
theorem not_holds (h : Run p capacity es now w) (hf : Filled es) (hgone : w.phase = .gone) :
    ¬w.Holds r := by
  have hdied : .died ∉ es := fun hmem =>
    absurd ((h.crashed_of_died hmem).symm.trans hgone) (by simp)
  obtain ⟨hqueue, hbatch, -⟩ := h.settled hf hgone
  obtain ⟨hduties, -⟩ := (h.ledger hf hdied).left hgone
  rintro (hmem | ⟨v, -, hmem⟩ | ⟨st, hmem, -⟩)
  · rw [hqueue] at hmem
    exact absurd hmem (by simp)
  · rw [hbatch] at hmem
    exact absurd hmem (by simp [Batch.fragments, FirstSeen.get?, FirstSeen.keys])
  · rw [hduties] at hmem
    exact absurd hmem (by simp [unrun])

end Run

/-- Nothing is known of a request that never came. -/
theorem landed_nil (r : Request) : Landed [] r := ⟨[], rfl, rfl, by simp⟩

end Writer

end BmpFeed
