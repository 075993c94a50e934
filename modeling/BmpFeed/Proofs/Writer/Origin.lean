import BmpFeed.Proofs.Writer.Ledger

/-!
# Where statements come from

Every row of a statement that a writer makes came with a request that its queue took, under the
template of the statement. A query is for the first of the statements that the writer made and that
it has not given to the store.
-/

namespace BmpFeed

/-- What a statement has in common with the requests that it writes. -/
def Statement.template (s : Statement) : String × String := (s.opening, s.closing)

namespace Writer

variable {r : Request} {st : Statement} {v : String × String} {retries : Nat}

/-- The request brought this row to the statement. -/
def Brings (r : Request) (st : Statement) (v : String × String) : Prop :=
  r.template = st.template ∧ v ∈ r.values.entries

theorem Segment.exists_brings {seg : List Request} (hst : st ∈ statements seg) (hv : v ∈ st.rows) :
    ∃ r ∈ seg, Brings r st v := by
  obtain ⟨g, -, rfl⟩ := List.mem_map.1 hst
  exact mem_pairs.1 (mem_of_mem_latest hv)

/-- What is behind the last cut has arrived. -/
theorem Outline.mem_arrivals_of_rest {plan : List Mark} (hr : r ∈ (ofPlan retries plan).rest) :
    r ∈ arrivals plan := by
  have hmem : r ∈ (arrivals plan).filter Request.batchable := by
    rw [← flatten_segments retries plan]
    exact List.mem_append_right _ hr
  exact List.mem_of_mem_filter hmem

theorem Outline.exists_brings {plan : List Mark}
    (hst : st ∈ (ofPlan retries plan).calls.map Prod.fst) (hv : v ∈ st.rows) :
    ∃ r ∈ arrivals plan, Brings r st v := by
  induction plan using List.reverseRecOn with
  | nil => exact absurd hst (by simp [ofPlan])
  | append_singleton plan m ih =>
    have hpast : st ∈ (ofPlan retries plan).calls.map Prod.fst →
        ∃ r ∈ arrivals (plan ++ [m]), Brings r st v := by
      intro hst
      obtain ⟨r, hr, hbrings⟩ := ih hst
      rw [arrivals, List.filterMap_append]
      exact ⟨r, List.mem_append_left _ hr, hbrings⟩
    rw [ofPlan_snoc] at hst
    cases m with
    | arrival r =>
      by_cases hb : r.batchable = true
      · rw [next, if_pos hb] at hst
        exact hpast hst
      · rw [next, if_neg hb, List.map_append, List.mem_append] at hst
        refine hst.elim hpast fun hst => ?_
        obtain rfl : st = r.statement := by simpa using hst
        exact ⟨r, by simp [arrivals, Mark.request?], rfl, hv⟩
    | cut =>
      rw [next, List.map_append, List.mem_append, List.map_map] at hst
      refine hst.elim hpast fun hst => ?_
      have hseg : st ∈ Segment.statements (ofPlan retries plan).rest := by
        simpa [Function.comp_def] using hst
      obtain ⟨r, hr, hbrings⟩ := Segment.exists_brings hseg hv
      rw [arrivals, List.filterMap_append]
      exact ⟨r, List.mem_append_left _ (mem_arrivals_of_rest hr), hbrings⟩

/-- The statement that the next query of the writer is for. -/
def asks? (es : List Event) : Option Statement := (begun es)[(queried es).length]?

variable {p : Policy} {capacity n now : Nat} {es : List Event} {w : Writer} {t : Store}
  {turn : Turn} {sql : String}

/-- Only a query at its beginning shows that it begins. -/
theorem duties_of_queried (h : w.events t = [.queried sql n]) :
    ∃ q rest, w.duties = .run q :: rest ∧ q.stage = .opening ∧ q.sql = sql ∧ q.retries = n := by
  unfold events at h
  split at h
  · cases hq : w.queue.head? <;> simp [hq] at h
  · split_ifs at h
    simp at h
  · rename_i q rest hd
    refine ⟨q, rest, hd, ?_⟩
    unfold queryEvents at h
    split at h
    · rename_i hstage
      exact ⟨hstage, by simpa using h⟩
    · split_ifs at h
      simp at h
    · split_ifs at h
      simp at h
    · simp at h
    · simp at h
  · simp at h

/-- The text of a query is that of the statement it is for, and the queue took all of its rows. -/
theorem Run.asks (h : Run p capacity es now w) (hf : Filled es) (hstep : w.step? now t = some turn)
    (hevents : w.events t = [.queried sql n]) :
    ∃ st, asks? es = some st ∧ st.sql = sql ∧ ∀ v ∈ st.rows, ∃ r ∈ accepted es, Brings r st v := by
  have hdied : .died ∉ es := fun hmem =>
    absurd ((h.crashed_of_died hmem).symm.trans (working_of_step? hstep)) (by simp)
  have hledger := h.ledger hf hdied
  obtain ⟨q, rest, hd, hstage, rfl, -⟩ := duties_of_queried hevents
  have hasked := hledger.account.asked
  rw [hd, unasked_run, if_pos hstage] at hasked
  have hplace : ((outline p es).calls.map fun c => (c.1.sql, c.2))[(queried es).length]? =
      some (q.sql, q.retries) := by
    rw [← hasked, List.getElem?_append_right (Nat.le_refl _), Nat.sub_self]
    rfl
  rw [List.getElem?_map] at hplace
  obtain ⟨⟨st, attempts⟩, hcall, he⟩ := Option.map_eq_some_iff.1 hplace
  have hst : asks? es = some st := by
    rw [asks?, hledger.books.begun_eq, List.getElem?_map, hcall]
    rfl
  refine ⟨st, hst, (Prod.mk.inj he).1, fun v hv => ?_⟩
  obtain ⟨r, hr, hbrings⟩ :=
    Outline.exists_brings (List.mem_map_of_mem (List.mem_of_getElem? hcall)) hv
  rw [hledger.books.queue_eq]
  exact ⟨r, List.mem_append_left _ hr, hbrings⟩

end Writer

end BmpFeed
