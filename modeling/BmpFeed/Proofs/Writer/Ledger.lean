import BmpFeed.Proofs.Writer.Leaving

/-!
# The ledger of a writer

`Ledger` relates what a writer has done, and what it still has to do, to the outline of its plan:
its batch holds the segment behind the last cut, and the queries that it began, with those among its
duties, are the calls of the outline. `Run.ledger` shows that it holds all through a run, so that a
writer that has left wrote what the plain batcher writes.
-/

namespace BmpFeed.Writer

/-- Every batched request that the queue took carries a fragment. -/
def Filled (es : List Event) : Prop :=
  ∀ r ∈ accepted es, r.batchable = true → r.values.entries ≠ []

/-- What a writer has done by the plain batcher. -/
def outline (p : Policy) (es : List Event) : Outline := .ofPlan p.retries (plan es)

/-! ## Duties -/

/-- The queries among the duties that the writer has not begun. -/
def unasked (ds : List Duty) : List (String × Nat) :=
  ds.filterMap fun
    | .run q => if q.stage = .opening then some (q.sql, q.retries) else none
    | _ => none

/-- The statements among the duties that the store has not run. -/
def unrun (ds : List Duty) : List String :=
  ds.filterMap fun
    | .run q => if q.stage = .finished true then none else some q.sql
    | _ => none

/-- What is left to do behind a flush. -/
inductive Errand : List Duty → Prop
  | nil : Errand []
  | review : Errand [.review]
  | leave : Errand [.leave]

/-- Queries, and what is left to do behind them. -/
inductive Running : List Duty → Prop
  | errand {ds : List Duty} (h : Errand ds) : Running ds
  | flushed (n : Nat) {ds : List Duty} (h : Errand ds) : Running (.flushed n :: ds)
  | run (q : Store.Query) {ds : List Duty} (h : Running ds) : Running (.run q :: ds)

/-- The duties that a writer can have. -/
inductive Agenda : List Duty → Prop
  | start : Agenda [.start]
  | flush {ds : List Duty} (h : Errand ds) : Agenda (.flush :: ds)
  | running {ds : List Duty} (h : Running ds) : Agenda ds

section Duties

variable {ds ds' : List Duty} {q : Store.Query}

@[simp] theorem unasked_append : unasked (ds ++ ds') = unasked ds ++ unasked ds' :=
  List.filterMap_append

@[simp] theorem unrun_append : unrun (ds ++ ds') = unrun ds ++ unrun ds' :=
  List.filterMap_append

theorem unasked_run :
    unasked (.run q :: ds) = (if q.stage = .opening then [(q.sql, q.retries)] else []) ++
      unasked ds := by
  unfold unasked
  by_cases h : q.stage = .opening <;> simp [h]

theorem unrun_run :
    unrun (.run q :: ds) = (if q.stage = .finished true then [] else [q.sql]) ++ unrun ds := by
  unfold unrun
  by_cases h : q.stage = .finished true <;> simp [h]

theorem unasked_runs (sqls : List String) (n : Nat) :
    unasked (sqls.map fun sql => .run { sql, retries := n }) = sqls.map fun sql => (sql, n) := by
  induction sqls with
  | nil => rfl
  | cons sql sqls ih => rw [List.map_cons, unasked_run, ih]; rfl

theorem unrun_runs (sqls : List String) (n : Nat) :
    unrun (sqls.map fun sql => .run { sql, retries := n }) = sqls := by
  induction sqls with
  | nil => rfl
  | cons sql sqls ih => rw [List.map_cons, unrun_run, ih]; rfl

theorem Errand.unasked (h : Errand ds) : unasked ds = [] := by cases h <;> rfl

theorem Errand.unrun (h : Errand ds) : unrun ds = [] := by cases h <;> rfl

theorem Errand.no_flush (h : Errand ds) : .flush ∉ ds := by cases h <;> simp

theorem Running.no_flush (h : Running ds) : .flush ∉ ds := by
  induction h with
  | errand h => exact h.no_flush
  | flushed n h => simpa using h.no_flush
  | run q h ih => simpa using ih

theorem Running.runs (sqls : List String) (n : Nat) (h : Running ds) :
    Running ((sqls.map fun sql => .run { sql, retries := n }) ++ ds) := by
  induction sqls with
  | nil => exact h
  | cons sql sqls ih => exact .run _ ih

theorem Agenda.of_run (h : Agenda (.run q :: ds)) : Running ds := by
  cases h with
  | running h =>
    cases h with
    | errand h => cases h
    | run q h => exact h

theorem Agenda.of_flush (h : Agenda (.flush :: ds)) : Errand ds := by
  cases h with
  | flush h => exact h
  | running h => exact absurd List.mem_cons_self h.no_flush

theorem Agenda.of_flushed {n : Nat} (h : Agenda (.flushed n :: ds)) : Errand ds := by
  cases h with
  | running h =>
    cases h with
    | errand h => cases h
    | flushed n h => exact h

theorem Agenda.of_start (h : Agenda (.start :: ds)) : ds = [] := by
  cases h with
  | start => rfl
  | running h =>
    cases h with
    | errand h => cases h

theorem Agenda.of_review (h : Agenda (.review :: ds)) : ds = [] := by
  cases h with
  | running h =>
    cases h with
    | errand h =>
      cases h
      rfl

theorem Agenda.of_leave (h : Agenda (.leave :: ds)) : ds = [] := by
  cases h with
  | running h =>
    cases h with
    | errand h =>
      cases h
      rfl

end Duties

/-! ## Requests and batches -/

section Views

variable {p : Policy} {es es' : List Event}

theorem outline_append (h : plan es' = []) : outline p (es ++ es') = outline p es := by
  unfold outline
  rw [plan_append, h, List.append_nil]

theorem outline_took (es : List Event) (r : Request) :
    outline p (es ++ [.took r]) = (outline p es).next p.retries (.arrival r) := by
  unfold outline
  rw [plan_append]
  exact Outline.ofPlan_snoc _ _

theorem outline_flushed (es : List Event) (b : Batch) :
    outline p (es ++ [.flushed b]) = (outline p es).next p.retries .cut := by
  unfold outline
  rw [plan_append]
  exact Outline.ofPlan_snoc _ _

theorem Filled.of_append (h : Filled (es ++ es')) : Filled es := fun r hr =>
  h r (by rw [accepted_append]; exact List.mem_append_left _ hr)

/-- Events that show nothing of the requests and batches. -/
structure Quiet (es : List Event) : Prop where
  accepted_eq : accepted es = []
  plan_eq : plan es = []
  flushed_eq : flushed es = []
  begun_eq : begun es = []

/-- How the queue and the batch of a writer stand to the outline of its plan. -/
structure Books (p : Policy) (es : List Event) (queue : List Request) (batch : Batch) : Prop where
  queue_eq : accepted es = arrivals (plan es) ++ queue
  batch_eq : batch = Batch.ofRequests (outline p es).rest
  flushed_eq : flushed es = (outline p es).segments.map Batch.ofRequests
  begun_eq : begun es = (outline p es).calls.map Prod.fst
  /-- Nothing is cut off while there is nothing to write. -/
  cuts : [] ∉ (outline p es).segments

namespace Books

variable {queue : List Request} {batch : Batch} {r : Request}

theorem quiet (h : Books p es queue batch) (hq : Quiet es') : Books p (es ++ es') queue batch where
  queue_eq := by
    rw [accepted_append, plan_append, hq.accepted_eq, hq.plan_eq, List.append_nil, List.append_nil]
    exact h.queue_eq
  batch_eq := by rw [outline_append hq.plan_eq]; exact h.batch_eq
  flushed_eq := by
    rw [outline_append hq.plan_eq, flushed_append, hq.flushed_eq, List.append_nil]
    exact h.flushed_eq
  begun_eq := by
    rw [outline_append hq.plan_eq, begun_append, hq.begun_eq, List.append_nil]
    exact h.begun_eq
  cuts := by rw [outline_append hq.plan_eq]; exact h.cuts

theorem accept (h : Books p es queue batch) (r : Request) :
    Books p (es ++ [.accepted r]) (queue ++ [r]) batch where
  queue_eq := by
    rw [accepted_append, plan_append, h.queue_eq, List.append_assoc]
    simp [accepted, plan]
  batch_eq := by rw [outline_append rfl]; exact h.batch_eq
  flushed_eq := by
    rw [outline_append rfl, flushed_append]
    simpa [flushed] using h.flushed_eq
  begun_eq := by
    rw [outline_append rfl, begun_append]
    simpa [begun] using h.begun_eq
  cuts := by rw [outline_append rfl]; exact h.cuts

theorem queue_took (h : Books p es (r :: queue) batch) :
    accepted (es ++ [.took r]) = arrivals (plan (es ++ [.took r])) ++ queue := by
  rw [accepted_append, plan_append, arrivals, List.filterMap_append, ← arrivals, h.queue_eq]
  simp [accepted, plan, Mark.request?]

/-- A batched request goes into the batch. -/
theorem took_batched (h : Books p es (r :: queue) batch) (hb : r.batchable = true) :
    Books p (es ++ [.took r]) queue (batch.merge r) where
  queue_eq := h.queue_took
  batch_eq := by
    rw [outline_took, Outline.next, if_pos hb, Batch.ofRequests_snoc, h.batch_eq]
  flushed_eq := by
    rw [outline_took, Outline.next, if_pos hb, flushed_append]
    simpa [flushed] using h.flushed_eq
  begun_eq := by
    rw [outline_took, Outline.next, if_pos hb, begun_append]
    simpa [begun, hb] using h.begun_eq
  cuts := by rw [outline_took, Outline.next, if_pos hb]; exact h.cuts

/-- A request that is not batched goes past the batch. -/
theorem took_immediate (h : Books p es (r :: queue) batch) (hb : ¬r.batchable = true) :
    Books p (es ++ [.took r]) queue batch where
  queue_eq := h.queue_took
  batch_eq := by rw [outline_took, Outline.next, if_neg hb]; exact h.batch_eq
  flushed_eq := by
    rw [outline_took, Outline.next, if_neg hb, flushed_append]
    simpa [flushed] using h.flushed_eq
  begun_eq := by
    rw [outline_took, Outline.next, if_neg hb, begun_append, h.begun_eq]
    simp [begun, hb]
  cuts := by rw [outline_took, Outline.next, if_neg hb]; exact h.cuts

/-- The requests behind the last cut carry fragments. -/
theorem filled_rest (h : Books p es queue batch) (hf : Filled es) :
    ∀ r ∈ (outline p es).rest, r.values.entries ≠ [] := by
  intro r hr
  have hmem : r ∈ (arrivals (plan es)).filter Request.batchable := by
    rw [← Outline.flatten_segments p.retries]
    exact List.mem_append_right _ hr
  obtain ⟨harr, hbat⟩ := List.mem_filter.1 hmem
  exact hf r (by rw [h.queue_eq]; exact List.mem_append_left _ harr) hbat

theorem isEmpty_iff (h : Books p es queue batch) (hf : Filled es) :
    batch.isEmpty = true ↔ (outline p es).rest = [] := by
  rw [h.batch_eq, Batch.isEmpty_ofRequests]
  constructor
  · intro hnil
    refine List.eq_nil_iff_forall_not_mem.2 fun r hr => ?_
    exact h.filled_rest hf r hr (hnil r hr)
  · intro hnil
    simp [hnil]

theorem writing_eq (h : Books p es queue batch) (hf : Filled es) :
    batch.writing = Segment.statements (outline p es).rest := by
  rw [h.batch_eq]
  exact Batch.writing_ofRequests (h.filled_rest hf)

/-- Writing the batch cuts the plan. -/
theorem flush (h : Books p es queue batch) (hf : Filled es) (hb : batch.isEmpty = false) :
    Books p (es ++ [.flushed batch]) queue {} where
  queue_eq := by
    rw [accepted_append, plan_append, arrivals, List.filterMap_append, ← arrivals, h.queue_eq]
    simp [accepted, plan, Mark.request?]
  batch_eq := by rw [outline_flushed]; rfl
  flushed_eq := by
    rw [outline_flushed, flushed_append, h.flushed_eq]
    simp [flushed, Outline.next, ← h.batch_eq]
  begun_eq := by
    rw [outline_flushed, begun_append, h.begun_eq]
    simp [begun, Outline.next, h.writing_eq hf, Function.comp_def]
  cuts := by
    rw [outline_flushed, Outline.next]
    intro hmem
    rcases List.mem_append.1 hmem with hmem | hmem
    · exact h.cuts hmem
    · have hrest : (outline p es).rest = [] := (List.mem_singleton.1 hmem).symm
      rw [(h.isEmpty_iff hf).2 hrest] at hb
      exact absurd hb (by simp)

end Books

/-! ## Queries -/

/-- How the queries of a writer stand to the outline of its plan. -/
structure Account (p : Policy) (es : List Event) (ds : List Duty) : Prop where
  asked : queried es ++ unasked ds = (outline p es).calls.map fun c => (c.1.sql, c.2)
  ran : (∀ sql, .dropped sql ∉ es) →
    executed es ++ unrun ds = (outline p es).calls.map fun c => c.1.sql

namespace Account

variable {ds ds' : List Duty}

/-- A query begins, or goes on, or ends. -/
theorem move (h : Account p es ds) (hplan : plan es' = [])
    (hask : unasked ds = queried es' ++ unasked ds')
    (hrun : (∀ sql, .dropped sql ∉ es') → unrun ds = executed es' ++ unrun ds') :
    Account p (es ++ es') ds' where
  asked := by
    rw [outline_append hplan, queried_append, List.append_assoc, ← hask]
    exact h.asked
  ran hdrop := by
    rw [outline_append hplan, executed_append, List.append_assoc, ← hrun fun sql hmem =>
      hdrop sql (List.mem_append_right _ hmem)]
    exact h.ran fun sql hmem => hdrop sql (List.mem_append_left _ hmem)

/-- Queries are added when there are no others. -/
theorem add (h : Account p es ds) {e : Event} {calls : List (Statement × Nat)}
    (hask : unasked ds = []) (hrun : unrun ds = []) (hq : queried [e] = [])
    (hx : executed [e] = [])
    (hout : (outline p (es ++ [e])).calls = (outline p es).calls ++ calls)
    (hask' : unasked ds' = calls.map fun c => (c.1.sql, c.2))
    (hrun' : unrun ds' = calls.map fun c => c.1.sql) : Account p (es ++ [e]) ds' where
  asked := by
    have hasked := h.asked
    rw [hask, List.append_nil] at hasked
    rw [hout, queried_append, hq, List.append_nil, hasked, hask', List.map_append]
  ran hdrop := by
    have hran := h.ran fun sql hmem => hdrop sql (List.mem_append_left _ hmem)
    rw [hrun, List.append_nil] at hran
    rw [hout, executed_append, hx, List.append_nil, hran, hrun', List.map_append]

end Account

end Views

/-! ## The ledger -/

/-- What holds of a writer at any time while none of its statements has ended it. -/
structure Ledger (p : Policy) (es : List Event) (w : Writer) : Prop where
  policy_eq : w.policy = p
  books : Books p es w.queue w.batch
  account : Account p es w.duties
  agenda : Agenda w.duties
  /-- A writer that is about to leave takes no more requests. -/
  ending : .leave ∈ w.duties → w.closing = true ∧ w.queue = []
  /-- It has written everything, unless that is still among its duties. -/
  written : .leave ∈ w.duties → .flush ∉ w.duties → (outline p es).rest = []
  left : w.phase = .gone →
    w.duties = [] ∧ w.closing = true ∧ w.queue = [] ∧ (outline p es).rest = []

namespace Ledger

variable {p : Policy} {es es' : List Event} {now : Nat} {w w' : Writer} {t : Store}

theorem hire (id capacity now : Nat) (t : Store) : Ledger p [] (hire id p capacity now t).1 where
  policy_eq := rfl
  books := ⟨rfl, rfl, rfl, rfl, by simp [outline, Outline.ofPlan, plan]⟩
  account := ⟨rfl, fun _ => rfl⟩
  agenda := .start
  ending := by simp [Writer.hire]
  written := by simp [Writer.hire]
  left := by simp [Writer.hire]

/-- A request comes out of the queue while there are no duties. -/
theorem take (h : Ledger p es w) (hphase : w.phase = .working) {r : Request}
    {queue : List Request} (hd : w.duties = []) (hq : w.queue = r :: queue) :
    Ledger p (es ++ [.took r]) (({ w with queue } : Writer).accept r).1 := by
  have hbooks := h.books
  have hacc := h.account
  rw [hq] at hbooks
  rw [hd] at hacc
  unfold accept
  by_cases hb : r.batchable = true
  · rw [if_pos hb]
    have hout : (outline p (es ++ [.took r])).calls = (outline p es).calls ++ [] := by
      rw [outline_took, Outline.next, if_pos hb, List.append_nil]
    dsimp only
    split_ifs
    · exact
        { policy_eq := h.policy_eq, books := hbooks.took_batched hb
          account := hacc.add rfl rfl rfl rfl hout rfl rfl
          agenda := .flush .review, ending := by simp, written := by simp
          left := by simp [hphase] }
    · exact
        { policy_eq := h.policy_eq, books := hbooks.took_batched hb
          account := hacc.add rfl rfl rfl rfl hout rfl rfl
          agenda := .running (.errand .review), ending := by simp, written := by simp
          left := by simp [hphase] }
  · rw [if_neg hb]
    have hout : (outline p (es ++ [.took r])).calls =
        (outline p es).calls ++ [(r.statement, immediateRetries)] := by
      rw [outline_took, Outline.next, if_neg hb]
    exact
      { policy_eq := h.policy_eq, books := hbooks.took_immediate hb
        account := hacc.add rfl rfl rfl rfl hout rfl rfl
        agenda := .running (.run _ (.errand .review)), ending := by simp, written := by simp
        left := by simp [hphase] }

/-- The batch is turned into queries. -/
theorem write (h : Ledger p es w) (hf : Filled es) (hphase : w.phase = .working) {rest : List Duty}
    (hd : w.duties = .flush :: rest) (hb : w.batch.isEmpty = false) :
    Ledger p (es ++ [.flushed w.batch])
      { w with
        lastFlush := now, batch := {}
        duties := (w.batch.statements.map fun sql =>
          Duty.run { sql, retries := w.policy.retries }) ++ .flushed w.batch.size :: rest } := by
  have hagenda := h.agenda
  have hacc := h.account
  rw [hd] at hagenda hacc
  have herr := hagenda.of_flush
  have hcalls : (outline p (es ++ [.flushed w.batch])).calls =
      (outline p es).calls ++ w.batch.writing.map fun s => (s, p.retries) := by
    rw [outline_flushed, h.books.writing_eq hf]
    rfl
  exact
    { policy_eq := h.policy_eq
      books := h.books.flush hf hb
      account := by
        refine hacc.add herr.unasked herr.unrun rfl rfl hcalls ?_ ?_
        · have htail : unasked (.flushed w.batch.size :: rest) = [] := herr.unasked
          rw [unasked_append, unasked_runs, htail, Batch.statements_eq_writing, h.policy_eq]
          simp
        · have htail : unrun (.flushed w.batch.size :: rest) = [] := herr.unrun
          rw [unrun_append, unrun_runs, htail, Batch.statements_eq_writing]
          simp
      agenda := .running (.runs _ _ (.flushed _ herr))
      ending := fun hl => h.ending (by rw [hd]; simpa using hl)
      written := fun _ _ => by rw [outline_flushed]; rfl
      left := by simp [hphase] }

/-- A step that neither takes a request nor writes the batch. -/
theorem go_on (h : Ledger p es w) (hphase : w.phase = .working) (hq : Quiet es') {ds : List Duty}
    {session : Store.Session} {lastFlush : Nat}
    (hask : unasked w.duties = queried es' ++ unasked ds)
    (hrun : (∀ sql, .dropped sql ∉ es') → unrun w.duties = executed es' ++ unrun ds)
    (hagenda : Agenda ds)
    (hending : .leave ∈ ds → .leave ∉ w.duties → w.closing = true ∧ w.queue = [])
    (hwritten : .leave ∈ ds → .flush ∉ ds → .flush ∈ w.duties ∨ .leave ∉ w.duties →
      (outline p es).rest = []) :
    Ledger p (es ++ es') { w with session, lastFlush, duties := ds } where
  policy_eq := h.policy_eq
  books := h.books.quiet hq
  account := h.account.move hq.plan_eq hask hrun
  agenda := hagenda
  ending hl := by
    by_cases hl' : .leave ∈ w.duties
    · exact h.ending hl'
    · exact hending hl hl'
  written hl hn := by
    rw [outline_append hq.plan_eq]
    by_cases hl' : .leave ∈ w.duties
    · by_cases hn' : .flush ∈ w.duties
      · exact hwritten hl hn (.inl hn')
      · exact h.written hl' hn'
    · exact hwritten hl hn (.inr hl')
  left hgone := absurd (hphase.symm.trans hgone) (by simp)

/-- A step of the query at the head of the duties. -/
theorem query (h : Ledger p es w) (hphase : w.phase = .working) (hq : Quiet es')
    {q q' : Store.Query} {rest : List Duty} {session : Store.Session}
    (hd : w.duties = .run q :: rest)
    (hask : unasked (.run q :: rest) = queried es' ++ unasked (.run q' :: rest))
    (hrun : unrun (.run q :: rest) = executed es' ++ unrun (.run q' :: rest)) :
    Ledger p (es ++ es') { w with session, duties := .run q' :: rest } := by
  have hagenda := h.agenda
  rw [hd] at hagenda
  have hrest := hagenda.of_run
  exact h.go_on hphase hq (by rw [hd, hask]) (fun _ => by rw [hd, hrun]) (.running (.run q' hrest))
    (fun hl hl' => absurd (by simpa [hd] using hl) hl')
    fun hl hn hor => hor.elim (fun hf => absurd (by simpa [hd] using hf) hrest.no_flush)
      fun hl' => absurd (by simpa [hd] using hl) hl'

/-- The writer leaves. -/
theorem leave (h : Ledger p es w) {rest : List Duty} (hd : w.duties = .leave :: rest) :
    Ledger p (es ++ [])
      { w with session := w.session.disconnect, duties := [], phase := .gone } := by
  have hagenda := h.agenda
  rw [hd] at hagenda
  obtain rfl := hagenda.of_leave
  have hl : Duty.leave ∈ w.duties := by rw [hd]; exact List.mem_cons_self
  have hn : Duty.flush ∉ w.duties := by rw [hd]; simp
  have hmoved : Account p (es ++ []) [] :=
    h.account.move rfl (by rw [hd]; rfl) fun _ => by rw [hd]; rfl
  rw [List.append_nil]
  exact
    { policy_eq := h.policy_eq
      books := h.books
      account := by rwa [List.append_nil] at hmoved
      agenda := .running (.errand .nil)
      ending := by simp
      written := by simp
      left := fun _ => ⟨rfl, (h.ending hl).1, (h.ending hl).2, h.written hl hn⟩ }

/-- What a step of a writer preserves. -/
theorem step (h : Ledger p es w) (hf : Filled es) (hphase : w.phase = .working)
    (hdied : .died ∉ es') (m : Move now w t es' w') : Ledger p (es ++ es') w' := by
  have hagenda := h.agenda
  cases m with
  | take hd hq => exact h.take hphase hd hq
  | write hd hb => exact h.write hf hphase hd hb
  | die => exact absurd (List.mem_singleton_self _) hdied
  | start session hd =>
    rw [hd] at hagenda
    obtain rfl := hagenda.of_start
    exact h.go_on hphase ⟨rfl, rfl, rfl, rfl⟩ (by rw [hd]; rfl) (fun _ => by rw [hd]; rfl)
      (.running (.errand .nil)) (by simp) (by simp)
  | finish hd hq hc =>
    exact h.go_on hphase ⟨rfl, rfl, rfl, rfl⟩ (by rw [hd]; rfl) (fun _ => by rw [hd]; rfl)
      (.flush .leave) (fun _ _ => ⟨hc, hq⟩) (by simp)
  | expire hd hq hc hdl =>
    exact h.go_on hphase ⟨rfl, rfl, rfl, rfl⟩ (by rw [hd]; rfl) (fun _ => by rw [hd]; rfl)
      (.running (.errand .review)) (by simp) (by simp)
  | ask session hd hs =>
    exact h.query hphase ⟨rfl, rfl, rfl, rfl⟩ hd (by simp [unasked_run, hs, queried])
      (by simp [unrun_run, hs, executed])
  | progress session hd hs hfin hsql hs' hfin' =>
    exact h.query hphase ⟨rfl, rfl, rfl, rfl⟩ hd (by simp [unasked_run, hs, hs', queried])
      (by simp [unrun_run, hfin true, hfin', hsql, executed])
  | ran session hd hs =>
    exact h.query hphase ⟨rfl, rfl, rfl, rfl⟩ hd (by simp [unasked_run, hs, queried])
      (by simp [unrun_run, hs, executed])
  | @answer q rest ok hd hs =>
    rw [hd] at hagenda
    have hrest := hagenda.of_run
    have hquiet : Quiet (if ok then [] else [.dropped q.sql]) := by
      cases ok <;> exact ⟨rfl, rfl, rfl, rfl⟩
    refine h.go_on hphase hquiet ?_ ?_ (.running hrest)
      (fun hl hl' => absurd (by simpa [hd] using hl) hl')
      fun hl hn hor => hor.elim (fun hf => absurd (by simpa [hd] using hf) hrest.no_flush)
        fun hl' => absurd (by simpa [hd] using hl) hl'
    · rw [hd, unasked_run, hs]
      cases ok <;> rfl
    · intro hdrop
      cases ok with
      | true => rw [hd, unrun_run, hs]; rfl
      | false => exact absurd List.mem_cons_self (hdrop q.sql)
  | skip hd hb =>
    rw [hd] at hagenda
    have herr := hagenda.of_flush
    exact h.go_on hphase ⟨rfl, rfl, rfl, rfl⟩ (by rw [hd]; rfl) (fun _ => by rw [hd]; rfl)
      (.running (.errand herr)) (fun hl hl' => absurd (by simpa [hd] using hl) hl')
      fun _ _ _ => (h.books.isEmpty_iff hf).1 hb
  | written hd =>
    rw [hd] at hagenda
    have herr := hagenda.of_flushed
    exact h.go_on hphase ⟨rfl, rfl, rfl, rfl⟩ (by rw [hd]; rfl) (fun _ => by rw [hd]; rfl)
      (.running (.errand herr)) (fun hl hl' => absurd (by simpa [hd] using hl) hl')
      fun hl hn hor => hor.elim (fun hf => absurd (by simpa [hd] using hf) herr.no_flush)
        fun hl' => absurd (by simpa [hd] using hl) hl'
  | review hd =>
    rw [hd] at hagenda
    obtain rfl := hagenda.of_review
    split_ifs
    · exact h.go_on hphase ⟨rfl, rfl, rfl, rfl⟩ (by rw [hd]; rfl) (fun _ => by rw [hd]; rfl)
        (.flush .nil) (by simp) (by simp)
    · exact h.go_on hphase ⟨rfl, rfl, rfl, rfl⟩ (by rw [hd]; rfl) (fun _ => by rw [hd]; rfl)
        (.running (.errand .nil)) (by simp) (by simp)
  | leave hd => exact h.leave hd

theorem send (h : Ledger p es w) {r : Request} (hopen : w.closing = false)
    (hs : w.send? r = some w') : Ledger p (es ++ [.accepted r]) w' := by
  obtain ⟨hphase, -, rfl⟩ := send?_spec hs
  have hleave : .leave ∉ w.duties := fun hl => by simp [(h.ending hl).1] at hopen
  exact
    { policy_eq := h.policy_eq
      books := h.books.accept r
      account := h.account.move rfl rfl fun _ => rfl
      agenda := h.agenda
      ending := fun hl => absurd hl hleave
      written := fun hl => absurd hl hleave
      left := fun hgone => absurd (hphase.symm.trans hgone) (by simp) }

theorem shut (h : Ledger p es w) : Ledger p es w.shut where
  policy_eq := h.policy_eq
  books := h.books
  account := h.account
  agenda := h.agenda
  ending hl := ⟨rfl, (h.ending hl).2⟩
  written := h.written
  left hgone := ⟨(h.left hgone).1, rfl, (h.left hgone).2.2⟩

end Ledger

namespace Run

variable {p : Policy} {capacity : Nat} {es : List Event} {now : Nat} {w : Writer}

/-- The ledger holds all through a run. -/
theorem ledger (h : Run p capacity es now w) (hf : Filled es) (hdied : .died ∉ es) :
    Ledger p es w := by
  induction h with
  | hire id now t => exact .hire id capacity now t
  | step _ hstep ih =>
    have hpast := ih hf.of_append fun hmem => hdied (List.mem_append_left _ hmem)
    exact hpast.step hf.of_append (working_of_step? hstep)
      (fun hmem => hdied (List.mem_append_right _ hmem)) (move_of_step? hstep)
  | send _ hopen hs ih =>
    have hpast := ih hf.of_append fun hmem => hdied (List.mem_append_left _ hmem)
    exact hpast.send hopen hs
  | shut _ ih => exact (ih hf hdied).shut
  | wait _ _ ih => exact ih hf hdied

/-- A writer that has left kept nothing back: it merged its requests into the batches that it wrote,
each into one. -/
theorem settled (h : Run p capacity es now w) (hf : Filled es) (hgone : w.phase = .gone) :
    w.queue = [] ∧ w.batch = {} ∧
      ∃ segments : List (List Request),
        segments.flatten = (accepted es).filter Request.batchable ∧
        flushed es = segments.map Batch.ofRequests := by
  have hdied : .died ∉ es := fun hmem =>
    absurd ((h.crashed_of_died hmem).symm.trans hgone) (by simp)
  have hledger := h.ledger hf hdied
  obtain ⟨-, -, hqueue, hrest⟩ := hledger.left hgone
  have hsegments := Outline.flatten_segments p.retries (plan es)
  refine ⟨hqueue, ?_, _, ?_, hledger.books.flushed_eq⟩
  · rw [hledger.books.batch_eq, hrest]
    rfl
  · rw [hledger.books.queue_eq, hqueue, List.append_nil, ← hsegments]
    exact (List.append_nil _).symm.trans (congrArg _ hrest.symm)

end Run

end BmpFeed.Writer
