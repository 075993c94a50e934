import BmpFeed.Proofs.Writer.Ledger

/-!
# What a writer hands over

`Ledger` compares a writer with the plain batcher and takes for granted that batched requests carry
fragments. Here nothing is assumed of the requests: when a writer has left, it had taken every
request that its queue took, had merged the batched ones into batches that it wrote, and had given
the store every statement that it made of these batches and of the other requests.
-/

namespace BmpFeed.Writer

/-- What a writer that has left did with the requests that its queue took. -/
structure HandedOver (es : List Event) : Prop where
  /-- It took each of them out of the queue, in their order. -/
  took : arrivals (plan es) = accepted es
  /-- It merged those that are batched into the batches that it wrote, each into one, but for some
  that carry nothing to write. -/
  merged : ∃ (segments : List (List Request)) (rest : List Request),
    flushed es = segments.map Batch.ofRequests ∧
      segments.flatten ++ rest = (accepted es).filter Request.batchable ∧
      ∀ r ∈ rest, r.values.entries = []
  /-- It gave the store the statements of these batches and of the other requests, in the order in
  which it made them. -/
  asked : (queried es).map Prod.fst = (begun es).map Statement.sql

/-- What a writer has taken, merged and asked at any time while it lives. -/
structure Handing (es : List Event) (w : Writer) : Prop where
  queue_eq : accepted es = arrivals (plan es) ++ w.queue
  merged : ∃ (segments : List (List Request)) (rest : List Request),
    flushed es = segments.map Batch.ofRequests ∧ w.batch = Batch.ofRequests rest ∧
      segments.flatten ++ rest = (arrivals (plan es)).filter Request.batchable
  asked : (queried es).map Prod.fst ++ (unasked w.duties).map Prod.fst =
    (begun es).map Statement.sql
  agenda : Agenda w.duties
  /-- A writer that is about to leave takes no more requests. -/
  ending : .leave ∈ w.duties → w.closing = true ∧ w.queue = []
  /-- It has written everything, unless that is still among its duties. -/
  written : .leave ∈ w.duties → .flush ∉ w.duties → w.batch.isEmpty = true
  left : w.phase = .gone →
    w.duties = [] ∧ w.queue = [] ∧ w.batch.isEmpty = true ∧ w.session.connected = false

namespace Handing

variable {p : Policy} {es es' : List Event} {now : Nat} {w w' : Writer} {t : Store}

theorem hire (id : Nat) (p : Policy) (capacity now : Nat) (t : Store) :
    Handing [] (hire id p capacity now t).1 where
  queue_eq := rfl
  merged := ⟨[], [], rfl, rfl, rfl⟩
  asked := rfl
  agenda := .start
  ending := by simp [Writer.hire]
  written := by simp [Writer.hire]
  left := by simp [Writer.hire]

/-- A step that neither takes a request nor writes the batch. -/
theorem go_on (h : Handing es w) (hphase : w.phase = .working) (hq : Quiet es') {ds : List Duty}
    {session : Store.Session} {lastFlush : Nat}
    (hask : unasked w.duties = queried es' ++ unasked ds) (hagenda : Agenda ds)
    (hending : .leave ∈ ds → .leave ∈ w.duties ∨ w.closing = true ∧ w.queue = [])
    (hwritten : .leave ∈ ds → .flush ∉ ds →
      .leave ∈ w.duties ∧ .flush ∉ w.duties ∨ w.batch.isEmpty = true) :
    Handing (es ++ es') { w with session, lastFlush, duties := ds } where
  queue_eq := by
    rw [accepted_append, plan_append, hq.accepted_eq, hq.plan_eq, List.append_nil, List.append_nil]
    exact h.queue_eq
  merged := by
    rw [flushed_append, plan_append, hq.flushed_eq, hq.plan_eq, List.append_nil, List.append_nil]
    exact h.merged
  asked := by
    rw [queried_append, begun_append, hq.begun_eq, List.append_nil, List.map_append,
      List.append_assoc, ← List.map_append, ← hask]
    exact h.asked
  agenda := hagenda
  ending hl := (hending hl).elim h.ending fun h => h
  written hl hn := (hwritten hl hn).elim (fun hw => h.written hw.1 hw.2) fun h => h
  left hgone := absurd (hphase.symm.trans hgone) (by simp)

/-- A request comes out of the queue while there are no duties. -/
theorem take (h : Handing es w) (hphase : w.phase = .working) {r : Request}
    {queue : List Request} (hd : w.duties = []) (hq : w.queue = r :: queue) :
    Handing (es ++ [.took r]) (({ w with queue } : Writer).accept r).1 := by
  have hasked := h.asked
  rw [hd] at hasked
  have hqueue : accepted (es ++ [.took r]) = arrivals (plan (es ++ [.took r])) ++ queue := by
    rw [accepted_append, plan_append, arrivals, List.filterMap_append, ← arrivals, h.queue_eq, hq]
    simp [accepted, plan, Mark.request?]
  have harrivals : arrivals (plan (es ++ [.took r])) = arrivals (plan es) ++ [r] := by
    rw [plan_append, arrivals, List.filterMap_append, ← arrivals]
    rfl
  have hflushed : flushed (es ++ [.took r]) = flushed es := by
    rw [flushed_append]
    exact List.append_nil _
  have hqueried : queried (es ++ [.took r]) = queried es := by
    rw [queried_append]
    exact List.append_nil _
  obtain ⟨segments, rest, hsegments, hbatch, hrest⟩ := h.merged
  unfold accept
  by_cases hb : r.batchable = true
  · have hmerged : ∃ (segments : List (List Request)) (rest : List Request),
        flushed (es ++ [.took r]) = segments.map Batch.ofRequests ∧
          w.batch.merge r = Batch.ofRequests rest ∧ segments.flatten ++ rest =
            (arrivals (plan (es ++ [.took r]))).filter Request.batchable := by
      refine ⟨segments, rest ++ [r], hflushed.trans hsegments, ?_, ?_⟩
      · rw [Batch.ofRequests_snoc, hbatch]
      · rw [harrivals, List.filter_append, ← hrest, List.append_assoc]
        simp [hb]
    have hasked' : (queried (es ++ [.took r])).map Prod.fst =
        (begun (es ++ [.took r])).map Statement.sql := by
      rw [hqueried, begun_append]
      simpa [begun, hb, unasked] using hasked
    rw [if_pos hb]
    dsimp only
    split_ifs
    · exact ⟨hqueue, hmerged, by simpa [unasked] using hasked', .flush .review, by simp, by simp,
        by simp [hphase]⟩
    · exact ⟨hqueue, hmerged, by simpa [unasked] using hasked', .running (.errand .review),
        by simp, by simp, by simp [hphase]⟩
  · rw [if_neg hb]
    refine ⟨hqueue, ⟨segments, rest, hflushed.trans hsegments, hbatch, ?_⟩, ?_,
      .running (.run _ (.errand .review)), by simp, by simp, by simp [hphase]⟩
    · rw [harrivals, List.filter_append, ← hrest]
      simp [hb]
    · rw [hqueried, begun_append, List.map_append, ← hasked]
      simp [begun, hb, unasked, Request.sql_statement]

/-- The batch is turned into queries. -/
theorem write (h : Handing es w) (hphase : w.phase = .working) {rest : List Duty}
    (hd : w.duties = .flush :: rest) :
    Handing (es ++ [.flushed w.batch])
      { w with
        lastFlush := now, batch := {}
        duties := (w.batch.statements.map fun sql =>
          Duty.run { sql, retries := w.policy.retries }) ++ .flushed w.batch.size :: rest } := by
  have hagenda := h.agenda
  have hasked := h.asked
  rw [hd] at hagenda hasked
  have herr := hagenda.of_flush
  have hhead : unasked (.flush :: rest) = [] := herr.unasked
  have htail : unasked (.flushed w.batch.size :: rest) = [] := herr.unasked
  have harrivals : arrivals (plan (es ++ [.flushed w.batch])) = arrivals (plan es) := by
    rw [plan_append, arrivals, List.filterMap_append, ← arrivals]
    exact List.append_nil _
  obtain ⟨segments, later, hsegments, hbatch, hrest⟩ := h.merged
  rw [hhead, List.map_nil, List.append_nil] at hasked
  refine ⟨?_, ⟨segments ++ [later], [], ?_, rfl, ?_⟩, ?_, .running (.runs _ _ (.flushed _ herr)),
    fun hl => h.ending (by rw [hd]; simpa using hl), fun _ _ => rfl, by simp [hphase]⟩
  · rw [accepted_append, harrivals, h.queue_eq]
    exact List.append_nil _
  · rw [flushed_append, hsegments, List.map_append, hbatch]
    rfl
  · rw [harrivals, ← hrest]
    simp
  · rw [queried_append, begun_append, List.map_append, List.map_append, hasked, unasked_append,
      unasked_runs, htail, Batch.statements_eq_writing]
    simp [queried, begun, Function.comp_def]

/-- The writer leaves. -/
theorem leave (h : Handing es w) {rest : List Duty} (hd : w.duties = .leave :: rest) :
    Handing es { w with session := w.session.disconnect, duties := [], phase := .gone } := by
  have hasked := h.asked
  have hagenda := h.agenda
  rw [hd] at hasked hagenda
  obtain rfl := hagenda.of_leave
  have hl : Duty.leave ∈ w.duties := by rw [hd]; exact List.mem_cons_self
  have hn : Duty.flush ∉ w.duties := by rw [hd]; simp
  exact ⟨h.queue_eq, h.merged, hasked, .running (.errand .nil), by simp, by simp,
    fun _ => ⟨rfl, (h.ending hl).2, h.written hl hn, rfl⟩⟩

/-- A step of the query at the head of the duties. -/
theorem query (h : Handing es w) (hphase : w.phase = .working) (hq : Quiet es')
    {q : Store.Query} {rest ds : List Duty} {session : Store.Session}
    (hd : w.duties = .run q :: rest) (hds : ds = rest ∨ ∃ q', ds = .run q' :: rest)
    (hask : unasked (.run q :: rest) = queried es' ++ unasked ds) :
    Handing (es ++ es') { w with session, duties := ds } := by
  have hagenda := h.agenda
  rw [hd] at hagenda
  have hrest := hagenda.of_run
  have hleave : .leave ∈ ds → .leave ∈ w.duties := by
    rw [hd]
    rcases hds with rfl | ⟨q', rfl⟩ <;> simp
  have hflush : .flush ∉ w.duties := by
    rw [hd]
    simpa using hrest.no_flush
  refine h.go_on hphase hq (by rw [hd, hask]) ?_ (fun hl => .inl (hleave hl))
    fun hl _ => .inl ⟨hleave hl, hflush⟩
  rcases hds with rfl | ⟨q', rfl⟩
  · exact .running hrest
  · exact .running (.run q' hrest)

/-- What a step of a writer preserves. -/
theorem step (h : Handing es w) (hphase : w.phase = .working) (hdied : .died ∉ es')
    (m : Move now w t es' w') : Handing (es ++ es') w' := by
  have hquiet : Quiet [] := ⟨rfl, rfl, rfl, rfl⟩
  have hagenda := h.agenda
  cases m with
  | take hd hq => exact h.take hphase hd hq
  | write hd hb => exact h.write hphase hd
  | die => exact absurd (List.mem_singleton_self _) hdied
  | start session hd =>
    rw [hd] at hagenda
    obtain rfl := hagenda.of_start
    exact h.go_on hphase hquiet (by rw [hd]; rfl) (.running (.errand .nil)) (by simp) (by simp)
  | finish hd hq hc =>
    exact h.go_on hphase hquiet (by rw [hd]; rfl) (.flush .leave) (fun _ => .inr ⟨hc, hq⟩)
      (by simp)
  | expire hd hq hc hdl =>
    exact h.go_on hphase hquiet (by rw [hd]; rfl) (.running (.errand .review)) (by simp) (by simp)
  | ask session hd hs =>
    exact h.query hphase ⟨rfl, rfl, rfl, rfl⟩ hd (.inr ⟨_, rfl⟩)
      (by simp [unasked_run, hs, queried])
  | progress session hd hs hfin hsql hs' hfin' =>
    exact h.query hphase hquiet hd (.inr ⟨_, rfl⟩) (by simp [unasked_run, hs, hs', queried])
  | ran session hd hs =>
    exact h.query hphase ⟨rfl, rfl, rfl, rfl⟩ hd (.inr ⟨_, rfl⟩)
      (by simp [unasked_run, hs, queried])
  | @answer q rest ok hd hs =>
    refine h.query hphase ?_ hd (.inl rfl) ?_
    · cases ok <;> exact ⟨rfl, rfl, rfl, rfl⟩
    · rw [unasked_run, hs]
      cases ok <;> rfl
  | skip hd hb =>
    rw [hd] at hagenda
    exact h.go_on hphase hquiet (by rw [hd]; rfl) (.running (.errand hagenda.of_flush))
      (fun hl => .inl (by rw [hd]; exact List.mem_cons_of_mem _ hl)) fun _ _ => .inr hb
  | written hd =>
    rw [hd] at hagenda
    have herr := hagenda.of_flushed
    exact h.go_on hphase hquiet (by rw [hd]; rfl) (.running (.errand herr))
      (fun hl => .inl (by rw [hd]; exact List.mem_cons_of_mem _ hl))
      fun hl _ => .inl (by rw [hd]; simpa using ⟨hl, herr.no_flush⟩)
  | review hd =>
    rw [hd] at hagenda
    obtain rfl := hagenda.of_review
    split_ifs
    · exact h.go_on hphase hquiet (by rw [hd]; rfl) (.flush .nil) (by simp) (by simp)
    · exact h.go_on hphase hquiet (by rw [hd]; rfl) (.running (.errand .nil)) (by simp) (by simp)
  | leave hd =>
    rw [List.append_nil]
    exact h.leave hd

theorem send (h : Handing es w) {r : Request} (hopen : w.closing = false)
    (hs : w.send? r = some w') : Handing (es ++ [.accepted r]) w' := by
  obtain ⟨hphase, -, rfl⟩ := send?_spec hs
  have hleave : .leave ∉ w.duties := fun hl => by simp [(h.ending hl).1] at hopen
  obtain ⟨segments, rest, hsegments, hbatch, hrest⟩ := h.merged
  refine ⟨?_, ⟨segments, rest, ?_, hbatch, ?_⟩, ?_, h.agenda, fun hl => absurd hl hleave,
    fun hl => absurd hl hleave, fun hgone => absurd (hphase.symm.trans hgone) (by simp)⟩
  · rw [accepted_append, plan_append, h.queue_eq, List.append_assoc]
    simp [accepted, plan]
  · rw [flushed_append, hsegments]
    exact List.append_nil _
  · rw [plan_append, hrest]
    simp [plan]
  · rw [queried_append, begun_append]
    simpa [queried, begun] using h.asked

theorem shut (h : Handing es w) : Handing es w.shut :=
  { h with ending := fun hl => ⟨rfl, (h.ending hl).2⟩ }

end Handing

namespace Run

variable {p : Policy} {capacity : Nat} {es : List Event} {now : Nat} {w : Writer}

theorem handing (h : Run p capacity es now w) (hdied : .died ∉ es) : Handing es w := by
  induction h with
  | hire id now t => exact .hire id p capacity now t
  | step _ hstep ih =>
    have hpast := ih fun hmem => hdied (List.mem_append_left _ hmem)
    exact hpast.step (working_of_step? hstep)
      (fun hmem => hdied (List.mem_append_right _ hmem)) (move_of_step? hstep)
  | send _ hopen hs ih =>
    have hpast := ih fun hmem => hdied (List.mem_append_left _ hmem)
    exact hpast.send hopen hs
  | shut _ ih => exact (ih hdied).shut
  | wait _ _ ih => exact ih hdied

/-- A writer that has left has handed over everything, and its session is closed. -/
theorem handed_over (h : Run p capacity es now w) (hgone : w.phase = .gone) :
    HandedOver es ∧ w.session.connected = false := by
  have hdied : .died ∉ es := fun hmem =>
    absurd ((h.crashed_of_died hmem).symm.trans hgone) (by simp)
  have hhanding := h.handing hdied
  obtain ⟨hduties, hqueue, hempty, hsession⟩ := hhanding.left hgone
  obtain ⟨segments, rest, hsegments, hbatch, hrest⟩ := hhanding.merged
  have htook : arrivals (plan es) = accepted es := by
    rw [hhanding.queue_eq, hqueue, List.append_nil]
  refine ⟨⟨htook, ⟨segments, rest, hsegments, htook ▸ hrest, fun r hr => ?_⟩, ?_⟩, hsession⟩
  · exact Batch.isEmpty_ofRequests.1 (hbatch ▸ hempty) r hr
  · have hasked := hhanding.asked
    rw [hduties] at hasked
    exact (List.append_nil _).symm.trans hasked

end Run

end BmpFeed.Writer
