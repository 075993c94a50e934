import BmpFeed.Proofs.Dispatch.Complete
import BmpFeed.Proofs.Fleet.Executions
import BmpFeed.Proofs.Intake.Course
import BmpFeed.Proofs.Intake.Trace

/-!
# An intake loses no request

The requests of an intake are batched and carry fragments, so that what is known of the end of a
dispatch applies to that of an intake. `Run.loses_no_request` is about every run that has ended,
because the intake was told to stop or because the bus failed.
-/

namespace BmpFeed.Intake

variable {s : Settings} {es : List Event} {now : Nat} {i : Intake} {desk : Dispatch.Desk}
  {ms : List Sql.Mapping} {m : Feed.Message} {r : Request}

/-- A request for a message is one for its rows under the message's mapping. -/
theorem exists_of_request? (h : request? ms m = some r) :
    ∃ mapping rows key, batch? ms m = some (mapping, rows) ∧ r = mapping.request key rows := by
  obtain ⟨⟨mapping, rows⟩, hbatch, hr⟩ := Option.bind_eq_some_iff.1 h
  obtain ⟨key, -, rfl⟩ := Option.map_eq_some_iff.1 hr
  exact ⟨mapping, rows, key, hbatch, rfl⟩

theorem rows_ne_nil {mapping : Sql.Mapping} {rows : List Record}
    (h : batch? ms m = some (mapping, rows)) : rows ≠ [] := by
  unfold batch? at h
  split at h
  · split_ifs at h
    obtain ⟨mapping', -, he⟩ := Option.map_eq_some_iff.1 h
    rw [← (Prod.mk.inj he).2]
    simp
  · simp at h

/-- Requests are batched and carry a fragment. -/
theorem request?_batched (h : request? ms m = some r) :
    r.batchable = true ∧ r.values.entries ≠ [] := by
  obtain ⟨mapping, rows, key, hbatch, rfl⟩ := exists_of_request? h
  refine ⟨rfl, fun hnil => ?_⟩
  exact Writer.Batch.size_ofList_ne_zero (by simpa using rows_ne_nil hbatch)
    (List.length_eq_zero_iff.2 hnil)

theorem Course.batched (h : Course s es now i desk) : Dispatch.Batched (dispatchEvents es) := by
  intro r hr
  rw [h.pushed_eq] at hr
  obtain ⟨m, -, hm⟩ := List.mem_filterMap.1 hr
  exact request?_batched hm

/-- When an intake has ended, unless by a statement, nothing is lost of the requests that it made
of the messages that it took up, as long as none of its writers died. -/
theorem Run.loses_no_request (h : Run s es now i) (hended : i.outcome ≠ none)
    (hcrash : i.outcome ≠ some .crashed) (hdied : ∀ id, .died ∉ Fleet.of id (fleetEvents es)) :
    Dispatch.pushed (dispatchEvents es) = (received es).filterMap (request? s.tables) ∧
      Dispatch.Complete (.ofSettings s) (dispatchEvents es) i.dispatch := by
  have hcourse := h.course_ended hended hcrash
  exact ⟨hcourse.pushed_eq, hcourse.run.complete hcourse.batched hdied⟩

theorem loses_no_request_sample :
    ∃ es now i, Run sampleSettings es now i ∧ i.outcome = some .stopped ∧
      (∀ id, .died ∉ Fleet.of id (fleetEvents es)) ∧ received es = sampleMessages ∧
      Dispatch.pushed (dispatchEvents es) =
        (received es).filterMap (request? sampleSettings.tables) ∧
      Dispatch.Complete (.ofSettings sampleSettings) (dispatchEvents es) i.dispatch := by
  have hrun : Run sampleSettings sampleTrace.events sampleTrace.now sampleTrace.intake :=
    Trace.run_finish (Trace.run_start _ _ _) 300
  have hstopped : sampleTrace.intake.outcome = some .stopped := by decide +kernel
  have hsteady : Fleet.Steady (fleetEvents sampleTrace.events) :=
    .of_forall (by decide +kernel)
  exact ⟨_, _, _, hrun, hstopped, hsteady.died, by decide +kernel,
    hrun.loses_no_request (by simp [hstopped]) (by simp [hstopped]) hsteady.died⟩

end BmpFeed.Intake
