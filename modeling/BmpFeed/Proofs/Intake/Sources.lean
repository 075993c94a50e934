import BmpFeed.Proofs.Intake.Inline
import BmpFeed.Proofs.Intake.Latest
import BmpFeed.Proofs.Writer.Origin

/-!
# Where the writers' statements come from

Every row of a statement that a writer gives to the store is of a message that the intake took up
before. `Sourced` says so of the queues of the writers; other than the invariants of a dispatch, it
also holds when a statement has ended the intake and its writers are left to themselves.
-/

namespace BmpFeed.Intake

variable {s : Settings} {es es' : List Event} {log past later : List Entry} {now id n : Nat}
  {i : Intake} {m : Feed.Message} {r : Request} {v : String × String} {sql : String}
  {stopping : Bool} {t : Store} {turn : Turn}

/-- The writers are in runs of their own, and their queues took requests of messages. -/
structure Sourced (s : Settings) (es : List Event) (now : Nat) (i : Intake) : Prop where
  roster : ∃ n, Fleet.Roster (.ofSettings s) (fleetEvents es) now n i.dispatch.fleet.writers
  accepted : ∀ id, ∀ r ∈ Writer.accepted (Fleet.of id (fleetEvents es)),
    ∃ m ∈ received es, request? s.tables m = some r

theorem fleetEvents_map (fs : List Fleet.Event) :
    fleetEvents ((fs.map Dispatch.Event.fleet).map .dispatch) = fs := by
  unfold fleetEvents
  rw [dispatchEvents_map, Dispatch.fleetEvents_map]

theorem fleetEvents_append (es es' : List Event) :
    fleetEvents (es ++ es') = fleetEvents es ++ fleetEvents es' := by
  unfold fleetEvents
  rw [dispatchEvents_append, Dispatch.fleetEvents_append]

namespace Sourced

theorem of_course {desk : Dispatch.Desk} (h : Course s es now i desk) : Sourced s es now i where
  roster := ⟨_, h.run.fleet.1.staff.roster⟩
  accepted id r hr := by
    have hpushed := h.run.mem_pushed_of_accepted hr
    rw [h.pushed_eq] at hpushed
    exact List.mem_filterMap.1 hpushed

/-- A writer makes a step. -/
theorem write {w : Writer} {t : Store} {turn : Writer.Turn} (h : Sourced s es now i)
    (hw : w ∈ i.dispatch.fleet.writers) (hstep : w.step? now t = some turn) :
    Sourced s (es ++ (((w.events t).map (.writer w.id)).map .fleet).map .dispatch) now
      { i with
        dispatch := { i.dispatch with fleet := i.dispatch.fleet.replace turn.writer } } where
  roster := by
    obtain ⟨n, hroster⟩ := h.roster
    have hmove := Writer.move_of_step? hstep
    refine ⟨n, ?_⟩
    rw [fleetEvents_append, fleetEvents_map]
    unfold Fleet.replace
    rw [Fleet.writers_mapWriters]
    refine hroster.update hw hmove.frame.1 (fun id hne => Fleet.of_writer_of_ne hne.symm _) ?_
      (by simp)
    rw [Fleet.of_writer]
    exact (hroster.runs w hw).step hstep
  accepted id r hr := by
    rw [received_append, received_map, List.append_nil]
    rw [fleetEvents_append, fleetEvents_map, Fleet.of_append, Writer.accepted_append] at hr
    refine h.accepted id r ((List.mem_append.1 hr).resolve_right fun hr => ?_)
    by_cases hid : w.id = id
    · rw [← hid, Fleet.of_writer, (Writer.move_of_step? hstep).accepted_eq] at hr
      exact absurd hr (by simp)
    · rw [Fleet.of_writer_of_ne hid] at hr
      exact absurd hr (by simp [Writer.accepted])

/-- A statement ends the intake. -/
theorem abandon (h : Sourced s es now i) {i' : Intake}
    (hfleet : i'.dispatch.fleet = i.dispatch.fleet.abandon) : Sourced s es now i' where
  roster := by
    obtain ⟨n, hroster⟩ := h.roster
    refine ⟨n, ?_⟩
    rw [hfleet]
    unfold Fleet.abandon
    rw [Fleet.writers_mapWriters]
    exact hroster.map (fun _ => rfl) fun _ _ hrun => hrun.shut
  accepted := h.accepted

theorem wait {now' : Nat} (h : Sourced s es now i) (hle : now ≤ now') : Sourced s es now' i where
  roster := h.roster.imp fun _ hroster => hroster.wait hle
  accepted := h.accepted

end Sourced

namespace Run

/-- After a step the intake is on its course, or a statement has ended it. -/
theorem course_or_abandon (h : Run s es now i) (hstep : i.step? now stopping t = some turn) :
    (∃ desk, Course s (es ++ i.events now t) now turn.intake desk) ∨
      i.events now t = [] ∧ turn.intake.dispatch.fleet = i.dispatch.fleet.abandon := by
  by_cases hcrash : turn.intake.outcome = some .crashed
  · obtain ⟨hevents, hfleet, -⟩ :=
      (move_of_step? (h.outcome_eq_none hstep) hstep).1.of_crashed hcrash
    exact .inr ⟨hevents, hfleet⟩
  · exact .inl ((h.step hstep).course hcrash)

theorem sourced (h : Run s es now i) : Sourced s es now i := by
  induction h with
  | open_ id bus now t =>
    obtain ⟨desk, hcourse⟩ := (Run.open_ (s := s) id bus now t).course (by simp [Intake.open_])
    exact .of_course hcourse
  | wait _ hle ih => exact ih.wait hle
  | bus _ _ ih => exact { ih with }
  | write _ hw hstep ih => exact ih.write hw hstep
  | step hrun hstep ih =>
    rcases hrun.course_or_abandon hstep with ⟨desk, hcourse⟩ | ⟨hevents, hfleet⟩
    · exact .of_course hcourse
    · rw [hevents, List.append_nil]
      exact ih.abandon hfleet

/-- Messages are taken up in the order in which polls brought them. -/
theorem received_in_order (h : Run s es now i) : received es <+: polled es := by
  induction h with
  | open_ => exact List.nil_prefix
  | wait _ _ ih => exact ih
  | bus _ _ ih => exact ih
  | write _ _ _ ih =>
    rw [received_append, polled_append, received_map, polled_map, List.append_nil, List.append_nil]
    exact ih
  | step hrun hstep ih =>
    rcases hrun.course_or_abandon hstep with ⟨desk, hcourse⟩ | ⟨hevents, -⟩
    · obtain ⟨lost, hpolled, -⟩ := hcourse.heard
      rw [hpolled, List.append_assoc]
      exact List.prefix_append _ _
    · rw [hevents, List.append_nil]
      exact ih

end Run

/-- The messages that were taken up at some time are the first of those that polls brought. -/
theorem Journal.received_eq_take (h : Journal s log now i) (hlog : log = past ++ later) :
    received (shown past) = (polled (shown log)).take (takings past).length := by
  have hle : received (shown past) <+: polled (shown log) := by
    refine List.IsPrefix.trans ?_ h.run.received_in_order
    rw [hlog, shown_append, received_append]
    exact List.prefix_append _ _
  rw [← List.length_map Prod.fst, ← received_shown]
  exact List.prefix_iff_eq_take.1 hle

/-! ## Queries of the writers -/

/-- A row of the request for a message is among the rows of the message. -/
theorem mem_fragments {st : Statement} (hreq : request? s.tables m = some r)
    (hbrings : Writer.Brings r st v) : v.2 ∈ fragments s.tables st.template v.1 m := by
  have hcondenses := condenses_request? (g := st.template) (k := v.1) s.tables m
  refine hcondenses.sublist.subset ?_
  rw [hreq, carried, Option.toList_some, List.flatMap_singleton, Request.fragments_eq,
    if_pos hbrings.1]
  exact List.mem_map_of_mem (List.mem_filter.2 ⟨hbrings.2, by simp⟩)

/-- The intake shows nothing of the doings of its writers. -/
theorem Move.no_writer {ms : List Sql.Mapping} {d d' : Dispatch} {ts ts' : List Task}
    {o : Option Outcome} {e : Writer.Event} (m : Move now ms d ts es ts' d' o) :
    .dispatch (.fleet (.writer id e)) ∉ es := by
  cases m with
  | @passOn q rest hleft =>
    unfold Dispatch.passEvents
    split
    · simp
    · dsimp only
      split
      · simp
      · split_ifs <;> simp
  | chore rest hstep =>
    intro hmem
    have hnot := (Fleet.Chore.move_of_step? hstep).not_mem (e := .writer id e) rfl
    simp at hmem
    exact hnot hmem
  | _ => simp

/-- The rows that a query of a writer is for are of messages that were taken up before. -/
theorem Noted.queried (h : Noted s past (.dispatch (.fleet (.writer id (.queried sql n))))) :
    (∃ now i, Journal s past now i) ∧
      ∃ st, Writer.asks? (Fleet.of id (fleetEvents (shown past))) = some st ∧ st.sql = sql ∧
        ∀ v ∈ st.rows, ∃ m ∈ received (shown past), v.2 ∈ fragments s.tables st.template v.1 m := by
  cases h with
  | @step log before after now i stopping t turn e hj hstep hentries =>
    have hmove := (move_of_step? (hj.run.outcome_eq_none hstep) hstep).1
    have hnot : .dispatch (.fleet (.writer id (.queried sql n))) ∉ i.events now t :=
      hmove.no_writer
    refine absurd ?_ hnot
    rw [← shown_entries, hentries, shown_append]
    exact List.mem_append_right _ List.mem_cons_self
  | @write log now i t w turn e hj hw hstep hevents =>
    obtain ⟨⟨k, hroster⟩, haccepted⟩ := hj.run.sourced
    have hfilled : Writer.Filled (Fleet.of w.id (fleetEvents (shown past))) := by
      intro r hr _
      obtain ⟨m, -, hreq⟩ := haccepted w.id r hr
      exact (request?_batched hreq).2
    obtain ⟨st, hasks, hsql, hrows⟩ := (hroster.runs w hw).asks hfilled hstep hevents
    refine ⟨⟨now, i, hj⟩, st, hasks, hsql, fun v hv => ?_⟩
    obtain ⟨r, hr, hbrings⟩ := hrows v hv
    obtain ⟨m, hm, hreq⟩ := haccepted w.id r hr
    exact ⟨m, hm, mem_fragments hreq hbrings⟩

end BmpFeed.Intake
