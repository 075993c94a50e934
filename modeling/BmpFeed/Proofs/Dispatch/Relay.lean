import BmpFeed.Proofs.Dispatch.Complete
import BmpFeed.Proofs.Fleet.Executions

/-!
# The order of executions

A record that comes under one key of one category is with one writer at a time. `Relay` names the
writers that had it, one after another; in a steady run each of them has left before the next one
takes over. So what the store runs for the record, over all writers, is in the order in which it was
handed over, and when the fleet has ended the last fragment has been run.
-/

namespace BmpFeed.Dispatch

open Writer (ran accepted)

variable {p : Fleet.Policy} {capacity : Nat} {es : List Event} {now : Nat} {d : Dispatch}
  {desk : Desk} {f : Fleet} {chores : List Fleet.Chore} {fs fs' : List Fleet.Event}
  {g : String × String} {k : String} {c : Category} {key : String} {ids : List Nat} {id : Nat}
  {r : Request}

/-- The record comes under this key of the category only. -/
def Keyed (g : String × String) (k : String) (c : Category) (key : String) (rs : List Request) :
    Prop :=
  ∀ r ∈ rs, r.fragments g k ≠ [] → r.category = c ∧ r.key = key

theorem Keyed.of_append {rs rs' : List Request} (h : Keyed g k c key (rs ++ rs')) :
    Keyed g k c key rs :=
  fun r hr => h r (List.mem_append_left _ hr)

/-- The writers that had a record one after another. -/
structure Relay (g : String × String) (k : String) (c : Category) (key : String)
    (fs : List Fleet.Event) (ids : List Nat) : Prop where
  nodup : ids.Nodup
  delivered_eq : carried g k (Fleet.delivered fs) =
    ids.flatMap fun id => carried g k (accepted (Fleet.of id fs))
  executed_eq : written g k ((Fleet.executions fs).map Prod.snd) =
    ids.flatMap fun id => written g k (ran (Fleet.of id fs))
  others : ∀ id ∉ ids, carried g k (accepted (Fleet.of id fs)) = []
  routed : ∀ id ∈ ids, .routed c key id ∈ fs
  /-- All writers but the last have left. -/
  retired : ∀ id ∈ ids.dropLast, ∃ w, .retired w ∈ fs ∧ w.id = id

/-- What every writer has run is in the order in which its queue took it. -/
def InOrder (g : String × String) (k : String) (fs : List Fleet.Event) : Prop :=
  ∀ id, (written g k (ran (Fleet.of id fs))).Sublist (carried g k (accepted (Fleet.of id fs)))

theorem eq_dropLast_append {α : Type} {l : List α} {a : α} (h : a ∈ l) (hlast : a ∉ l.dropLast) :
    l = l.dropLast ++ [a] := by
  rcases List.eq_nil_or_concat l with rfl | ⟨l', b, rfl⟩
  · simp at h
  · rw [List.concat_eq_append] at h hlast ⊢
    rw [List.dropLast_concat] at hlast ⊢
    rw [List.mem_singleton.1 ((List.mem_append.1 h).resolve_left hlast)]

/-- One of the writers, which is the last if it is among these, adds to what they have. -/
theorem flatMap_extend {α β : Type} {l : List α} {a : α} {u v : α → List β} {δ : List β}
    (hlast : a ∉ l.dropLast) (hother : ∀ b, b ≠ a → v b = u b) (hself : v a = u a ++ δ)
    (hnone : a ∉ l → δ = []) : l.flatMap v = l.flatMap u ++ δ := by
  by_cases ha : a ∈ l
  · have hrest : l.dropLast.flatMap v = l.dropLast.flatMap u :=
      List.flatMap_congr fun b hb => hother b fun he => hlast (he ▸ hb)
    rw [eq_dropLast_append ha hlast, List.flatMap_append, List.flatMap_append, hrest,
      List.flatMap_singleton, List.flatMap_singleton, hself, List.append_assoc]
  · rw [hnone ha, List.append_nil]
    exact List.flatMap_congr fun b hb => hother b fun he => ha (he ▸ hb)

namespace Relay

theorem start : Relay g k c key [] [] :=
  ⟨List.nodup_nil, rfl, rfl, fun _ _ => rfl, by simp, by simp⟩

/-- A writer that is there is the last one, if it had the record. -/
theorem not_mem_dropLast (h : Relay g k c key fs ids)
    (hpresent : ∀ w, .retired w ∈ fs → w.id ≠ id) : id ∉ ids.dropLast := by
  intro hmem
  obtain ⟨w, hw, he⟩ := h.retired id hmem
  exact hpresent w hw he

theorem retired_append (h : Relay g k c key fs ids) :
    ∀ id ∈ ids.dropLast, ∃ w, .retired w ∈ fs ++ fs' ∧ w.id = id := by
  intro id hid
  obtain ⟨w, hw, he⟩ := h.retired id hid
  exact ⟨w, List.mem_append_left _ hw, he⟩

/-- Events that are not the writers' own. -/
theorem quiet (h : Relay g k c key fs ids) (hof : ∀ id, Fleet.of id fs' = []) :
    Relay g k c key (fs ++ fs') ids := by
  have hsame : ∀ id, Fleet.of id (fs ++ fs') = Fleet.of id fs := fun id => by
    rw [Fleet.of_append, hof, List.append_nil]
  refine ⟨h.nodup, ?_, ?_, ?_, fun id hid => List.mem_append_left _ (h.routed id hid),
    h.retired_append⟩
  · rw [Fleet.delivered_append, Fleet.delivered_eq_nil hof, List.append_nil]
    simpa only [hsame] using h.delivered_eq
  · rw [Fleet.executions_append, Fleet.executionsFrom_eq_nil hof, List.append_nil]
    simpa only [hsame] using h.executed_eq
  · intro id hid
    rw [hsame]
    exact h.others id hid

/-- A writer makes a step. -/
theorem write {evs : List Writer.Event} (h : Relay g k c key fs ids) (hlen : evs.length ≤ 1)
    (hacc : accepted evs = []) (hpresent : ∀ w, .retired w ∈ fs → w.id ≠ id)
    (hle : (Writer.executed (Fleet.of id fs)).length ≤ (Writer.begun (Fleet.of id fs)).length)
    (hin : InOrder g k (fs ++ evs.map (.writer id))) :
    Relay g k c key (fs ++ evs.map (.writer id)) ids := by
  have hother : ∀ i, i ≠ id → Fleet.of i (fs ++ evs.map (.writer id)) = Fleet.of i fs :=
    fun i hi => by rw [Fleet.of_append, Fleet.of_writer_of_ne hi.symm, List.append_nil]
  have hself : Fleet.of id (fs ++ evs.map (.writer id)) = Fleet.of id fs ++ evs := by
    rw [Fleet.of_append, Fleet.of_writer]
  have haccepted : ∀ i, accepted (Fleet.of i (fs ++ evs.map (.writer id))) =
      accepted (Fleet.of i fs) := by
    intro i
    by_cases hi : i = id
    · subst hi
      rw [hself, Writer.accepted_append, hacc, List.append_nil]
    · rw [hother i hi]
  have hran := congrArg (written g k) (Fleet.ran_events hlen hle)
  rw [written_append, ← hself] at hran
  refine ⟨h.nodup, ?_, ?_, ?_, fun i hi => List.mem_append_left _ (h.routed i hi),
    h.retired_append⟩
  · rw [Fleet.delivered_append, Fleet.delivered_writer, List.append_nil]
    simpa only [haccepted] using h.delivered_eq
  · rw [Fleet.executions_append, List.map_append, written_append, h.executed_eq]
    refine (flatMap_extend (h.not_mem_dropLast hpresent) (fun i hi => by rw [hother i hi]) hran
      fun hid => ?_).symm
    -- what a writer runs came to it, and nothing of the record did
    have hnone := hin id
    rw [haccepted, h.others id hid, hran, List.sublist_nil] at hnone
    exact (List.append_eq_nil_iff.1 hnone).2
  · intro i hi
    rw [haccepted]
    exact h.others i hi

/-- A writer gets the record when all others that had it have left. -/
theorem takeOver (h : Relay g k c key fs ids) (hrouted : .routed c key id ∈ fs)
    (hleft : ∀ id' ∈ ids, id' ≠ id → ∃ w, .retired w ∈ fs ∧ w.id = id') (hin : InOrder g k fs) :
    ∃ ids', Relay g k c key fs ids' ∧ id ∈ ids' := by
  by_cases hid : id ∈ ids
  · exact ⟨ids, h, hid⟩
  have hran := hin id
  rw [h.others id hid, List.sublist_nil] at hran
  refine ⟨ids ++ [id], ⟨?_, ?_, ?_, ?_, ?_, ?_⟩, by simp⟩
  · exact h.nodup.append (List.nodup_singleton _) (by simpa using hid)
  · rw [List.flatMap_append, List.flatMap_singleton, h.others id hid, List.append_nil]
    exact h.delivered_eq
  · rw [List.flatMap_append, List.flatMap_singleton, hran, List.append_nil]
    exact h.executed_eq
  · exact fun i hi => h.others i fun hmem => hi (List.mem_append_left _ hmem)
  · intro i hi
    rcases List.mem_append.1 hi with hi | hi
    · exact h.routed i hi
    · rw [List.mem_singleton.1 hi]
      exact hrouted
  · intro i hi
    rw [List.dropLast_concat] at hi
    exact hleft i hi fun he => hid (he ▸ hi)

/-- A writer's queue takes a request; if this carries the record, the writer has it. -/
theorem deliver (h : Relay g k c key fs ids) (hpresent : ∀ w, .retired w ∈ fs → w.id ≠ id)
    (hid : r.fragments g k ≠ [] → id ∈ ids) (c' : Category) :
    Relay g k c key (fs ++ [.delivered c' id r]) ids := by
  have hother : ∀ i, i ≠ id → Fleet.of i (fs ++ [.delivered c' id r]) = Fleet.of i fs :=
    fun i hi => by rw [Fleet.of_append, Fleet.of_delivered_of_ne hi.symm, List.append_nil]
  have hself : Fleet.of id (fs ++ [.delivered c' id r]) = Fleet.of id fs ++ [.accepted r] := by
    rw [Fleet.of_append, Fleet.of_delivered]
  have hone : carried g k [r] = r.fragments g k := List.flatMap_singleton ..
  have haccepted : carried g k (accepted (Fleet.of id (fs ++ [.delivered c' id r]))) =
      carried g k (accepted (Fleet.of id fs)) ++ r.fragments g k := by
    rw [hself, Writer.accepted_append, carried_append, ← hone]
    rfl
  have hnone : id ∉ ids → r.fragments g k = [] := fun hmem => by
    by_contra hfrag
    exact hmem (hid hfrag)
  have hran : ∀ i, ran (Fleet.of i (fs ++ [.delivered c' id r])) = ran (Fleet.of i fs) := by
    intro i
    by_cases hi : i = id
    · subst hi
      rw [hself, ran, ran, Writer.begun_append, Writer.executed_append]
      simp [Writer.begun, Writer.executed]
    · rw [hother i hi]
  refine ⟨h.nodup, ?_, ?_, ?_, fun i hi => List.mem_append_left _ (h.routed i hi),
    h.retired_append⟩
  · rw [Fleet.delivered_append, carried_append, h.delivered_eq]
    refine (congrArg _ hone).trans (flatMap_extend (h.not_mem_dropLast hpresent)
      (fun i hi => by rw [hother i hi]) haccepted hnone).symm
  · rw [Fleet.executions_append]
    simp only [hran]
    simpa [Fleet.executionsFrom, Fleet.execution] using h.executed_eq
  · intro i hi
    by_cases he : i = id
    · subst he
      rw [haccepted, h.others i hi, hnone hi, List.append_nil]
    · rw [hother i he]
      exact h.others i hi

end Relay

/-! ## Runs -/

namespace Run

theorem inOrder (h : Run p capacity es now d desk) (hb : Batched es)
    (hdied : ∀ id, .died ∉ Fleet.of id (fleetEvents es)) : InOrder g k (fleetEvents es) := by
  intro id
  rcases h.fleet.1.exists_run (hdied id) with hnone | ⟨n, w, hrun⟩
  · rw [hnone]
    exact List.Sublist.refl _
  · exact hrun.ran_sublist (h.filled hb) (hdied id) fun r hr =>
      (hb r (h.mem_pushed_of_accepted hr)).1

/-- The next step of a pass: a writer that is delivered the record is the only one that has it. -/
theorem relay_passOn {q : Backlog.Pass} {waiting : Option Request}
    (h : Run p capacity es now d { pass := some q, waiting }) (hb : Batched es)
    (hk : Keyed g k c key (pushed es)) (hs : Fleet.Steady (fleetEvents es))
    (hr : Relay g k c key (fleetEvents es) ids) :
    ∃ ids', Relay g k c key (fleetEvents es ++ fleetEvents (passEvents q d)) ids' := by
  cases hitems : d.backlog.items with
  | nil =>
    rw [(passStep_nil hitems).1]
    exact ⟨ids, hr.quiet fun _ => rfl⟩
  | cons r others =>
    obtain ⟨place, id, owner, m, hrouted, -, howner, -, rfl⟩ := h.passMove hitems
    have hquiet : Relay g k c key
        (fleetEvents es ++ [.routed r.category r.key owner.writer.id]) ids :=
      hr.quiet fun _ => rfl
    generalize passEvents q d = ev at m ⊢
    generalize (d.passStep q).2.1 = d' at m
    generalize (d.passStep q).1 = q' at m
    cases m with
    | keep => exact ⟨ids, hquiet⟩
    | deliver =>
      have hopen : .dismissed ∉ fleetEvents es := fun hmem => absurd (h.fleet.2.1 hmem) (by simp)
      have hpresent : ∀ w, .retired w ∈ fleetEvents es ++
          [.routed r.category r.key owner.writer.id] → w.id ≠ owner.writer.id := by
        intro w hw he
        obtain ⟨-, -, hnot, -⟩ := hrouted.staff.roster.retired w hw
        exact hnot (he ▸ List.mem_map_of_mem
          (Fleet.mem_writers_of_post (List.mem_of_getElem? howner)))
      have hgoal : fleetEvents es ++ fleetEvents
          [.fleet (.routed r.category r.key owner.writer.id),
            .fleet (.delivered r.category owner.writer.id r)] =
          (fleetEvents es ++ [.routed r.category r.key owner.writer.id]) ++
            [.delivered r.category owner.writer.id r] := by
        rw [List.append_assoc]
        rfl
      rw [hgoal]
      by_cases hfrag : r.fragments g k = []
      · exact ⟨ids, hquiet.deliver hpresent (fun hne => absurd hfrag hne) r.category⟩
      · obtain ⟨rfl, rfl⟩ := hk r (h.mem_pushed_of_item (by simp [hitems])) hfrag
        have hin := h.inOrder (g := g) (k := k) hb hs.died
        obtain ⟨ids', hr', hid⟩ := hquiet.takeOver
          (List.mem_append_right (fleetEvents es) (List.mem_singleton_self _))
          (fun id' hid' hne => by
            obtain ⟨w, hw, he⟩ := hrouted.retired_of_rerouted hopen hs (hr.routed id' hid') hne
            exact ⟨w, List.mem_append_left _ hw, he⟩)
          (fun id => by
            rw [Fleet.of_append, show Fleet.of id [.routed _ _ _] = [] from rfl, List.append_nil]
            exact hin id)
        exact ⟨ids', hr'.deliver hpresent (fun _ => hid) r.category⟩

/-- Every record has been with one writer at a time. -/
theorem relay (h : Run p capacity es now d desk) (hb : Batched es)
    (hk : Keyed g k c key (pushed es)) (hs : Fleet.Steady (fleetEvents es)) :
    ∃ ids, Relay g k c key (fleetEvents es) ids := by
  induction h with
  | start => exact ⟨[], .start⟩
  | wait _ _ ih => exact ih hb hk hs
  | push _ _ ih => exact ih hb hk hs
  | beginPass _ ih => exact ih hb hk hs
  | endPass _ _ ih => exact ih hb hk hs
  | check _ ih => exact ih hb hk hs
  | hand _ _ ih | dismiss _ _ ih =>
    rw [fleetEvents_append] at hs ⊢
    rw [pushed_append] at hk
    obtain ⟨ids, hr⟩ := ih hb.of_append hk.of_append hs.of_append
    exact ⟨ids, hr.quiet fun _ => rfl⟩
  | chore _ hstep ih =>
    rw [fleetEvents_append] at hs ⊢
    rw [pushed_append] at hk
    obtain ⟨ids, hr⟩ := ih hb.of_append hk.of_append hs.of_append
    rw [fleetEvents_map]
    exact ⟨ids, hr.quiet (Fleet.Chore.move_of_step? hstep).of_eq⟩
  | @write es now d desk t w turn hrun hw hstep ih =>
    have hin := (hrun.write hw hstep).inOrder (g := g) (k := k) hb hs.died
    rw [fleetEvents_append, fleetEvents_map] at hs hin ⊢
    rw [pushed_append] at hk
    obtain ⟨ids, hr⟩ := ih hb.of_append hk.of_append hs.of_append
    have hmove := Writer.move_of_step? hstep
    refine ⟨ids, hr.write hmove.length_le hmove.accepted_eq (fun v hv he => ?_) ?_ hin⟩
    · obtain ⟨-, -, hnot, -⟩ := hrun.fleet.1.staff.roster.retired v hv
      exact hnot (he ▸ List.mem_map_of_mem hw)
    · exact (hrun.fleet.1.staff.roster.runs w hw).length_executed_le (hrun.filled hb.of_append)
        (hs.of_append.died w.id) (hs.of_append.dropped w.id)
  | passOn hrun _ ih =>
    rw [fleetEvents_append] at hs ⊢
    rw [pushed_append] at hk
    obtain ⟨ids, hr⟩ := ih hb.of_append hk.of_append hs.of_append
    exact hrun.relay_passOn hb.of_append hk.of_append hs.of_append hr

theorem flatMap_filter_eq {α β : Type} {l : List α} {u : α → List β} {q : α → Bool}
    (h : ∀ a ∈ l, u a ≠ [] → q a = true) : (l.filter q).flatMap u = l.flatMap u := by
  induction l with
  | nil => rfl
  | cons a l ih =>
    have hrest := ih fun b hb => h b (List.mem_cons_of_mem _ hb)
    rw [List.filter_cons, List.flatMap_cons]
    split_ifs with hq
    · rw [List.flatMap_cons, hrest]
    · have hnone : u a = [] := by
        by_contra hne
        exact hq (h a List.mem_cons_self hne)
      rw [hrest, hnone, List.nil_append]

/-- What was handed over of a record was delivered, or it waits behind that. -/
theorem carried_pushed (h : Run p capacity es now d desk) (hk : Keyed g k c key (pushed es)) :
    carried g k (pushed es) = carried g k (Fleet.delivered (fleetEvents es)) ++
      carried g k ((ordered d.backlog.items desk.pass ++ desk.waiting.toList).filter
        (Request.isFor c key)) := by
  have hfor : ∀ r ∈ pushed es, r.fragments g k ≠ [] → r.isFor c key = true := fun r hr hne => by
    simpa [Request.isFor] using hk r hr hne
  have hfor' : ∀ r ∈ Fleet.delivered (fleetEvents es), r.fragments g k ≠ [] →
      r.isFor c key = true := fun r hr => hfor r (h.mem_pushed_of_delivered hr)
  have hfifo := congrArg (carried g k) (h.fifo c key)
  rw [List.append_assoc, List.filter_append, carried_append] at hfifo
  unfold carried at hfifo ⊢
  rwa [flatMap_filter_eq hfor, flatMap_filter_eq hfor'] at hfifo

/-- What the store runs for a record was handed over in the same order. -/
theorem executions_sublist (h : Run p capacity es now d desk) (hb : Batched es)
    (hk : Keyed g k c key (pushed es)) (hs : Fleet.Steady (fleetEvents es)) :
    (written g k ((Fleet.executions (fleetEvents es)).map Prod.snd)).Sublist
      (carried g k (pushed es)) := by
  obtain ⟨ids, hr⟩ := h.relay hb hk hs
  have hin := h.inOrder (g := g) (k := k) hb hs.died
  rw [h.carried_pushed hk, hr.delivered_eq, hr.executed_eq]
  exact (List.Sublist.flatMap_right ids fun id _ => hin id).trans (List.sublist_append_left _ _)

/-- When the fleet has ended, the last fragment of a record that was handed over has been run. -/
theorem executions_condenses (h : Run p capacity es now d { closed := true }) (hb : Batched es)
    (hk : Keyed g k c key (pushed es)) (hs : Fleet.Steady (fleetEvents es)) :
    Condenses (written g k ((Fleet.executions (fleetEvents es)).map Prod.snd))
      (carried g k (pushed es)) := by
  obtain ⟨ids, hr⟩ := h.relay hb hk hs
  have hitems := (h.items_of_closed rfl).1
  rw [h.carried_pushed hk, hr.delivered_eq, hr.executed_eq, hitems]
  simp only [ordered, Option.toList_none, List.append_nil, List.filter_nil]
  refine (Condenses.flatMap fun id _ => ?_).trans (.of_eq (List.append_nil _).symm)
  have hfleet := h.fleet.1
  by_cases hlt : id < d.fleet.nextId
  · obtain ⟨w, n, -, -, hrun, hgone⟩ := hfleet.left_of_absent (hs.died id) hlt
      (by simp [hfleet.writers_eq_nil (h.fleet.2.2 rfl)])
    exact hrun.ran_condenses (h.filled hb) (hs.dropped id)
      (fun r hr => (hb r (h.mem_pushed_of_accepted hr)).1) hgone
  · rw [hfleet.staff.roster.fresh id (Nat.le_of_not_lt hlt)]
    exact .refl _

end Run

end BmpFeed.Dispatch
