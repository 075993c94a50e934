import BmpFeed.Proofs.Clock
import BmpFeed.Proofs.Site.Run
import Mathlib.Logic.Relation

/-!
# Supervision

A supervisor ends once every intake that was started has gone through its whole shutdown, and only
then. It ends in failure if an intake could not be created, or else with the first failure in the
order in which the intakes ended. `Guard` is what holds of it at any time, `Returned` what holds of
the site once it has ended.
-/

namespace BmpFeed.Site

open Intake (Sight Watched World)

variable {settings : Settings} {make : Nat → Except Feed.Fault Feed.Bus}
  {logs : Nat → List Sight} {s s' : Site} {i i' : Intake} {v : Supervisor}

/-! ## What the supervisor has noticed -/

theorem find?_not_contained {joined rest : List Nat} (h : (joined ++ rest).Nodup) :
    (joined ++ rest).find? (fun id => !joined.contains id) = rest.head? := by
  have hold : joined.find? (fun id => !joined.contains id) = none :=
    List.find?_eq_none.2 fun id hid => by simp [hid]
  rw [List.find?_append, hold, Option.none_or]
  cases rest with
  | nil => rfl
  | cons id rest =>
    have hnew : id ∉ joined := fun hid =>
      List.disjoint_of_nodup_append h hid List.mem_cons_self
    rw [List.find?_cons_of_pos (by simpa using hnew)]
    rfl

/-- What holds of the supervisor at any time. -/
structure Guard (settings : Settings) (make : Nat → Except Feed.Fault Feed.Bus) (s : Site)
    (v : Supervisor) : Prop where
  /-- It notices the ends in their order. -/
  joined : v.joined <+: s.ended
  complete : v.ended = true → v.joined.length = s.intakes.length
  /-- A failed creation is the failure. -/
  aborted : v.aborted = true → s.stopping = true ∧ s.intakes.length < settings.base.intakes ∧
    ∃ f, make s.intakes.length = .error f ∧ v.failure = some (.noBus f)
  /-- If all were created, the first failure among those noticed is. -/
  running : v.aborted = false → s.intakes.length = settings.base.intakes ∧
    v.failure = v.joined.findSome? s.failureAt ∧ (v.joined ≠ [] → s.stopping = true)

namespace Guard

/-- More may end and the site may be told to stop. -/
theorem around (h : Guard settings make s v) (hlen : s'.intakes.length = s.intakes.length)
    (hended : s.ended <+: s'.ended) (hstop : s.stopping = true → s'.stopping = true)
    (hsame : ∀ id ∈ s.ended, s'.failureAt id = s.failureAt id) : Guard settings make s' v where
  joined := h.joined.trans hended
  complete he := (h.complete he).trans hlen.symm
  aborted he := by
    obtain ⟨hs, hlt, hf⟩ := h.aborted he
    exact ⟨hstop hs, by rwa [hlen], by rwa [hlen]⟩
  running he := by
    obtain ⟨hall, hf, hs⟩ := h.running he
    refine ⟨hlen.trans hall, hf.trans ?_, fun hne => hstop (hs hne)⟩
    rw [← List.head?_filterMap, ← List.head?_filterMap,
      List.filterMap_congr fun id hid => hsame id (h.joined.subset hid)]

/-- The next end that the supervisor notices is the next one that there was. -/
theorem joined_snoc (h : Guard settings make s v) (hnodup : s.ended.Nodup) {id : Nat}
    (hfind : (s.ended.find? fun id => !v.joined.contains id) = some id) :
    v.joined ++ [id] <+: s.ended := by
  obtain ⟨rest, hrest⟩ := h.joined
  rw [← hrest] at hnodup hfind ⊢
  rw [find?_not_contained hnodup] at hfind
  cases rest with
  | nil => simp at hfind
  | cons id' rest =>
    obtain rfl := Option.some.inj hfind
    exact ⟨rest, by simp⟩

end Guard

theorem failureAt_congr (h : s'.intakes = s.intakes) (id : Nat) :
    s'.failureAt id = s.failureAt id := by
  unfold failureAt intake?
  rw [h]

theorem Roll.failureAt_eq (h : Roll settings make logs s) (hi : i ∈ s.intakes) :
    s.failureAt i.id = failureOf? i := by
  unfold failureAt
  rw [h.intake?_eq hi]
  rfl

/-- An intake that goes on changes nothing of how others have ended. -/
theorem Roll.failureAt_replace (i' : Intake) {logs' : Nat → List Sight}
    (h : Roll settings make logs s) (h' : Roll settings make logs' s') (hi : i ∈ s.intakes)
    (hid : i'.id = i.id) (hintakes : s'.intakes = (s.replace i').intakes) {id : Nat}
    (hsame : id = i.id → failureOf? i' = failureOf? i) : s'.failureAt id = s.failureAt id := by
  by_cases he : id = i.id
  · have hi' : i' ∈ s'.intakes := hintakes ▸ mem_replace_self hi hid
    have hat := h'.failureAt_eq hi'
    rw [hid] at hat
    rw [he, hat, h.failureAt_eq hi, hsame he]
  · rw [failureAt_congr hintakes]
    unfold failureAt
    rw [intake?_replace_of_ne (hid ▸ he)]

theorem Run.guard (h : Run settings make logs s) (hv : s.supervisor = some v) :
    Guard settings make s v := by
  induction h generalizing v with
  | start => exact absurd hv (by simp)
  | create hrun hnone _ _ _ ih => exact absurd (hnone.symm.trans hv) (by simp)
  | abort hrun hnone hlt hmake _ =>
    obtain rfl := Option.some.inj hv
    exact ⟨List.nil_prefix, by simp [supervisorFor], fun _ => ⟨rfl, hlt, _, hmake, rfl⟩,
      by simp⟩
  | begin_ hrun hnone hall _ =>
    obtain rfl := Option.some.inj hv
    exact ⟨List.nil_prefix, by simp [supervisorFor], by simp [supervisorFor],
      fun _ => ⟨hall, rfl, by simp [supervisorFor]⟩⟩
  | @intake logs s i turn hrun hi hstep ih =>
    have hroll := hrun.roll
    have hopen := (hroll.runs i hi).run.outcome_eq_none hstep
    refine (ih hv).around (length_replace ..) ?_ id fun id hid => ?_
    · unfold advance
      dsimp only
      split_ifs
      · exact List.prefix_append ..
      · exact List.prefix_refl _
    · refine hroll.failureAt_replace _ (hrun.intake hi hstep).roll hi (Intake.id_of_step hstep) rfl
        fun he => ?_
      rw [he, hroll.mem_ended_iff hi] at hid
      exact absurd hopen hid
  | @write logs s i w turn hrun hi hw hstep ih =>
    refine (ih hv).around (length_replace ..) (List.prefix_refl _) id fun id _ => ?_
    exact hrun.roll.failureAt_replace
      { i with dispatch := { i.dispatch with fleet := i.dispatch.fleet.replace turn.writer } }
      (hrun.write hi hw hstep).roll hi rfl rfl fun _ => rfl
  | @bus logs s i bus hrun hi hchange ih =>
    refine (ih hv).around (length_replace ..) (List.prefix_refl _) id fun id _ => ?_
    exact hrun.roll.failureAt_replace { i with bus } (hrun.bus hi hchange).roll hi rfl rfl
      fun _ => rfl
  | @supervise logs s s' hrun hstep ih =>
    obtain ⟨v', hv', hended, ⟨id, hfind, rfl⟩ | ⟨-, ⟨hall, rfl⟩ | ⟨-, -, rfl⟩⟩⟩ :=
      superviseStep?_cases hstep
    · have hold := ih hv'
      have hjoined := hold.joined_snoc hrun.roll.nodup hfind
      cases hab : v'.aborted with
      | true =>
        rw [join_of_aborted hab] at hv ⊢
        obtain rfl := Option.some.inj hv
        exact ⟨hjoined, by simp [hended], hold.aborted, by simp [hab]⟩
      | false =>
        obtain ⟨notes, hjoin⟩ := s.join_of_running hab id
        rw [hjoin] at hv ⊢
        obtain rfl := Option.some.inj hv
        obtain ⟨hcreated, hfailure, -⟩ := hold.running hab
        refine ⟨hjoined, by simp [hended], by simp [hab], fun _ => ⟨hcreated, ?_, fun _ => rfl⟩⟩
        show v'.failure.or (s.failureAt id) = (v'.joined ++ [id]).findSome? s.failureAt
        rw [List.findSome?_append, ← hfailure, List.findSome?_singleton]
    · obtain rfl := Option.some.inj hv
      have hold := ih hv'
      exact ⟨hold.joined, fun _ => hall, hold.aborted, hold.running⟩
    · obtain rfl := Option.some.inj hv
      have hold := ih hv'
      exact ⟨hold.joined, hold.complete, hold.aborted, hold.running⟩
  | report hrun hv' _ _ ih =>
    obtain rfl := Option.some.inj hv
    have hold := ih hv'
    exact ⟨hold.joined, hold.complete, hold.aborted, hold.running⟩
  | stop hrun ih =>
    exact (ih hv).around rfl (List.prefix_refl _) (fun _ => rfl) fun _ _ => rfl
  | store t hrun ih | wait hrun _ ih =>
    exact (ih hv).around rfl (List.prefix_refl _) id fun _ _ => rfl

/-! ## When the supervisor has ended -/

/-- A site whose supervisor has ended. -/
structure Returned (settings : Settings) (make : Nat → Except Feed.Fault Feed.Bus)
    (logs : Nat → List Sight) (s : Site) : Prop where
  /-- The intakes are the first ones, and each of them could be created. -/
  ids : s.intakes.map Intake.id = List.range s.intakes.length
  made : ∀ n < s.intakes.length, ∃ bus, make n = .ok bus
  /-- Each of them has ended, has gone through its whole shutdown and has closed its bus. -/
  left : ∀ i ∈ s.intakes, i.hasEnded = true ∧ Intake.Left (logs i.id) i
  stopping : s.stopping = true
  /-- There is no failure if all intakes were created and stopped without one. -/
  succeeds : s.failure? = none ↔ (∀ n < settings.base.intakes, ∃ bus, make n = .ok bus) ∧
    ∀ i ∈ s.intakes, i.outcome = some .stopped
  /-- If one could not be created, those before it were started and that is the failure. -/
  notCreated : ∀ n < settings.base.intakes, ∀ f, make n = .error f →
    (∀ m < n, ∃ bus, make m = .ok bus) → s.intakes.length = n ∧ s.failure? = some (.noBus f)
  /-- Otherwise all were started, and the failure is that of the first to end with one. -/
  created : (∀ n < settings.base.intakes, ∃ bus, make n = .ok bus) →
    s.intakes.length = settings.base.intakes ∧
      s.ended.Perm (List.range settings.base.intakes) ∧
      s.failure? = s.ended.findSome? s.failureAt

theorem Roll.ended_subset (h : Roll settings make logs s) :
    s.ended ⊆ List.range s.intakes.length := by
  intro id hid
  obtain ⟨i, hi, rfl, -⟩ := (h.mem_ended id).1 hid
  exact List.mem_range.2 (h.lt hi)

/-- If as many have ended as there are, all have. -/
theorem Roll.ended_perm (h : Roll settings make logs s)
    (hlen : s.intakes.length ≤ s.ended.length) :
    s.ended.Perm (List.range s.intakes.length) :=
  (List.subperm_of_subset h.nodup h.ended_subset).perm_of_length_le
    (by rwa [List.length_range])

theorem Roll.hasEnded (h : Roll settings make logs s)
    (hperm : s.ended.Perm (List.range s.intakes.length)) (hi : i ∈ s.intakes) :
    i.outcome ≠ none :=
  (h.mem_ended_iff hi).1 (hperm.mem_iff.2 (List.mem_range.2 (h.lt hi)))

theorem failureOf?_eq_none (hended : i.outcome ≠ none) :
    failureOf? i = none ↔ i.outcome = some .stopped := by
  unfold failureOf?
  cases ho : i.outcome with
  | none => exact absurd ho hended
  | some o => cases o <;> simp

/-- No end was a failure. -/
theorem Roll.no_failure_iff (h : Roll settings make logs s)
    (hperm : s.ended.Perm (List.range s.intakes.length)) :
    s.ended.findSome? s.failureAt = none ↔ ∀ i ∈ s.intakes, i.outcome = some .stopped := by
  rw [List.findSome?_eq_none_iff]
  constructor
  · intro hnone i hi
    have hended := h.hasEnded hperm hi
    rw [← failureOf?_eq_none hended, ← h.failureAt_eq hi]
    exact hnone i.id ((h.mem_ended_iff hi).2 hended)
  · intro hall id hid
    obtain ⟨i, hi, rfl, hended⟩ := (h.mem_ended id).1 hid
    rw [h.failureAt_eq hi, failureOf?_eq_none hended]
    exact hall i hi

theorem Run.returned (h : Run settings make logs s) (hsome : 1 ≤ settings.base.intakes)
    (hcrash : ∀ i ∈ s.intakes, i.outcome ≠ some .crashed) (hv : s.supervisor = some v)
    (hended : v.ended = true) : Returned settings make logs s := by
  have hroll := h.roll
  have hguard := h.guard hv
  have hlen := hguard.complete hended
  have hperm := hroll.ended_perm (hlen ▸ hguard.joined.length_le)
  have hjoined : v.joined = s.ended := by
    refine hguard.joined.eq_of_length_le (Nat.le_of_eq ?_)
    rw [hlen, hperm.length_eq, List.length_range]
  have hfailure : s.failure? = v.failure := by
    unfold failure?
    rw [hv]
  have hleft : ∀ i ∈ s.intakes, i.hasEnded = true ∧ Intake.Left (logs i.id) i := by
    intro i hi
    have hi' := hroll.hasEnded hperm hi
    exact ⟨Option.isSome_iff_ne_none.2 hi', (hroll.runs i hi).left hi' (hcrash i hi)⟩
  cases hab : v.aborted with
  | true =>
    obtain ⟨hstop, hlt, f, hmake, hf⟩ := hguard.aborted hab
    have hnot : ¬ ∀ n < settings.base.intakes, ∃ bus, make n = .ok bus := by
      intro hall
      obtain ⟨bus, hbus⟩ := hall _ hlt
      rw [hmake] at hbus
      exact absurd hbus (by simp)
    refine ⟨hroll.ids, hroll.made, hleft, hstop, ?_, ?_, fun hall => absurd hall hnot⟩
    · rw [hfailure, hf]
      exact iff_of_false (by simp) fun hall => hnot hall.1
    · intro n hn f' hf' hbefore
      rcases Nat.lt_trichotomy n s.intakes.length with hlt' | rfl | hlt'
      · obtain ⟨bus, hbus⟩ := hroll.made n hlt'
        rw [hf'] at hbus
        exact absurd hbus (by simp)
      · obtain rfl : f' = f := Except.error.inj (hf'.symm.trans hmake)
        exact ⟨rfl, hfailure.trans hf⟩
      · obtain ⟨bus, hbus⟩ := hbefore _ hlt'
        rw [hmake] at hbus
        exact absurd hbus (by simp)
  | false =>
    obtain ⟨hcreated, hf, hstop⟩ := hguard.running hab
    have hall : ∀ n < settings.base.intakes, ∃ bus, make n = .ok bus := hcreated ▸ hroll.made
    rw [hjoined] at hf hstop
    refine ⟨hroll.ids, hroll.made, hleft, hstop ?_, ?_, ?_, fun _ => ?_⟩
    · rintro hnil
      rw [hnil] at hperm
      have hzero := hperm.length_eq
      rw [List.length_nil, List.length_range] at hzero
      omega
    · rw [hfailure, hf, hroll.no_failure_iff hperm]
      exact (and_iff_right hall).symm
    · intro n hn f hf' _
      obtain ⟨bus, hbus⟩ := hall n hn
      rw [hf'] at hbus
      exact absurd hbus (by simp)
    · exact ⟨hcreated, hcreated ▸ hperm, hfailure.trans hf⟩

/-! ## That the supervisor ends -/

/-- While not all ends are noticed the next one can be. -/
theorem Guard.find?_ended (h : Guard settings make s v) (hnodup : s.ended.Nodup) :
    (s.ended.find? fun id => !v.joined.contains id) = s.ended[v.joined.length]? := by
  obtain ⟨rest, hrest⟩ := h.joined
  rw [← hrest] at hnodup ⊢
  rw [find?_not_contained hnodup, List.getElem?_append_right (Nat.le_refl _), Nat.sub_self,
    List.head?_eq_getElem?]

/-- The supervisor makes a step of its own. -/
def Supervises (s s' : Site) : Prop := s.superviseStep? = some s'

theorem supervises_join (hv : s.supervisor = some v) (hended : v.ended = false) {id : Nat}
    (hfind : (s.ended.find? fun id => !v.joined.contains id) = some id) :
    Supervises s (s.join v id) := by
  unfold Supervises superviseStep?
  simp only [hv, Option.bind_eq_bind, Option.bind_some, hended, Bool.false_eq_true, if_false,
    hfind]

theorem supervises_end (hv : s.supervisor = some v) (hended : v.ended = false)
    (hfind : (s.ended.find? fun id => !v.joined.contains id) = none)
    (hall : v.joined.length = s.intakes.length) :
    Supervises s { s with supervisor := some { v with ended := true } } := by
  unfold Supervises superviseStep?
  simp only [hv, Option.bind_eq_bind, Option.bind_some, hended, Bool.false_eq_true, if_false,
    hfind, hall, if_true]

theorem supervisor_join (s : Site) (v : Supervisor) (id : Nat) :
    ∃ v', (s.join v id).supervisor = some v' ∧ v'.joined = v.joined ++ [id] := by
  cases hab : v.aborted with
  | true =>
    rw [join_of_aborted hab]
    exact ⟨_, rfl, rfl⟩
  | false =>
    obtain ⟨notes, hjoin⟩ := s.join_of_running hab id
    rw [hjoin]
    exact ⟨_, rfl, rfl⟩

/-- Once all intakes that were started have ended, the supervisor ends by itself. -/
theorem Run.returns (h : Run settings make logs s) (hv : s.supervisor = some v)
    (hall : ∀ i ∈ s.intakes, i.hasEnded = true) :
    ∃ s' v', Relation.ReflTransGen Supervises s s' ∧ Run settings make logs s' ∧
      s'.intakes = s.intakes ∧ s'.supervisor = some v' ∧ v'.ended = true := by
  obtain ⟨left, hleft⟩ : ∃ left, left = s.ended.length - v.joined.length := ⟨_, rfl⟩
  induction left using Nat.strongRecOn generalizing s v with
  | ind left ih =>
    cases hended : v.ended with
    | true => exact ⟨s, v, .refl, h, rfl, hv, hended⟩
    | false =>
      have hroll := h.roll
      have hguard := h.guard hv
      cases hfind : s.ended.find? fun id => !v.joined.contains id with
      | some id =>
        have hstep := supervises_join hv hended hfind
        obtain ⟨v', hv', hjoined⟩ := s.supervisor_join v id
        obtain ⟨hintakes, hsame, -⟩ := superviseStep?_frame hstep
        have hmore := (hguard.joined_snoc hroll.nodup hfind).length_le
        rw [List.length_append, List.length_singleton] at hmore
        have hless : (s.join v id).ended.length - v'.joined.length < left := by
          rw [hsame, hjoined, List.length_append, List.length_singleton]
          omega
        obtain ⟨s', v'', hsteps, hrun, hintakes', hover⟩ :=
          ih _ hless (h.supervise hstep) hv' (by rwa [hintakes]) rfl
        exact ⟨s', v'', .head hstep hsteps, hrun, hintakes'.trans hintakes, hover⟩
      | none =>
        have hnone := (hguard.find?_ended hroll.nodup).symm.trans hfind
        rw [List.getElem?_eq_none_iff] at hnone
        have hsubset : List.range s.intakes.length ⊆ s.ended := by
          intro id hid
          rw [← hroll.ids] at hid
          obtain ⟨i, hi, rfl⟩ := List.mem_map.1 hid
          exact (hroll.mem_ended_iff hi).2 (Option.isSome_iff_ne_none.1 (hall i hi))
        have hle := (List.subperm_of_subset List.nodup_range hsubset).length_le
        rw [List.length_range] at hle
        have hge := (List.subperm_of_subset hroll.nodup hroll.ended_subset).length_le
        rw [List.length_range] at hge
        have hprefix := hguard.joined.length_le
        have hstep := supervises_end hv hended hfind (by omega)
        exact ⟨_, _, .single hstep, h.supervise hstep, rfl, rfl, rfl⟩

/-- A supervisor ends only when all is in order, and it ends when nothing keeps it. -/
structure Supervision (settings : Settings) (make : Nat → Except Feed.Fault Feed.Bus)
    (logs : Nat → List Sight) (s : Site) (v : Supervisor) : Prop where
  /-- Once it has ended, every intake has left and the failure is the one that counts. -/
  returned : v.ended = true → Returned settings make logs s
  /-- Once every intake has ended it ends by itself, however many ends it had not noticed. -/
  returns : (∀ i ∈ s.intakes, i.hasEnded = true) →
    ∃ s', Relation.ReflTransGen Supervises s s' ∧ Returned settings make logs s'

/-- However the intakes of a site are created, fail and end, its supervisor ends when it should and
with the failure it should. -/
theorem Run.supervision (h : Run settings make logs s) (hsome : 1 ≤ settings.base.intakes)
    (hcrash : ∀ i ∈ s.intakes, i.outcome ≠ some .crashed) (hv : s.supervisor = some v) :
    Supervision settings make logs s v := by
  refine ⟨h.returned hsome hcrash hv, fun hall => ?_⟩
  obtain ⟨s', v', hsteps, hrun, hintakes, hv', hended⟩ := h.returns hv hall
  exact ⟨s', hsteps, hrun.returned hsome (by rwa [hintakes]) hv' hended⟩

/-! ## Supervised sites by the clock -/

/-- Intakes take the buses of a list, as long as there are any. -/
def fromBuses (buses : List Feed.Bus) (n : Nat) : Except Feed.Fault Feed.Bus :=
  match buses[n]? with
  | some bus => .ok bus
  | none => .error noBrokers

/-- Creating intakes one by one comes to creating them at once. -/
theorem Run.recruit {buses : List Feed.Bus} (h : Run settings make logs s)
    (hnone : s.supervisor = none) (hnow : s.now = 0) (count : Nat)
    (hcount : s.intakes.length + count = settings.base.intakes)
    (hmake : ∀ k, make (s.intakes.length + k) = fromBuses buses k)
    (hclosable : ∀ bus ∈ buses, bus.Closable) :
    Run settings make logs
      { s with
        intakes := s.intakes ++ (recruit settings s.intakes.length count buses s.store).1
        store := (recruit settings s.intakes.length count buses s.store).2.2 } := by
  induction count generalizing s buses with
  | zero => simpa [Site.recruit] using h
  | succ count ih =>
    cases buses with
    | nil => simpa [Site.recruit] using h
    | cons bus buses =>
      have hfirst := h.create hnone (by omega) (hmake 0) (hclosable bus List.mem_cons_self)
      have hlen : (s.enroll settings bus).intakes.length = s.intakes.length + 1 := by
        unfold enroll
        rw [List.length_append, List.length_singleton]
      have hnext : ∀ k, make ((s.enroll settings bus).intakes.length + k) = fromBuses buses k := by
        intro k
        rw [hlen, Nat.add_assoc, Nat.add_comm 1 k]
        exact hmake (k + 1)
      have hrest := ih hfirst hnone hnow (by omega) hnext
        fun b hb => hclosable b (List.mem_cons_of_mem _ hb)
      rw [hlen] at hrest
      simpa [Site.recruit, enroll, hnow] using hrest

theorem length_recruit (settings : Settings) (id count : Nat) (buses : List Feed.Bus)
    (t : Store) : (recruit settings id count buses t).1.length = min count buses.length := by
  induction count generalizing id buses t with
  | zero => simp [recruit]
  | succ count ih =>
    cases buses with
    | nil => simp [recruit]
    | cons bus buses =>
      unfold recruit
      rw [List.length_cons, ih, List.length_cons]
      omega

/-- A site that is set up at once is in a run. -/
theorem Run.supervised (settings : Settings) (buses : List Feed.Bus) (t : Store)
    (hclosable : ∀ bus ∈ buses, bus.Closable) :
    Run settings (fromBuses buses) (fun _ => []) (supervised settings buses t) := by
  have hstart : Run settings (fromBuses buses) (fun _ => [])
      { store := t, spare := (Site.recruit settings 0 settings.base.intakes buses t).2.1 } :=
    .start 0 false t _
  have hcreated := hstart.recruit rfl rfl settings.base.intakes (Nat.zero_add _)
    (fun k => congrArg _ (Nat.zero_add k)) hclosable
  have hlen := length_recruit settings 0 settings.base.intakes buses t
  unfold Site.supervised
  generalize Site.recruit settings 0 settings.base.intakes buses t = created at hcreated hlen
  obtain ⟨intakes, spare, store⟩ := created
  dsimp only at hcreated hlen ⊢
  rw [List.nil_append] at hcreated
  split_ifs with hlt
  · have hmake : fromBuses buses intakes.length = .error noBrokers := by
      unfold fromBuses
      rw [List.getElem?_eq_none (by omega)]
    simpa [Site.abort, supervisorFor] using hcreated.abort rfl hlt hmake
  · have hall : intakes.length = settings.base.intakes :=
      Nat.le_antisymm hcreated.roll.length_le (Nat.le_of_not_lt hlt)
    simpa [Site.begin_, supervisorFor] using hcreated.begin_ rfl hall

theorem Run.step (h : Run settings make logs s) (hstep : s.step? = some s') :
    ∃ logs', Run settings make logs' s' := by
  unfold step? at hstep
  rcases Option.or_eq_some_iff.1 hstep with hstep | ⟨-, hstep⟩
  · obtain ⟨i, hi, hstep⟩ := List.exists_of_findSome?_eq_some hstep
    obtain ⟨turn, hturn, rfl⟩ := Option.map_eq_some_iff.1 hstep
    exact ⟨_, h.intake hi hturn⟩
  · rcases Option.or_eq_some_iff.1 hstep with hstep | ⟨-, hstep⟩
    · exact ⟨_, h.supervise hstep⟩
    · obtain ⟨i, hi, hstep⟩ := List.exists_of_findSome?_eq_some hstep
      obtain ⟨⟨fleet, t, notes⟩, hfleet, rfl⟩ := Option.map_eq_some_iff.1 hstep
      obtain ⟨w, hw, hwriter⟩ := List.exists_of_findSome?_eq_some hfleet
      obtain ⟨turn, hturn, he⟩ := Option.map_eq_some_iff.1 hwriter
      obtain ⟨rfl, hrest⟩ := Prod.mk.inj he
      obtain ⟨rfl, rfl⟩ := Prod.mk.inj hrest
      exact ⟨_, h.write hi hw hturn⟩

/-- A site that goes on stays in a run. -/
theorem Run.finish (h : Run settings make logs s) (done : Site → Bool) (fuel : Nat) :
    ∃ logs', Run settings make logs' (Timed.finish done fuel s) := by
  refine Timed.finish_induction (P := fun s : Site => ∃ logs', Run settings make logs' s) ?_ ?_
    done fuel ⟨logs, h⟩
  · rintro s s' ⟨logs', h'⟩ hstep
    exact h'.step hstep
  · rintro s t ⟨logs', h'⟩
    exact ⟨logs', h'.wait (Nat.le_max_right _ _)⟩

/-- Two intakes with a writer for each category. -/
def pairSettings : Settings :=
  { base := { intakes := 2, maxWriters := 1 }, kafka := { patterns := ["t"] } }

/-- The first poll of the one intake fails, the other has nothing to do. -/
def pairBuses : List Feed.Bus := [{ pollFault := some (.client "lost") }, {}]

/-- Two intakes to the end. -/
def pairSite : Site := Timed.finish isOver 400 (supervised pairSettings pairBuses {})

/-- A site with a bus for one of two intakes to its end. -/
def loneSite : Site := Timed.finish isOver 400 (supervised pairSettings [{}] {})

theorem supervision_sample :
    (∃ logs s v, Run pairSettings (fromBuses pairBuses) logs s ∧ s.supervisor = some v ∧
      v.ended = true ∧ s.failure? = some (.intakeFailed 0 (.client "lost")) ∧
      Supervision pairSettings (fromBuses pairBuses) logs s v) ∧
    ∃ logs s v, Run pairSettings (fromBuses [{}]) logs s ∧ s.supervisor = some v ∧
      v.ended = true ∧ s.failure? = some (.noBus noBrokers) ∧
      Supervision pairSettings (fromBuses [{}]) logs s v := by
  constructor
  · have hclosable : ∀ bus ∈ pairBuses, bus.Closable := by
      simp [pairBuses, Feed.Bus.Closable]
    obtain ⟨logs, hrun⟩ : ∃ logs, Run pairSettings (fromBuses pairBuses) logs pairSite :=
      (Run.supervised pairSettings pairBuses {} hclosable).finish isOver 400
    have hended : pairSite.supervisor.any Supervisor.ended = true := by decide +kernel
    have hcrash : (pairSite.intakes.all fun i => i.outcome ≠ some .crashed) = true := by
      decide +kernel
    obtain ⟨v, hv, hover⟩ := (Option.any_eq_true _ _).1 hended
    refine ⟨logs, pairSite, v, hrun, hv, hover, by decide +kernel,
      hrun.supervision (by decide) (by simpa using hcrash) hv⟩
  · have hclosable : ∀ bus ∈ [({} : Feed.Bus)], bus.Closable := by simp [Feed.Bus.Closable]
    obtain ⟨logs, hrun⟩ : ∃ logs, Run pairSettings (fromBuses [{}]) logs loneSite :=
      (Run.supervised pairSettings [{}] {} hclosable).finish isOver 400
    have hended : loneSite.supervisor.any Supervisor.ended = true := by decide +kernel
    have hcrash : (loneSite.intakes.all fun i => i.outcome ≠ some .crashed) = true := by
      decide +kernel
    obtain ⟨v, hv, hover⟩ := (Option.any_eq_true _ _).1 hended
    refine ⟨logs, loneSite, v, hrun, hv, hover, by decide +kernel,
      hrun.supervision (by decide) (by simpa using hcrash) hv⟩

end BmpFeed.Site
