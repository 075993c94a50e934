import BmpFeed.Proofs.Intake.Leaving
import BmpFeed.Site

/-!
# Runs of a supervised site

`Run` holds of everything that can happen to a site under a supervisor: its intakes are created one
by one, unless one of them cannot be, and work from then on; their writers work beside them, and the
supervisor notices who has ended; the store and the buses are in any state in between; the site may
be told to stop at any time; and time passes. `Roll` says which intakes there are and which of them
have ended.
-/

namespace BmpFeed.Site

open Intake (Sight Watched World)

/-! ## Steps -/

/-- More is seen of one intake. -/
def extend (logs : Nat → List Sight) (id : Nat) (new : List Sight) (j : Nat) : List Sight :=
  if j = id then logs j ++ new else logs j

/-- The site when an intake has made a step. -/
def advance (s : Site) (i : Intake) (turn : Intake.Turn) : Site :=
  { s.replace turn.intake with
    store := turn.store, notes := turn.notes.reverse ++ s.notes
    ended := if turn.intake.hasEnded then s.ended ++ [i.id] else s.ended }

/-- The site when a writer of an intake has made a step. -/
def advanceWriter (s : Site) (i : Intake) (turn : Writer.Turn) : Site :=
  { s.replace
      { i with dispatch := { i.dispatch with fleet := i.dispatch.fleet.replace turn.writer } } with
    store := turn.store, notes := turn.notes.reverse ++ s.notes }

/-- The site with one more intake. -/
def enroll (s : Site) (settings : Settings) (bus : Feed.Bus) : Site :=
  let (intake, store) := Intake.open_ s.intakes.length settings bus s.now s.store
  { s with intakes := s.intakes ++ [intake], store }

/-- A supervisor that has noticed nothing yet. -/
def supervisorFor (s : Site) (settings : Settings) : Supervisor :=
  let interval := settings.base.statsInterval * 1000
  { interval, nextReport := s.now + interval }

/-- The next intake cannot be created. -/
def abort (s : Site) (settings : Settings) (fault : Feed.Fault) : Site :=
  { s with
    stopping := true
    supervisor :=
      some { s.supervisorFor settings with failure := some (.noBus fault), aborted := true }
    notes := .intakeNotStarted s.intakes.length fault.message :: s.notes }

/-- All intakes have been created. -/
def begin_ (s : Site) (settings : Settings) : Site :=
  { s with
    supervisor := some (s.supervisorFor settings)
    notes := .intakesStarted s.intakes.length :: s.notes }

/-- The supervisor reports, whoever has ended. -/
def reported (s : Site) (v : Supervisor) : Site :=
  { s with supervisor := some { v with nextReport := v.nextReport + v.interval } }.note s.report

/-- The runs of a site for some settings, with what is seen of its intakes. The bus of an intake, or
why it has none, is what `make` answers for its number. -/
inductive Run (settings : Settings) (make : Nat → Except Feed.Fault Feed.Bus) :
    (Nat → List Sight) → Site → Prop
  | start (now : Nat) (stopping : Bool) (t : Store) (spare : List Feed.Bus) :
      Run settings make (fun _ => []) { now, store := t, stopping, spare }
  | create {logs : Nat → List Sight} {s : Site} {bus : Feed.Bus} :
      Run settings make logs s → s.supervisor = none →
        s.intakes.length < settings.base.intakes → make s.intakes.length = .ok bus →
        bus.Closable → Run settings make logs (s.enroll settings bus)
  | abort {logs : Nat → List Sight} {s : Site} {fault : Feed.Fault} :
      Run settings make logs s → s.supervisor = none →
        s.intakes.length < settings.base.intakes → make s.intakes.length = .error fault →
        Run settings make logs (s.abort settings fault)
  | begin_ {logs : Nat → List Sight} {s : Site} :
      Run settings make logs s → s.supervisor = none →
        s.intakes.length = settings.base.intakes → Run settings make logs (s.begin_ settings)
  | intake {logs : Nat → List Sight} {s : Site} {i : Intake} {turn : Intake.Turn} :
      Run settings make logs s → i ∈ s.intakes →
        i.step? s.now s.stopping s.store = some turn →
        Run settings make (extend logs i.id (i.sights s.now s.store turn)) (s.advance i turn)
  | write {logs : Nat → List Sight} {s : Site} {i : Intake} {w : Writer} {turn : Writer.Turn} :
      Run settings make logs s → i ∈ s.intakes → w ∈ i.dispatch.fleet.writers →
        w.step? s.now s.store = some turn →
        Run settings make (extend logs i.id ((Intake.writerEntries w s.store).map .noted))
          (s.advanceWriter i turn)
  | bus {logs : Nat → List Sight} {s : Site} {i : Intake} {bus : Feed.Bus} :
      Run settings make logs s → i ∈ s.intakes → World.shared.change i.bus bus →
        Run settings make logs (s.replace { i with bus })
  | supervise {logs : Nat → List Sight} {s s' : Site} :
      Run settings make logs s → s.superviseStep? = some s' → Run settings make logs s'
  | report {logs : Nat → List Sight} {s : Site} {v : Supervisor} :
      Run settings make logs s → s.supervisor = some v → v.reports = true →
        v.nextReport ≤ s.now → Run settings make logs (s.reported v)
  | stop {logs : Nat → List Sight} {s : Site} :
      Run settings make logs s → Run settings make logs { s with stopping := true }
  | store {logs : Nat → List Sight} {s : Site} (t : Store) :
      Run settings make logs s → Run settings make logs { s with store := t }
  | wait {logs : Nat → List Sight} {s : Site} {now : Nat} :
      Run settings make logs s → s.now ≤ now → Run settings make logs { s with now }

variable {settings : Settings} {make : Nat → Except Feed.Fault Feed.Bus}
  {logs : Nat → List Sight} {s s' : Site} {i i' : Intake} {v : Supervisor}

@[simp] theorem extend_self (logs : Nat → List Sight) (id : Nat) (new : List Sight) :
    extend logs id new id = logs id ++ new :=
  if_pos rfl

theorem extend_of_ne (logs : Nat → List Sight) {id j : Nat} (new : List Sight) (h : j ≠ id) :
    extend logs id new j = logs j :=
  if_neg h

/-! ## One intake in another's place -/

theorem ids_replace (s : Site) (i : Intake) :
    (s.replace i).intakes.map Intake.id = s.intakes.map Intake.id := by
  unfold replace
  rw [List.map_map]
  apply List.map_congr_left
  intro j _
  simp only [Function.comp_apply]
  split_ifs with he
  · exact he.symm
  · rfl

@[simp] theorem length_replace (s : Site) (i : Intake) :
    (s.replace i).intakes.length = s.intakes.length :=
  List.length_map _

theorem mem_replace {j : Intake} (h : j ∈ (s.replace i').intakes) :
    j = i' ∨ j ∈ s.intakes ∧ j.id ≠ i'.id := by
  obtain ⟨k, hk, rfl⟩ := List.mem_map.1 h
  split_ifs with he
  · exact .inl rfl
  · exact .inr ⟨hk, he⟩

theorem mem_replace_self (hi : i ∈ s.intakes) (hid : i'.id = i.id) :
    i' ∈ (s.replace i').intakes :=
  List.mem_map.2 ⟨i, hi, if_pos hid.symm⟩

theorem mem_replace_of_ne (hi : i ∈ s.intakes) (hne : i.id ≠ i'.id) :
    i ∈ (s.replace i').intakes :=
  List.mem_map.2 ⟨i, hi, if_neg hne⟩

/-- The intake with a number, if there is one. -/
def intake? (s : Site) (id : Nat) : Option Intake := s.intakes.find? fun i => i.id = id

theorem intake?_replace_of_ne {id : Nat} (h : id ≠ i.id) :
    (s.replace i).intake? id = s.intake? id := by
  have hsame : ((fun j : Intake => decide (j.id = id)) ∘ fun j => if j.id = i.id then i else j) =
      fun j => decide (j.id = id) := by
    funext j
    simp only [Function.comp_apply]
    split_ifs with he
    · rw [he]
    · rfl
  unfold intake? replace
  rw [List.find?_map, hsame]
  cases hfind : s.intakes.find? fun j => decide (j.id = id) with
  | none => rfl
  | some j =>
    have hj : j.id = id := by simpa using List.find?_some hfind
    exact congrArg some (if_neg (hj ▸ h))

/-- What an intake that has ended with a failure ended with. -/
def failureAt (s : Site) (id : Nat) : Option Failure := (s.intake? id).bind failureOf?

/-! ## The intakes of a site -/

/-- The intakes of a site are those that could be created so far. Each is in a run of its own, and
those that have ended are known in the order of their ends. -/
structure Roll (settings : Settings) (make : Nat → Except Feed.Fault Feed.Bus)
    (logs : Nat → List Sight) (s : Site) : Prop where
  ids : s.intakes.map Intake.id = List.range s.intakes.length
  length_le : s.intakes.length ≤ settings.base.intakes
  made : ∀ n < s.intakes.length, ∃ bus, make n = .ok bus
  runs : ∀ i ∈ s.intakes, Watched .shared settings (logs i.id) s.now i
  fresh : ∀ n, s.intakes.length ≤ n → logs n = []
  nodup : s.ended.Nodup
  mem_ended : ∀ id, id ∈ s.ended ↔ ∃ i ∈ s.intakes, i.id = id ∧ i.outcome ≠ none

namespace Roll

theorem nodup_ids (h : Roll settings make logs s) : (s.intakes.map Intake.id).Nodup := by
  rw [h.ids]
  exact List.nodup_range

theorem lt (h : Roll settings make logs s) (hi : i ∈ s.intakes) : i.id < s.intakes.length := by
  have hmem := List.mem_map_of_mem (f := Intake.id) hi
  rwa [h.ids, List.mem_range] at hmem

theorem eq_of_id (h : Roll settings make logs s) (hi : i ∈ s.intakes) (hi' : i' ∈ s.intakes)
    (hid : i.id = i'.id) : i = i' :=
  List.inj_on_of_nodup_map h.nodup_ids hi hi' hid

theorem mem_ended_iff (h : Roll settings make logs s) (hi : i ∈ s.intakes) :
    i.id ∈ s.ended ↔ i.outcome ≠ none := by
  rw [h.mem_ended]
  constructor
  · rintro ⟨j, hj, hid, ho⟩
    exact h.eq_of_id hj hi hid ▸ ho
  · exact fun ho => ⟨i, hi, rfl, ho⟩

theorem intake?_eq (h : Roll settings make logs s) (hi : i ∈ s.intakes) :
    s.intake? i.id = some i := by
  unfold intake?
  cases hfind : s.intakes.find? fun j => decide (j.id = i.id) with
  | none =>
    have hnone := List.find?_eq_none.1 hfind i hi
    simp at hnone
  | some j =>
    have hid : j.id = i.id := by simpa using List.find?_some hfind
    exact congrArg some (h.eq_of_id (List.mem_of_find?_eq_some hfind) hi hid)

/-- The same intakes, at another time and with other things around them. -/
theorem around (h : Roll settings make logs s) (hintakes : s'.intakes = s.intakes)
    (hended : s'.ended = s.ended) (hnow : s.now ≤ s'.now) : Roll settings make logs s' where
  ids := by rw [hintakes]; exact h.ids
  length_le := by rw [hintakes]; exact h.length_le
  made := by rw [hintakes]; exact h.made
  runs i hi := by
    rw [hintakes] at hi
    exact (h.runs i hi).wait hnow
  fresh := by rw [hintakes]; exact h.fresh
  nodup := by rw [hended]; exact h.nodup
  mem_ended := by rw [hended, hintakes]; exact h.mem_ended

/-- One intake goes on in its run. -/
theorem update (i' : Intake) {new : List Sight} {ended : List Nat}
    (h : Roll settings make logs s) (hi : i ∈ s.intakes) (hid : i'.id = i.id)
    (hrun : Watched .shared settings (logs i.id ++ new) s.now i')
    (hended : i'.outcome = i.outcome ∧ ended = s.ended ∨
      i.outcome = none ∧ i'.outcome ≠ none ∧ ended = s.ended ++ [i.id])
    (hintakes : s'.intakes = (s.replace i').intakes) (hnow : s'.now = s.now)
    (hs' : s'.ended = ended) : Roll settings make (extend logs i.id new) s' := by
  have hlen : s'.intakes.length = s.intakes.length := by rw [hintakes, length_replace]
  have hmem : ∀ id, (∃ j ∈ s'.intakes, j.id = id ∧ j.outcome ≠ none) ↔
      (id ∈ s.ended ∧ id ≠ i.id) ∨ (id = i.id ∧ i'.outcome ≠ none) := by
    intro id
    rw [hintakes]
    constructor
    · rintro ⟨j, hj, rfl, ho⟩
      rcases mem_replace hj with rfl | ⟨hj, hne⟩
      · exact .inr ⟨hid, ho⟩
      · exact .inl ⟨(h.mem_ended_iff hj).2 ho, hid ▸ hne⟩
    · rintro (⟨hmem, hne⟩ | ⟨rfl, ho⟩)
      · obtain ⟨j, hj, rfl, ho⟩ := (h.mem_ended id).1 hmem
        exact ⟨j, mem_replace_of_ne hj (hid ▸ hne), rfl, ho⟩
      · exact ⟨i', mem_replace_self hi hid, hid, ho⟩
  constructor
  · rw [hintakes, ids_replace, length_replace]
    exact h.ids
  · rw [hlen]
    exact h.length_le
  · rw [hlen]
    exact h.made
  · intro j hj
    rw [hintakes] at hj
    rw [hnow]
    rcases mem_replace hj with rfl | ⟨hj, hne⟩
    · rwa [hid, extend_self]
    · rw [extend_of_ne _ _ (hid ▸ hne)]
      exact h.runs j hj
  · intro n hn
    rw [hlen] at hn
    have hlt := h.lt hi
    rw [extend_of_ne _ _ (by omega)]
    exact h.fresh n hn
  · rw [hs']
    rcases hended with ⟨-, rfl⟩ | ⟨ho, -, rfl⟩
    · exact h.nodup
    · refine h.nodup.append (List.nodup_singleton _) ?_
      simpa [h.mem_ended_iff hi] using ho
  · intro id
    rw [hs', hmem]
    by_cases he : id = i.id
    · subst he
      rcases hended with ⟨ho, rfl⟩ | ⟨ho, ho', rfl⟩
      · simp [h.mem_ended_iff hi, ho]
      · simp [ho']
    · rcases hended with ⟨-, rfl⟩ | ⟨-, -, rfl⟩
      · simp [he]
      · simp [he]

theorem enroll {bus : Feed.Bus} (h : Roll settings make logs s)
    (hlt : s.intakes.length < settings.base.intakes) (hmake : make s.intakes.length = .ok bus)
    (hbus : bus.Closable) : Roll settings make logs (s.enroll settings bus) := by
  have hlen : (s.enroll settings bus).intakes.length = s.intakes.length + 1 := by
    unfold Site.enroll
    rw [List.length_append, List.length_singleton]
  have hcases : ∀ i ∈ (s.enroll settings bus).intakes, i ∈ s.intakes ∨
      i = (Intake.open_ s.intakes.length settings bus s.now s.store).1 := fun i hi =>
    (List.mem_append.1 hi).imp_right List.mem_singleton.1
  constructor
  · rw [hlen]
    unfold Site.enroll
    rw [List.map_append, h.ids, List.range_succ]
    rfl
  · rw [hlen]
    exact hlt
  · intro n hn
    rw [hlen] at hn
    rcases Nat.lt_succ_iff_lt_or_eq.1 hn with hn | rfl
    · exact h.made n hn
    · exact ⟨bus, hmake⟩
  · intro i hi
    rcases hcases i hi with hi | rfl
    · exact h.runs i hi
    · have hlog : logs s.intakes.length = [] := h.fresh _ (Nat.le_refl _)
      have hopen : Watched .shared settings [] s.now
          (Intake.open_ s.intakes.length settings bus s.now s.store).1 := .open_ _ _ _ hbus
      exact hlog ▸ hopen
  · intro n hn
    rw [hlen] at hn
    exact h.fresh n (by omega)
  · exact h.nodup
  · intro id
    refine (h.mem_ended id).trans ⟨?_, ?_⟩
    · rintro ⟨i, hi, hid, ho⟩
      exact ⟨i, List.mem_append_left _ hi, hid, ho⟩
    · rintro ⟨i, hi, hid, ho⟩
      rcases hcases i hi with hi | rfl
      · exact ⟨i, hi, hid, ho⟩
      · exact absurd rfl ho

end Roll

/-- What a step of the supervisor can be. -/
theorem superviseStep?_cases (hstep : s.superviseStep? = some s') :
    ∃ v, s.supervisor = some v ∧ v.ended = false ∧
      ((∃ id, (s.ended.find? fun id => !v.joined.contains id) = some id ∧ s' = s.join v id) ∨
        (s.ended.find? fun id => !v.joined.contains id) = none ∧
          (v.joined.length = s.intakes.length ∧
              s' = { s with supervisor := some { v with ended := true } } ∨
            v.reports = true ∧ v.nextReport ≤ s.now ∧ s' = s.reported v)) := by
  unfold superviseStep? at hstep
  obtain ⟨v, hv, hstep⟩ := Option.bind_eq_some_iff.1 hstep
  have hended : v.ended = false := by
    cases he : v.ended with
    | false => rfl
    | true => simp [he] at hstep
  refine ⟨v, hv, hended, ?_⟩
  rw [if_neg (by simp [hended])] at hstep
  cases hfind : s.ended.find? fun id => !v.joined.contains id with
  | some id =>
    rw [hfind] at hstep
    exact .inl ⟨id, rfl, (Option.some.inj hstep).symm⟩
  | none =>
    rw [hfind] at hstep
    refine .inr ⟨rfl, ?_⟩
    split_ifs at hstep with hall hreport
    · exact .inl ⟨hall, (Option.some.inj hstep).symm⟩
    · exact .inr ⟨hreport.1, hreport.2, (Option.some.inj hstep).symm⟩

/-- A supervisor that notices an end after a failed creation does nothing else. -/
theorem join_of_aborted (h : v.aborted = true) (id : Nat) :
    s.join v id = { s with supervisor := some { v with joined := v.joined ++ [id] } } := by
  unfold join
  rw [if_pos h]

/-- Otherwise it tells the others to stop and keeps the first failure. -/
theorem join_of_running (h : v.aborted = false) (id : Nat) :
    ∃ notes, s.join v id =
      { s with
        stopping := true, notes
        supervisor :=
          some { v with
            joined := v.joined ++ [id], failure := v.failure.or (s.failureAt id) } } := by
  unfold join
  rw [if_neg (by simp [h])]
  exact ⟨_, rfl⟩

/-- The supervisor leaves the intakes alone. -/
theorem superviseStep?_frame (hstep : s.superviseStep? = some s') :
    s'.intakes = s.intakes ∧ s'.ended = s.ended ∧ s'.now = s.now := by
  obtain ⟨v, -, -, ⟨id, -, rfl⟩ | ⟨-, ⟨-, rfl⟩ | ⟨-, -, rfl⟩⟩⟩ := superviseStep?_cases hstep
  · cases hab : v.aborted with
    | true =>
      rw [join_of_aborted hab]
      exact ⟨rfl, rfl, rfl⟩
    | false =>
      obtain ⟨notes, hjoin⟩ := s.join_of_running hab id
      rw [hjoin]
      exact ⟨rfl, rfl, rfl⟩
  · exact ⟨rfl, rfl, rfl⟩
  · exact ⟨rfl, rfl, rfl⟩

namespace Run

theorem roll (h : Run settings make logs s) : Roll settings make logs s := by
  induction h with
  | start now stopping t spare =>
    exact ⟨rfl, Nat.zero_le _, by simp, by simp, fun _ _ => rfl, List.nodup_nil, by simp⟩
  | create _ _ hlt hmake hbus ih => exact ih.enroll hlt hmake hbus
  | abort | begin_ | report | stop | store =>
    rename_i ih
    exact ih.around rfl rfl (Nat.le_refl _)
  | wait _ hle ih => exact ih.around rfl rfl hle
  | supervise _ hstep ih =>
    obtain ⟨hintakes, hended, hnow⟩ := superviseStep?_frame hstep
    exact ih.around hintakes hended (Nat.le_of_eq hnow.symm)
  | @intake logs s i turn _ hi hstep ih =>
    have hopen := (ih.runs i hi).run.outcome_eq_none hstep
    refine ih.update _ hi (Intake.id_of_step hstep) ((ih.runs i hi).step hstep) ?_ rfl rfl rfl
    unfold advance Intake.hasEnded
    cases ho : turn.intake.outcome with
    | none => exact .inl ⟨hopen.symm, rfl⟩
    | some o => exact .inr ⟨hopen, by simp, rfl⟩
  | @write logs s i w turn _ hi hw hstep ih =>
    exact ih.update
      { i with dispatch := { i.dispatch with fleet := i.dispatch.fleet.replace turn.writer } }
      hi rfl ((ih.runs _ hi).write hw hstep) (.inl ⟨rfl, rfl⟩) rfl rfl rfl
  | @bus logs s i bus _ hi hchange ih =>
    have hrun : Watched .shared settings (logs i.id ++ []) s.now { i with bus } := by
      rw [List.append_nil]
      exact (ih.runs i hi).bus hchange
    have hsame : extend logs i.id [] = logs := by
      funext j
      unfold extend
      split_ifs <;> simp
    rw [← hsame]
    exact ih.update { i with bus } hi rfl hrun (.inl ⟨rfl, rfl⟩) rfl rfl rfl

end Run

end BmpFeed.Site
