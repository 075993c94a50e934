import BmpFeed.Proofs.Intake.Stance

/-!
# Flow control

An intake with a bus of its own polls it only while it is not paused, and works on messages and
shows signs of life only while it is. `Controlled.step` says that every step keeps the calls in
order and the tasks in step with them, and `Watched.flow_control` what follows for whole runs.
-/

namespace BmpFeed.Intake

variable {s : Settings} {log : List Sight} {now : Nat} {i : Intake} {stopping : Bool} {t : Store}
  {turn : Turn} {task : Task} {ts rest front : List Task} {g : Gauge}

/-- What has been seen of an intake is in order and goes together with its bus and its tasks. -/
structure Controlled (log : List Sight) (i : Intake) : Prop where
  orderly : Orderly log
  matched : Matches (gauge log) i.bus
  stance : Stance (gauge log) i.tasks i.outcome

namespace Controlled

/-- One sight more. -/
theorem snoc (h : Controlled log i) {x : Sight} (hsights : i.sights now t turn = [x])
    (hx : Allowed log x) (hbus : Matches ((gauge log).see x) turn.intake.bus)
    (hstance : Stance ((gauge log).see x) turn.intake.tasks turn.intake.outcome) :
    Controlled (log ++ i.sights now t turn) turn.intake := by
  rw [hsights]
  refine ⟨h.orderly.snoc hx, ?_, ?_⟩
  · rwa [gauge_snoc]
  · rwa [gauge_snoc]

/-- The journal's entries and the rows of the routers change no counts. -/
theorem asides (h : Controlled log i) (now : Nat) (t : Store) (hts : i.tasks = task :: rest)
    (hchecked : task ≠ .checked)
    (hpause : task.needsPause = true → (gauge log).paused = true) :
    Orderly (log ++ ((i.entries now t).map .noted ++ i.findings t)) ∧
      gauge (log ++ ((i.entries now t).map .noted ++ i.findings t)) = gauge log := by
  have hfindings : ∀ x ∈ i.findings t, ∃ rows, x = .refreshed rows := by
    intro x hx
    unfold findings at hx
    rw [hts] at hx
    cases task with
    | refresh => exact ⟨_, List.mem_singleton.1 hx⟩
    | checked => exact absurd rfl hchecked
    | _ => exact absurd hx (by simp)
  apply h.orderly.asides
  · intro x hx
    rcases List.mem_append.1 hx with hx | hx
    · obtain ⟨e, -, rfl⟩ := List.mem_map.1 hx
      rfl
    · obtain ⟨rows, rfl⟩ := hfindings x hx
      rfl
  · intro e he hhandling
    rcases List.mem_append.1 he with he | he
    · obtain ⟨e', he', heq⟩ := List.mem_map.1 he
      obtain rfl := Sight.noted.inj heq
      cases hneeds : task.needsPause with
      | true => exact hpause hneeds
      | false => exact absurd hhandling (by simp [isHandling_entries hts hneeds he'])
    · exact absurd (hfindings _ he) (by simp)

/-- A step that calls on the bus at most to show a sign of life. -/
theorem quiet (h : Controlled log i) (hts : i.tasks = task :: rest)
    (hstep : i.step? now stopping t = some turn) (hcalling : task.isCalling = false)
    (hchecked : task ≠ .checked)
    (hpause : task.needsPause = true → (gauge log).paused = true ∧ (gauge log).closed = false)
    (hstance : Stance (gauge log) turn.intake.tasks turn.intake.outcome) :
    Controlled (log ++ i.sights now t turn) turn.intake := by
  obtain ⟨horderly, hgauge⟩ := h.asides now t hts hchecked fun hp => (hpause hp).1
  unfold sights
  rw [← List.append_assoc]
  rcases quiet_of_step hts hstep hcalling with ⟨hcalls, hbus⟩ | ⟨hbeat, hcalls, hbus⟩
  · rw [hcalls, List.append_nil]
    refine ⟨horderly, ?_, by rwa [hgauge]⟩
    rw [hgauge, hbus]
    exact h.matched
  · obtain ⟨hpaused, hclosed⟩ := hpause (needsPause_of_mayBeat hbeat)
    rw [hcalls, Feed.Bus.keepAlive_of_willing h.matched.refusals_eq]
    have hsee : gauge ((log ++ ((i.entries now t).map .noted ++ i.findings t)) ++
        [.called .heartbeat 0 none]) = gauge log := by
      rw [gauge_snoc, hgauge]
      rfl
    refine ⟨horderly.snoc ?_, ?_, ?_⟩
    · exact ⟨by rw [hgauge, hclosed], by rw [hgauge, hpaused]⟩
    · have hm := h.matched
      rw [hbus, Feed.Bus.keepAlive_of_willing hm.refusals_eq]
      exact hsee ▸ ⟨hm.refusals_eq, hm.paused_eq, hm.closed_eq, hm.pauses_eq, hm.resumes_eq⟩
    · exact hsee ▸ hstance

/-- A step of a task that does not need a paused bus. -/
theorem unpaused (h : Controlled log i) (hts : i.tasks = task :: rest)
    (hstep : i.step? now stopping t = some turn) (hcalling : task.isCalling = false)
    (hchecked : task ≠ .checked) (hneeds : task.needsPause = false)
    (hstance : Stance (gauge log) turn.intake.tasks turn.intake.outcome) :
    Controlled (log ++ i.sights now t turn) turn.intake :=
  h.quiet hts hstep hcalling hchecked (fun hp => absurd hp (by simp [hneeds])) hstance

/-! ### Calls -/

theorem pause (h : Controlled log i) (hts : i.tasks = task :: rest)
    (htask : task = .pause ∨ task = .lastPause) (hstep : i.step? now stopping t = some turn)
    (hclosed : (gauge log).closed = false)
    (hstance : Stance ((gauge log).see (.called .pause 0 none)) rest i.outcome) :
    Controlled (log ++ i.sights now t turn) turn.intake := by
  have hm := h.matched
  have hsights : i.sights now t turn = calls turn.notes :=
    sights_of_calling hts (by rcases htask with rfl | rfl <;> rfl)
  have hpause := Feed.Bus.pause_of_willing hm.refusals_eq
  obtain rfl : turn = ({ i with bus := i.bus.pause.bus }).goOn rest t [i.bus.pause.note] := by
    rcases htask with rfl | rfl
    · cases deed_of_step? hts hstep with
      | pause => rfl
      | pauseFailed hfailed => simp [hpause] at hfailed
    · cases deed_of_step? hts hstep with
      | lastPause => rfl
      | lastPauseFailed hfailed => simp [hpause] at hfailed
  rw [hpause] at hsights ⊢
  refine h.snoc hsights ⟨hclosed, trivial⟩ ?_ hstance
  exact ⟨hm.refusals_eq, rfl, hm.closed_eq, congrArg (· + 1) hm.pauses_eq, hm.resumes_eq⟩

theorem resume (h : Controlled log i) (hts : i.tasks = .resume :: rest)
    (hstep : i.step? now stopping t = some turn) (hclosed : (gauge log).closed = false)
    (hstance : Stance ((gauge log).see (.called .resume 0 none)) rest i.outcome) :
    Controlled (log ++ i.sights now t turn) turn.intake := by
  have hm := h.matched
  have hresume := Feed.Bus.resume_of_willing hm.refusals_eq
  have hsights : i.sights now t turn = calls turn.notes := sights_of_calling hts rfl
  obtain rfl : turn = ({ i with bus := i.bus.resume.bus }).goOn rest t [i.bus.resume.note] := by
    cases deed_of_step? hts hstep with
    | resume => rfl
    | resumeFailed hfailed => simp [hresume] at hfailed
  rw [hresume] at hsights ⊢
  refine h.snoc hsights ⟨hclosed, trivial⟩ ?_ hstance
  exact ⟨hm.refusals_eq, rfl, hm.closed_eq, hm.pauses_eq, congrArg (· + 1) hm.resumes_eq⟩

theorem leave (h : Controlled log i) {f : Option Feed.Fault} (hts : i.tasks = .leave f :: rest)
    (hstep : i.step? now stopping t = some turn) (hheld : (gauge log).Held 1) :
    Controlled (log ++ i.sights now t turn) turn.intake := by
  have hm := h.matched
  have hclose := Feed.Bus.close_of_willing hm.refusals_eq
  have hsights : i.sights now t turn = calls turn.notes := sights_of_calling hts rfl
  cases deed_of_step? hts hstep
  unfold leaveStep at hsights ⊢
  dsimp only at hsights ⊢
  rw [hclose] at hsights ⊢
  refine h.snoc hsights ⟨hheld.closed_eq, trivial⟩ ?_ ?_
  · exact ⟨hm.refusals_eq, hm.paused_eq, rfl, hm.pauses_eq, hm.resumes_eq⟩
  · exact .left rfl hheld.resumes_eq hheld.pauses_eq (by cases f <;> simp)

/-- A check of the fleet ends. -/
theorem checked (h : Controlled log i) (hts : i.tasks = .checked :: rest)
    (hstep : i.step? now stopping t = some turn)
    (hstance : Stance ((gauge log).see .checked) rest i.outcome) :
    Controlled (log ++ i.sights now t turn) turn.intake := by
  have hm := h.matched
  have hsights : i.sights now t turn = .checked :: calls turn.notes := by
    unfold sights entries events findings
    rw [hts]
    rfl
  cases deed_of_step? hts hstep
  refine h.snoc hsights trivial ?_ hstance
  unfold Gauge.see
  dsimp only
  split_ifs
  · exact ⟨hm.refusals_eq, hm.paused_eq, hm.closed_eq, hm.pauses_eq, hm.resumes_eq⟩
  · exact hm

/-- A task in front of others that are of its kind. -/
theorem inFront {kind : Task → Bool} {back : List Task} (h : Controlled log i) (hkind : Steady kind)
    (hts : i.tasks = task :: (front ++ back)) (hstep : i.step? now stopping t = some turn)
    (ho : i.outcome = none) (hfront : ∀ t ∈ task :: front, kind t = true)
    (hchecked : task ≠ .checked)
    (hpause : task.needsPause = true → (gauge log).paused = true ∧ (gauge log).closed = false)
    (hcrash : ∀ q, task = .run q → Stance (gauge log) [] (some .crashed))
    (hstance : ∀ front', (∀ t ∈ front', kind t = true) →
      Stance (gauge log) (front' ++ back) none) :
    Controlled (log ++ i.sights now t turn) turn.intake := by
  have htask := hfront task List.mem_cons_self
  refine h.quiet hts hstep (hkind.isCalling_eq htask) hchecked hpause ?_
  have hleave : ∀ f, task ≠ .leave f := by
    rintro f rfl
    exact absurd (hkind.mayCut_eq htask) (by simp [Task.mayCut])
  rcases outcome_of_step hts hstep hleave with hsame | ⟨⟨q, rfl⟩, hcrashed, hnil⟩
  · obtain ⟨front', htasks, hfront'⟩ := (tasks_of_step hts hstep).front
      (P := fun t => kind t = true) (hkind.mayCut_eq htask)
      (fun t hleads => hkind.leadsTo hleads htask)
      (fun t ht => hfront t (List.mem_cons_of_mem _ ht)) (by simp [hsame, ho])
    rw [htasks, hsame, ho]
    exact hstance front' hfront'
  · rw [hcrashed, hnil]
    exact hcrash q rfl

/-- What follows a poll goes together with what it brought. -/
theorem stance_afterPoll (hfailed : g.failed = false) (hopen : g.Open 0)
    (ms : List Feed.Message) :
    Stance (g.see (.called .poll ms.length none)) (afterPoll now ms) none := by
  cases ms with
  | nil =>
    have hrest : Cycle (g.see (.called .poll 0 none))
        ([.idle (now + pollTimeout), .work .drain] ++ [.idleCheck, .depths, .cycle]) :=
      .rest hopen.see_idle rfl (by simp [Task.isRestful])
    exact .cycle hfailed hrest
  | cons m ms =>
    refine .cycle hfailed ?_
    have htasks : afterPoll now (m :: ms) =
        .pause :: ((m :: ms).map .handle ++ [.check, .work .drain] ++
          [.resume, .depths, .cycle]) := by
      simp [afterPoll]
    rw [htasks]
    refine .received (hopen.see_filled ms.length) rfl fun t ht => ?_
    simp only [List.mem_append, List.mem_map, List.mem_cons, List.not_mem_nil, or_false] at ht
    rcases ht with ⟨m', -, rfl⟩ | rfl | rfl <;> rfl

/-! ### The cycle -/

section Cycle

variable (h : Controlled log i) (hstep : i.step? now stopping t = some turn)
  (ho : i.outcome = none) (hfailed : (gauge log).failed = false)

include h hstep ho hfailed

theorem subscribe (hts : i.tasks = [.subscribe, .poll]) (hopen : (gauge log).Open 0) :
    Controlled (log ++ i.sights now t turn) turn.intake := by
  have hm := h.matched
  have hsights : i.sights now t turn = calls turn.notes := sights_of_calling hts rfl
  obtain ⟨hnotes, hbus, hstance⟩ : turn.notes = (i.subscription.step now i.bus).notes ∧
      turn.intake.bus = (i.subscription.step now i.bus).bus ∧
        Stance (gauge log) turn.intake.tasks turn.intake.outcome := by
    cases deed_of_step? hts hstep with
    | subscribe => exact ⟨rfl, rfl, by simpa [goOn, ho] using .cycle hfailed (.poll hopen)⟩
    | subscribeFailed => exact ⟨rfl, rfl, by simpa [goOn, ho] using .halt hopen _⟩
  have hcommit : Orderly (log ++ [.called .commit 0 none]) :=
    h.orderly.snoc ⟨hopen.closed_eq, trivial⟩
  rw [hsights, hnotes]
  rcases i.subscription.calls_step hm.refusals_eq (hm.closed_eq.trans hopen.closed_eq) now with
    ⟨hcalls, hsame⟩ | ⟨hcalls, hcommitted⟩ | ⟨hcalls, p, hsubscribed⟩
  · rw [hcalls, List.append_nil]
    exact ⟨h.orderly, by rwa [hbus, hsame], hstance⟩
  · rw [hcalls]
    refine ⟨hcommit, ?_, by rwa [gauge_snoc]⟩
    rw [gauge_snoc, hbus, hcommitted]
    exact ⟨hm.refusals_eq, hm.paused_eq, hm.closed_eq, hm.pauses_eq, hm.resumes_eq⟩
  · have hsplit : log ++ [.called .commit 0 none, .called .subscribe 0 none] =
        (log ++ [.called .commit 0 none]) ++ [.called .subscribe 0 none] := by simp
    rw [hcalls, hsplit]
    refine ⟨hcommit.snoc ⟨?_, fun _ => List.getLast?_concat⟩, ?_, ?_⟩
    · rw [gauge_snoc]
      exact hopen.closed_eq
    · rw [gauge_snoc, gauge_snoc, hbus, hsubscribed]
      exact ⟨hm.refusals_eq, hm.paused_eq, hm.closed_eq, hm.pauses_eq, hm.resumes_eq⟩
    · rwa [gauge_snoc, gauge_snoc]

/-- A poll that failed ends the cycles. -/
theorem pollFailed (hts : i.tasks = [.poll]) (hopen : (gauge log).Open 0) {f : Feed.Fault}
    (hpoll : i.bus.poll =
      ⟨.error f, { i.bus with polls := i.bus.polls + 1, pollFault := none },
        .busCalled .poll 0 (some f)⟩) :
    Controlled (log ++ i.sights now t turn) turn.intake := by
  have hm := h.matched
  have hsights : i.sights now t turn = calls turn.notes := by
    unfold sights entries events findings
    rw [hts]
    dsimp only
    rw [hpoll]
    rfl
  cases deed_of_step? hts hstep with
  | poll hok => simp [hpoll] at hok
  | @pollFailed f' herror =>
    rw [hpoll] at hsights herror ⊢
    obtain rfl := Except.error.inj herror
    refine h.snoc hsights ⟨hopen.closed_eq, hopen.paused_eq, hfailed⟩ ?_ ?_
    · exact ⟨hm.refusals_eq, hm.paused_eq, hm.closed_eq, hm.pauses_eq, hm.resumes_eq⟩
    · simpa [goOn, ho] using .halt (hopen.see_failed _) _

theorem polled (hts : i.tasks = [.poll]) (hopen : (gauge log).Open 0) {ms : List Feed.Message}
    {batches : List (List Feed.Message)}
    (hpoll : i.bus.poll =
      ⟨.ok ms, { i.bus with polls := i.bus.polls + 1, batches },
        .busCalled .poll ms.length none⟩) :
    Controlled (log ++ i.sights now t turn) turn.intake := by
  have hm := h.matched
  have hshown : i.sights now t turn = .noted (.polled ms) :: calls turn.notes := by
    unfold sights entries events findings
    rw [hts]
    dsimp only
    rw [hpoll]
    rfl
  obtain ⟨hnotes, hbus, htasks⟩ : turn.notes = [.busCalled .poll ms.length none] ∧
      turn.intake.bus = { i.bus with polls := i.bus.polls + 1, batches } ∧
        Stance ((gauge log).see (.called .poll ms.length none)) turn.intake.tasks
          turn.intake.outcome := by
    cases deed_of_step? hts hstep with
    | pollFailed herror => simp [hpoll] at herror
    | @poll ms' hok =>
      rw [hpoll] at hok ⊢
      obtain rfl := Except.ok.inj hok
      exact ⟨rfl, rfl, by simpa [goOn, ho] using stance_afterPoll hfailed hopen _⟩
  have hpolled : Allowed log (.noted (.polled ms)) := fun he =>
    absurd he (by simp [Entry.isHandling])
  have hgauge : gauge (log ++ [.noted (.polled ms)]) = gauge log := gauge_snoc log _
  have hsights : log ++ i.sights now t turn =
      (log ++ [.noted (.polled ms)]) ++ [.called .poll ms.length none] := by
    rw [hshown, hnotes, List.append_cons]
    rfl
  rw [hsights]
  refine ⟨(h.orderly.snoc hpolled).snoc ?_, ?_, ?_⟩
  · unfold Allowed
    rw [hgauge]
    exact ⟨hopen.closed_eq, hopen.paused_eq, hfailed⟩
  · rw [gauge_snoc, hgauge, hbus]
    cases ms <;>
      exact ⟨hm.refusals_eq, hm.paused_eq, hm.closed_eq, hm.pauses_eq, hm.resumes_eq⟩
  · rwa [gauge_snoc, hgauge]

theorem poll (hts : i.tasks = [.poll]) (hopen : (gauge log).Open 0) :
    Controlled (log ++ i.sights now t turn) turn.intake := by
  rcases Feed.Bus.poll_of_willing h.matched.refusals_eq
    (h.matched.closed_eq.trans hopen.closed_eq) with ⟨f, hpoll⟩ | ⟨ms, batches, hpoll⟩
  · exact h.pollFailed hstep ho hfailed hts hopen hpoll
  · exact h.polled hstep ho hfailed hts hopen hpoll

/-- After a poll without messages. -/
theorem restStep (hts : i.tasks = front ++ [.idleCheck, .depths, .cycle])
    (hopen : (gauge log).Open 0) (hidle : (gauge log).idle = true)
    (hfront : ∀ t ∈ front, t.isRestful = true) :
    Controlled (log ++ i.sights now t turn) turn.intake := by
  cases front with
  | nil =>
    refine h.unpaused hts hstep rfl (by simp) rfl ?_
    cases deed_of_step? hts hstep with
    | idleCheck =>
      have hdue : Cycle (gauge log) (.pause :: (Fleet.checkChores.map (fun c => .work (.chore c)) ++
          [.checked, .resume, .depths, .cycle])) :=
        .due hopen hidle fun t ht => by
          obtain ⟨c, -, rfl⟩ := List.mem_map.1 ht
          rfl
      simpa [goOn, checkTasks, ho] using .cycle hfailed hdue
    | noIdleCheck => simpa [goOn, ho] using .cycle hfailed (.depths hopen)
  | cons task front =>
    have hneeds := needsPause_of_isRestful (hfront task List.mem_cons_self)
    refine h.inFront steady_isRestful hts hstep ho hfront ?_ ?_ ?_ fun front' hfront' =>
      .cycle hfailed (.rest hopen hidle hfront')
    · rintro rfl
      exact absurd (hfront _ List.mem_cons_self) (by simp [Task.isRestful])
    · simp [hneeds]
    · rintro q rfl
      exact absurd hneeds (by simp [Task.needsPause])

/-- While the fleet is checked after such a poll. -/
theorem checkStep (hts : i.tasks = front ++ [.checked, .resume, .depths, .cycle])
    (hheld : (gauge log).Held 1) (hidle : (gauge log).idle = true)
    (hfront : ∀ t ∈ front, t.isWork = true) :
    Controlled (log ++ i.sights now t turn) turn.intake := by
  cases front with
  | nil =>
    refine h.checked hts hstep ?_
    rw [ho]
    refine .cycle ?_ (.resume (hheld.checked hidle))
    rwa [Gauge.see_checked hidle]
  | cons task front =>
    refine h.inFront steady_isWork hts hstep ho hfront ?_
      (fun _ => ⟨hheld.paused_eq, hheld.closed_eq⟩) ?_ fun front' hfront' =>
        .cycle hfailed (.check hheld hidle hfront')
    · rintro rfl
      exact absurd (hfront _ List.mem_cons_self) (by simp [Task.isWork])
    · rintro q rfl
      exact absurd (hfront _ List.mem_cons_self) (by simp [Task.isWork])

theorem resumeStep (hts : i.tasks = [.resume, .depths, .cycle]) (hheld : (gauge log).Held 0) :
    Controlled (log ++ i.sights now t turn) turn.intake := by
  refine h.resume hts hstep hheld.closed_eq ?_
  rw [ho]
  exact .cycle hfailed (.depths hheld.resume)

/-- After a poll that brought messages. -/
theorem handleStep (hts : i.tasks = front ++ [.resume, .depths, .cycle])
    (hheld : (gauge log).Held 0) (hidle : (gauge log).idle = false)
    (hfront : ∀ t ∈ front, t.isBusy = true) :
    Controlled (log ++ i.sights now t turn) turn.intake := by
  cases front with
  | nil => exact h.resumeStep hstep ho hfailed hts hheld
  | cons task front =>
    -- A check between messages is not one of an idle fleet, and its end is not counted.
    by_cases hchecked : task = .checked
    · subst hchecked
      refine h.checked hts hstep ?_
      rw [ho, Gauge.see_checked_busy hidle]
      exact .cycle hfailed (.handle hheld hidle fun t ht => hfront t (List.mem_cons_of_mem _ ht))
    · exact h.inFront steady_isBusy hts hstep ho hfront hchecked
        (fun _ => ⟨hheld.paused_eq, hheld.closed_eq⟩) (fun _ _ => .crashed hheld)
        fun front' hfront' => .cycle hfailed (.handle hheld hidle hfront')

/-- A step of an intake that has not been halted. -/
theorem cycleStep (hts : i.tasks = ts) (hc : Cycle (gauge log) ts) :
    Controlled (log ++ i.sights now t turn) turn.intake := by
  cases hc with
  | start hopen =>
    refine h.unpaused hts hstep rfl (by simp) rfl ?_
    cases deed_of_step? hts hstep
    simpa [startStep, ho] using .cycle hfailed (.read hopen)
  | read hopen =>
    refine h.unpaused hts hstep rfl (by simp) rfl ?_
    cases deed_of_step? hts hstep
    simpa [refreshStep, onExchange, goOn, ho] using .cycle hfailed (.begin_ hopen)
  | begin_ hopen =>
    refine h.unpaused hts hstep rfl (by simp) rfl ?_
    cases deed_of_step? hts hstep with
    | stop => simpa [goOn, ho] using .halt hopen none
    | cycle => simpa [goOn, ho] using .cycle hfailed (.subscribe hopen)
  | subscribe hopen => exact h.subscribe hstep ho hfailed hts hopen
  | poll hopen => exact h.poll hstep ho hfailed hts hopen
  | rest hopen hidle hfront => exact h.restStep hstep ho hfailed hts hopen hidle hfront
  | due hopen hidle hfront =>
    refine h.pause hts (.inl rfl) hstep hopen.closed_eq ?_
    rw [ho]
    exact .cycle hfailed (.check hopen.pauseAhead hidle hfront)
  | check hheld hidle hfront => exact h.checkStep hstep ho hfailed hts hheld hidle hfront
  | received hopen hidle hfront =>
    refine h.pause hts (.inl rfl) hstep hopen.closed_eq ?_
    rw [ho]
    exact .cycle hfailed (.handle hopen.pause hidle hfront)
  | handle hheld hidle hfront => exact h.handleStep hstep ho hfailed hts hheld hidle hfront
  | resume hheld => exact h.resumeStep hstep ho hfailed hts hheld
  | depths hopen =>
    refine h.unpaused hts hstep rfl (by simp) rfl ?_
    cases deed_of_step? hts hstep
    simpa [goOn, ho] using .cycle hfailed (.begin_ hopen)

end Cycle

theorem step (h : Controlled log i) (hstep : i.step? now stopping t = some turn) :
    Controlled (log ++ i.sights now t turn) turn.intake := by
  have hstance := h.stance
  generalize hts : i.tasks = ts at hstance
  generalize ho : i.outcome = o at hstance
  cases hstance with
  | cycle hfailed hc => exact h.cycleStep hstep ho hfailed hts hc
  | halt hopen f =>
    refine h.unpaused hts hstep rfl (by simp) rfl ?_
    cases deed_of_step? hts hstep
    simpa [haltStep, goOn, ho] using .pause hopen f
  | pause hopen f =>
    refine h.pause hts (.inr rfl) hstep hopen.closed_eq ?_
    rw [ho]
    have hleave : Stance ((gauge log).see (.called .pause 0 none))
        ([.drainOut 0] ++ [.leave f]) none :=
      .leave hopen.pauseAhead (by simp [Task.isClosing]) f
    exact hleave
  | @leave front hheld hfront f =>
    cases front with
    | nil => exact h.leave hts hstep hheld
    | cons task front =>
      refine h.inFront steady_isClosing hts hstep ho hfront ?_
        (fun _ => ⟨hheld.paused_eq, hheld.closed_eq⟩) ?_ fun front' hfront' =>
          .leave hheld hfront' f
      · rintro rfl
        exact absurd (hfront _ List.mem_cons_self) (by simp [Task.isClosing])
      · rintro q rfl
        exact absurd (hfront _ List.mem_cons_self) (by simp [Task.isClosing])
  | left | crashed =>
    obtain ⟨task, rest, hts', -⟩ := exists_deed hstep
    exact absurd (hts.symm.trans hts') (by simp)

end Controlled

theorem Watched.controlled (h : Watched .own s log now i) : Controlled log i := by
  induction h with
  | open_ id now t hfresh =>
    exact ⟨.nil, .fresh hfresh, .cycle rfl (.start ⟨rfl, rfl, rfl, rfl⟩)⟩
  | wait _ _ ih => exact ih
  | bus _ hchange ih => exact ⟨ih.orderly, ih.matched.change hchange, ih.stance⟩
  | step _ hstep ih => exact ih.step hstep
  | @write log now i t v turn _ _ _ ih =>
    obtain ⟨horderly, hgauge⟩ := ih.orderly.asides ((writerEntries v t).map .noted)
      (by
        intro x hx
        obtain ⟨e, -, rfl⟩ := List.mem_map.1 hx
        rfl)
      (by
        intro e he hhandling
        obtain ⟨e', he', heq⟩ := List.mem_map.1 he
        obtain rfl := Sight.noted.inj heq
        obtain ⟨ev, -, rfl⟩ := List.mem_map.1 he'
        exact absurd hhandling (by simp [Entry.isHandling]))
    exact ⟨horderly, hgauge ▸ ih.matched, hgauge ▸ ih.stance⟩

/-! ## Promises -/

/-- How an intake calls on a bus of its own. -/
structure FlowControl (log : List Sight) (i : Intake) : Prop where
  /-- The bus is polled while it is not paused. -/
  polls : ∀ past n fault later, log = past ++ .called .poll n fault :: later →
    (gauge past).paused = false
  /-- Messages are worked on while it is paused. -/
  handles : ∀ past e later, log = past ++ .noted e :: later → e.isHandling = true →
    (gauge past).paused = true
  /-- The bus itself is paused whenever such work, or work on the fleet, is next. -/
  works : ∀ task rest, i.tasks = task :: rest → task.needsPause = true → i.bus.paused = true
  /-- Signs of life are shown while it is paused. -/
  beats : ∀ past n fault later, log = past ++ .called .heartbeat n fault :: later →
    (gauge past).paused = true
  /-- A commit comes right before each successful subscription. -/
  subscribes : ∀ past n later, log = past ++ .called .subscribe n none :: later →
    past.getLast? = some (.called .commit 0 none)
  /-- No poll follows one that failed. -/
  fails : ∀ past n f later, log = past ++ .called .poll n (some f) :: later →
    ∀ m fault, .called .poll m fault ∉ later
  /-- No call follows that to close the bus. -/
  closes : ∀ past n fault later, log = past ++ .called .close n fault :: later →
    ∀ c m fault', .called c m fault' ∉ later
  /-- The bus itself is as its calls say. -/
  counts : i.bus.paused = (gauge log).paused ∧ i.bus.pauses = (gauge log).pauses ∧
    i.bus.resumes = (gauge log).resumes
  /-- An intake that has ended has closed the bus. It has paused it once for each poll that brought
  messages, once for each check after a poll that did not, and once at the end, and it has resumed
  it each time but the last. -/
  ends : ∀ o, i.outcome = some o → o ≠ .crashed →
    (∃ n fault, .called .close n fault ∈ log) ∧
      (gauge log).pauses = (gauge log).filled + (gauge log).idleChecks + 1 ∧
      (gauge log).resumes + 1 = (gauge log).pauses
  /-- Only while the bus is paused for messages can a statement end the intake. -/
  crashes : i.outcome = some .crashed →
    (gauge log).paused = true ∧
      (gauge log).pauses = (gauge log).filled + (gauge log).idleChecks ∧
      (gauge log).resumes + 1 = (gauge log).pauses

/-- However an intake with a bus of its own runs, its calls on the bus are in order. -/
theorem Watched.flow_control (h : Watched .own s log now i) : FlowControl log i := by
  have hc := h.controlled
  exact
    { polls := fun past _ _ later hlog => (hc.orderly past _ later hlog).2.1
      handles := fun past _ later hlog => hc.orderly past _ later hlog
      works := fun task rest hts hneeds => by
        rw [hc.matched.paused_eq]
        exact (hts ▸ hc.stance).paused hneeds
      beats := fun past _ _ later hlog => (hc.orderly past _ later hlog).2
      subscribes := fun past _ later hlog => (hc.orderly past _ later hlog).2 rfl
      fails := fun _ _ _ _ hlog => hc.orderly.no_poll hlog
      closes := fun _ _ _ _ hlog => hc.orderly.no_call hlog
      counts := ⟨hc.matched.paused_eq, hc.matched.pauses_eq, hc.matched.resumes_eq⟩
      ends := fun o ho hne => by
        obtain ⟨hclosed, hpauses, hresumes⟩ := (ho ▸ hc.stance).left_of_ended hne
        exact ⟨exists_close hclosed, hpauses, hresumes⟩
      crashes := fun ho => by
        have hheld := (ho ▸ hc.stance).held_of_crashed
        exact ⟨hheld.paused_eq, hheld.pauses_eq, hheld.resumes_eq⟩ }

/-! ## A sample -/

/-- The fleet is checked in every cycle. -/
def checkedSettings : Settings :=
  { base := { maxWriters := 1, checkSeconds := 0 }, kafka := { patterns := ["t"] } }

/-- One message about a router, and another to which the intake does not subscribe. -/
def checkedBus : Feed.Bus :=
  { batches :=
      [[{ topic := "t", key := "r", tag := some "router", payload := "\x7b\"hash_id\":\"r\"\x7d" }],
       [{ topic := "u", key := "r", payload := "" }]] }

/-- The next poll is to fail. -/
def Reel.failPoll (f : Feed.Fault) (x : Reel) : Reel :=
  { x with
    trace :=
      { x.trace with
        intake := { x.trace.intake with bus := { x.trace.intake.bus with pollFault := some f } } } }

theorem Reel.watched_failPoll {x : Reel}
    (h : Watched .own s x.seen x.trace.now x.trace.intake) (f : Feed.Fault) :
    Watched .own s (x.failPoll f).seen (x.failPoll f).trace.now (x.failPoll f).trace.intake :=
  h.bus (.inr ⟨f, rfl⟩)

/-- An intake up to its first check after a poll without messages. -/
def checkedReel : Reel :=
  (Reel.start checkedSettings checkedBus {}).finish
    (fun x => 0 < (gauge x.seen).idleChecks) 300

/-- The intake from there to its end, after a poll has failed. -/
def failedReel : Reel :=
  (checkedReel.failPoll (.client "lost")).finish (fun x => x.trace.intake.hasEnded) 300

theorem watched_failedReel :
    Watched .own checkedSettings failedReel.seen failedReel.trace.now failedReel.trace.intake := by
  have hfresh : World.own.fresh checkedBus := ⟨checkedBus.batches, none, rfl⟩
  have hchecked : Watched .own checkedSettings checkedReel.seen checkedReel.trace.now
      checkedReel.trace.intake := by
    unfold checkedReel
    exact Reel.watched_finish (Reel.watched_start _ _ hfresh) _ 300
  unfold failedReel
  exact Reel.watched_finish (Reel.watched_failPoll hchecked _) _ 300

/-- After one poll with messages, one check of an idle fleet and a poll that failed, an intake has
paused its bus three times and resumed it twice. -/
theorem flow_control_sample :
    ∃ log now i, Watched .own checkedSettings log now i ∧
      i.outcome = some (.failed (.client "lost")) ∧ (gauge log).filled = 1 ∧
      (gauge log).idleChecks = 1 ∧ (gauge log).pauses = 3 ∧ (gauge log).resumes = 2 ∧
      FlowControl log i := by
  have hended : failedReel.trace.intake.outcome = some (.failed (.client "lost")) ∧
      (gauge failedReel.seen).filled = 1 ∧ (gauge failedReel.seen).idleChecks = 1 := by
    decide +kernel
  have hflow := watched_failedReel.flow_control
  obtain ⟨-, hpauses, hresumes⟩ := hflow.ends _ hended.1 (by simp)
  rw [hended.2.1, hended.2.2] at hpauses
  exact ⟨_, _, _, watched_failedReel, hended.1, hended.2.1, hended.2.2, hpauses, by omega, hflow⟩

end BmpFeed.Intake
