import BmpFeed.Proofs.Intake.Gauge
import BmpFeed.Proofs.Intake.Next

/-!
# Counts and tasks

`Stance` says how the calls of an intake on its bus and the tasks that are left go together: how
many pauses and resumes there have been for what was polled, and whether the bus is paused now. A
task that needs a paused bus is next only if it is (`Stance.paused`).
-/

namespace BmpFeed.Intake

variable {now : Nat} {i : Intake} {stopping : Bool} {t : Store} {turn : Turn} {task : Task}
  {rest : List Task} {g : Gauge} {o : Option Outcome}

/-! ## Tasks -/

/-- Tasks that are about the messages of a poll or the fleet. -/
def Task.isBusy : Task → Bool
  | .handle _ | .check | .checked | .run _ | .beat | .routers _ | .peersDown _ | .refresh
  | .work _ => true
  | _ => false

/-- Tasks after a poll without messages. -/
def Task.isRestful : Task → Bool
  | .idle _ | .work .drain | .work (.pass _) => true
  | _ => false

def Task.isWork : Task → Bool
  | .work _ => true
  | _ => false

/-- Tasks that bring the dispatch to its end. -/
def Task.isClosing : Task → Bool
  | .work _ | .drainOut _ | .drainWait _ | .drainPause _ _ => true
  | _ => false

/-- Tasks of a kind lead only to tasks of that kind. Their calls are signs of life at most, and the
tasks behind them stay. -/
structure Steady (kind : Task → Bool) : Prop where
  leadsTo : ∀ {task next : Task}, task.leadsTo next = true → kind task = true → kind next = true
  isCalling_eq : ∀ {task : Task}, kind task = true → task.isCalling = false
  mayCut_eq : ∀ {task : Task}, kind task = true → task.mayCut = false

theorem steady_isBusy : Steady Task.isBusy where
  leadsTo {task next} h htask := by
    cases task with
    | handle m | check | checked | run q | beat | routers rows | peersDown sql | refresh | work w =>
      cases next <;> first | rfl | exact absurd h (by simp [Task.leadsTo])
    | _ => exact absurd htask (by simp [Task.isBusy])
  isCalling_eq {task} htask := by
    cases task <;> first | rfl | exact absurd htask (by simp [Task.isBusy])
  mayCut_eq {task} htask := by
    cases task <;> first | rfl | exact absurd htask (by simp [Task.isBusy])

theorem steady_isRestful : Steady Task.isRestful where
  leadsTo {task next} h htask := by
    cases task with
    | idle due => exact absurd h (by simp [Task.leadsTo])
    | work w =>
      cases next with
      | work w' =>
        cases w with
        | drain | pass q =>
          cases w' <;> first | rfl | exact absurd h (by simp [Task.leadsTo, Dispatch.Task.leadsTo])
        | _ => exact absurd htask (by simp [Task.isRestful])
      | _ => exact absurd h (by simp [Task.leadsTo])
    | _ => exact absurd htask (by simp [Task.isRestful])
  isCalling_eq {task} htask := by
    cases task <;> first | rfl | exact absurd htask (by simp [Task.isRestful])
  mayCut_eq {task} htask := by
    cases task <;> first | rfl | exact absurd htask (by simp [Task.isRestful])

theorem steady_isWork : Steady Task.isWork where
  leadsTo {task next} h htask := by
    cases task with
    | work w => cases next <;> first | rfl | exact absurd h (by simp [Task.leadsTo])
    | _ => exact absurd htask (by simp [Task.isWork])
  isCalling_eq {task} htask := by
    cases task <;> first | rfl | exact absurd htask (by simp [Task.isWork])
  mayCut_eq {task} htask := by
    cases task <;> first | rfl | exact absurd htask (by simp [Task.isWork])

theorem steady_isClosing : Steady Task.isClosing where
  leadsTo {task next} h htask := by
    cases task with
    | work w | drainOut passes | drainWait passes | drainPause passes due =>
      cases next <;> first | rfl | exact absurd h (by simp [Task.leadsTo])
    | _ => exact absurd htask (by simp [Task.isClosing])
  isCalling_eq {task} htask := by
    cases task <;> first | rfl | exact absurd htask (by simp [Task.isClosing])
  mayCut_eq {task} htask := by
    cases task <;> first | rfl | exact absurd htask (by simp [Task.isClosing])

/-- Tasks of the work on messages and on the fleet, for which the bus is to be paused. -/
def Task.needsPause : Task → Bool
  | .handle _ | .check | .run _ | .beat | .routers _ | .peersDown _ | .drainOut _ => true
  | .work w =>
    match w with
    | .drain | .pass _ => false
    | _ => true
  | _ => false

theorem needsPause_of_mayBeat (h : task.mayBeat = true) : task.needsPause = true := by
  cases task with
  | beat | drainOut passes => rfl
  | work w =>
    cases w <;> first | rfl | exact absurd h (by simp [Task.mayBeat, Dispatch.Task.mayPulse])
  | _ => exact absurd h (by simp [Task.mayBeat])

theorem needsPause_of_isRestful (h : task.isRestful = true) : task.needsPause = false := by
  cases task with
  | idle due => rfl
  | work w => cases w <;> first | rfl | exact absurd h (by simp [Task.isRestful])
  | _ => exact absurd h (by simp [Task.isRestful])

/-- Only work on messages shows entries of it. -/
theorem isHandling_entries (hts : i.tasks = task :: rest) (htask : task.needsPause = false)
    {e : Entry} (he : e ∈ i.entries now t) : e.isHandling = false := by
  unfold entries events at he
  rw [hts] at he
  cases task with
  | handle m | run q => exact absurd htask (by simp [Task.needsPause])
  | poll =>
    obtain ⟨ev, hev, rfl⟩ := List.mem_map.1 he
    dsimp only at hev
    split at hev
    · obtain rfl := List.mem_singleton.1 hev
      rfl
    · exact absurd hev (by simp)
  | work w =>
    obtain ⟨ev, hev, rfl⟩ := List.mem_map.1 he
    cases w with
    | pass q =>
      dsimp only at hev
      split_ifs at hev
      · exact absurd hev (by simp)
      · obtain ⟨d, hd, rfl⟩ := List.mem_map.1 hev
        cases d with
        | fleet e => rfl
        | pushed r =>
          have hpushed : r ∈ Dispatch.pushed (Dispatch.passEvents q i.dispatch) :=
            List.mem_filterMap.2 ⟨_, hd, rfl⟩
          rw [Dispatch.pushed_passEvents] at hpushed
          exact absurd hpushed (by simp)
    | chore c =>
      obtain ⟨d, hd, rfl⟩ := List.mem_map.1 hev
      obtain ⟨e, -, rfl⟩ := List.mem_map.1 hd
      rfl
    | _ => exact absurd hev (by simp)
  | drainOut passes =>
    obtain ⟨ev, hev, rfl⟩ := List.mem_map.1 he
    dsimp only at hev
    split_ifs at hev
    · obtain rfl := List.mem_singleton.1 hev
      rfl
    · exact absurd hev (by simp)
  | _ => exact absurd he (by simp)

/-- Tasks that call on the bus show nothing but their calls; a poll shows its messages as well. -/
theorem sights_of_calling (hts : i.tasks = task :: rest)
    (hcalling : (task.isCalling && !(task matches .poll)) = true) :
    i.sights now t turn = calls turn.notes := by
  unfold sights entries events findings
  rw [hts]
  cases task <;> first | rfl | exact absurd hcalling (by simp [Task.isCalling])

/-- An intake ends by leaving, or because a statement ends it. -/
theorem outcome_of_step (hts : i.tasks = task :: rest) (hstep : i.step? now stopping t = some turn)
    (hleave : ∀ f, task ≠ .leave f) :
    turn.intake.outcome = i.outcome ∨
      (∃ q, task = .run q) ∧ turn.intake.outcome = some .crashed ∧ turn.intake.tasks = [] := by
  cases deed_of_step? hts hstep with
  | handle hm => cases hm <;> exact .inl rfl
  | crashed => exact .inr ⟨⟨_, rfl⟩, rfl, rfl⟩
  | leave fault => exact absurd rfl (hleave fault)
  | _ => exact .inl rfl

/-! ## Counts -/

/-- The bus is not paused, and some pauses are still to come for what has been polled. -/
structure Gauge.Open (g : Gauge) (owed : Nat) : Prop where
  paused_eq : g.paused = false
  closed_eq : g.closed = false
  resumes_eq : g.resumes = g.pauses
  pauses_eq : g.pauses + owed = g.filled + g.idleChecks

/-- The bus is paused, and some pauses are for what is still to come. -/
structure Gauge.Held (g : Gauge) (ahead : Nat) : Prop where
  paused_eq : g.paused = true
  closed_eq : g.closed = false
  resumes_eq : g.resumes + 1 = g.pauses
  pauses_eq : g.pauses = g.filled + g.idleChecks + ahead

namespace Gauge

theorem Open.pause (h : g.Open 1) : (g.see (.called .pause 0 none)).Held 0 :=
  ⟨rfl, h.closed_eq, congrArg (· + 1) h.resumes_eq, h.pauses_eq⟩

theorem Open.pauseAhead (h : g.Open 0) : (g.see (.called .pause 0 none)).Held 1 :=
  ⟨rfl, h.closed_eq, congrArg (· + 1) h.resumes_eq, congrArg (· + 1) h.pauses_eq⟩

theorem Held.resume (h : g.Held 0) : (g.see (.called .resume 0 none)).Open 0 :=
  ⟨rfl, h.closed_eq, h.resumes_eq, h.pauses_eq⟩

theorem Open.see_failed (h : g.Open 0) (f : Feed.Fault) :
    (g.see (.called .poll 0 (some f))).Open 0 :=
  ⟨h.paused_eq, h.closed_eq, h.resumes_eq, h.pauses_eq⟩

theorem Open.see_idle (h : g.Open 0) : (g.see (.called .poll 0 none)).Open 0 :=
  ⟨h.paused_eq, h.closed_eq, h.resumes_eq, h.pauses_eq⟩

theorem Open.see_filled (h : g.Open 0) (n : Nat) : (g.see (.called .poll (n + 1) none)).Open 1 where
  paused_eq := h.paused_eq
  closed_eq := h.closed_eq
  resumes_eq := h.resumes_eq
  pauses_eq := by
    have hpauses := h.pauses_eq
    simp only [see]
    omega

theorem see_checked (hidle : g.idle = true) :
    g.see .checked = { g with idleChecks := g.idleChecks + 1 } :=
  if_pos hidle

theorem see_checked_busy (hidle : g.idle = false) : g.see .checked = g :=
  if_neg (by simp [hidle])

theorem Held.checked (h : g.Held 1) (hidle : g.idle = true) : (g.see .checked).Held 0 := by
  rw [see_checked hidle]
  exact ⟨h.paused_eq, h.closed_eq, h.resumes_eq, h.pauses_eq⟩

end Gauge

/-- The tasks of an intake that has not been halted. -/
inductive Cycle (g : Gauge) : List Task → Prop
  | start (h : g.Open 0) : Cycle g [.start]
  | read (h : g.Open 0) : Cycle g [.refresh, .cycle]
  | begin_ (h : g.Open 0) : Cycle g [.cycle]
  | subscribe (h : g.Open 0) : Cycle g [.subscribe, .poll]
  | poll (h : g.Open 0) : Cycle g [.poll]
  /-- The poll brought no messages. -/
  | rest {front : List Task} (h : g.Open 0) (hidle : g.idle = true)
      (hfront : ∀ t ∈ front, t.isRestful = true) :
      Cycle g (front ++ [.idleCheck, .depths, .cycle])
  /-- A check is due. -/
  | due {front : List Task} (h : g.Open 0) (hidle : g.idle = true)
      (hfront : ∀ t ∈ front, t.isWork = true) :
      Cycle g (.pause :: (front ++ [.checked, .resume, .depths, .cycle]))
  | check {front : List Task} (h : g.Held 1) (hidle : g.idle = true)
      (hfront : ∀ t ∈ front, t.isWork = true) :
      Cycle g (front ++ [.checked, .resume, .depths, .cycle])
  /-- The poll brought messages. -/
  | received {front : List Task} (h : g.Open 1) (hidle : g.idle = false)
      (hfront : ∀ t ∈ front, t.isBusy = true) :
      Cycle g (.pause :: (front ++ [.resume, .depths, .cycle]))
  | handle {front : List Task} (h : g.Held 0) (hidle : g.idle = false)
      (hfront : ∀ t ∈ front, t.isBusy = true) :
      Cycle g (front ++ [.resume, .depths, .cycle])
  | resume (h : g.Held 0) : Cycle g [.resume, .depths, .cycle]
  | depths (h : g.Open 0) : Cycle g [.depths, .cycle]

/-- The tasks of an intake, and how it ended. -/
inductive Stance (g : Gauge) : List Task → Option Outcome → Prop
  | cycle {ts : List Task} (hfailed : g.failed = false) (h : Cycle g ts) : Stance g ts none
  | halt (h : g.Open 0) (f : Option Feed.Fault) : Stance g [.halt f] none
  | pause (h : g.Open 0) (f : Option Feed.Fault) : Stance g [.lastPause, .drainOut 0, .leave f] none
  | leave {front : List Task} (h : g.Held 1) (hfront : ∀ t ∈ front, t.isClosing = true)
      (f : Option Feed.Fault) : Stance g (front ++ [.leave f]) none
  | left {o : Outcome} (hclosed : g.closed = true) (hresumes : g.resumes + 1 = g.pauses)
      (hpauses : g.pauses = g.filled + g.idleChecks + 1) (ho : o ≠ .crashed) : Stance g [] (some o)
  | crashed (h : g.Held 0) : Stance g [] (some .crashed)

/-- Work on messages is only left to be done while the bus is paused. -/
theorem Stance.paused (h : Stance g (task :: rest) o) (htask : task.needsPause = true) :
    g.paused = true := by
  generalize hts : task :: rest = ts at h
  cases h with
  | cycle hfailed hc =>
    cases hc with
    | @rest front hopen hidle hfront =>
      cases front with
      | nil =>
        obtain ⟨rfl, -⟩ := List.cons.inj hts
        exact absurd htask (by simp [Task.needsPause])
      | cons task' front =>
        obtain ⟨rfl, -⟩ := List.cons.inj hts
        exact absurd htask (by simp [needsPause_of_isRestful (hfront task List.mem_cons_self)])
    | check hheld => exact hheld.paused_eq
    | handle hheld => exact hheld.paused_eq
    | resume hheld => exact hheld.paused_eq
    | _ =>
      obtain ⟨rfl, -⟩ := List.cons.inj hts
      exact absurd htask (by simp [Task.needsPause])
  | leave hheld => exact hheld.paused_eq
  | halt hopen f | pause hopen f =>
    obtain ⟨rfl, -⟩ := List.cons.inj hts
    exact absurd htask (by simp [Task.needsPause])
  | left | crashed => exact absurd hts (by simp)

/-- An intake that has ended has paused the bus once more at the end, and closed it. -/
theorem Stance.left_of_ended {o : Outcome} {ts : List Task} (h : Stance g ts (some o))
    (ho : o ≠ .crashed) :
    g.closed = true ∧ g.pauses = g.filled + g.idleChecks + 1 ∧ g.resumes + 1 = g.pauses := by
  cases h with
  | left hclosed hresumes hpauses _ => exact ⟨hclosed, hpauses, hresumes⟩
  | crashed => exact absurd rfl ho

theorem Stance.held_of_crashed {ts : List Task} (h : Stance g ts (some .crashed)) : g.Held 0 := by
  cases h with
  | left _ _ _ ho => exact absurd rfl ho
  | crashed hheld => exact hheld

end BmpFeed.Intake
