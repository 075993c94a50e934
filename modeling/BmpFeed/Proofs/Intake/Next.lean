import BmpFeed.Proofs.Intake.Deeds
import BmpFeed.Proofs.Intake.Run

/-!
# From task to task

`Task.leadsTo` says which tasks may take the place of a task, and `tasks_of_step` that a step leaves
the tasks behind it alone, unless it ends the cycles or the intake. What a run keeps of its tasks
follows from these two by cases on the task. `kept_of_step` is about what few tasks change: the
counts of the routers.
-/

namespace BmpFeed

/-- The second task may take the place of the first. -/
def Dispatch.Task.leadsTo (task next : Dispatch.Task) : Bool :=
  match task with
  | .chore _ => (next matches .chore _)
  | .push _ => (next matches .drain | .rest _)
  | .rest _ => (next matches .retry _ _)
  | .retry _ _ => (next matches .push _)
  | .drain | .pass _ => (next matches .pass _)

namespace Intake

variable {now : Nat} {i : Intake} {stopping : Bool} {t : Store} {turn : Turn} {task : Task}
  {rest : List Task}

/-- The second task may take the place of the first. -/
def Task.leadsTo (task next : Task) : Bool :=
  match task with
  | .start => (next matches .refresh | .cycle)
  | .cycle => (next matches .subscribe | .poll | .halt none)
  | .subscribe | .pause | .resume => (next matches .halt (some _))
  | .poll =>
    (next matches .idle _ | .work .drain | .idleCheck | .depths | .cycle | .pause | .handle _
      | .check | .resume | .halt (some _))
  | .idleCheck => (next matches .pause | .work (.chore _) | .checked | .resume)
  | .handle _ => (next matches .run _ | .beat | .routers _ | .work (.push _))
  | .check => (next matches .work (.chore _) | .checked)
  | .run _ | .peersDown _ => (next matches .run _)
  | .routers _ => (next matches .peersDown _ | .refresh)
  | .work w => match next with
    | .work w' => w.leadsTo w'
    | _ => false
  | .halt _ => (next matches .lastPause | .drainOut _ | .leave _)
  | .drainOut _ => (next matches .work _ | .drainWait _)
  | .drainWait _ => (next matches .drainPause _ _)
  | .drainPause _ _ => (next matches .drainOut _)
  | _ => false

/-- Tasks that may do away with those behind them. -/
def Task.mayCut : Task → Bool
  | .cycle | .subscribe | .poll | .pause | .resume | .halt _ | .leave _ => true
  | _ => false

/-- A step has put other tasks in the place of one, before those behind it unless these are cut. -/
def Led (task : Task) (rest : List Task) (turn : Turn) : Prop :=
  ∃ new kept, turn.intake.tasks = new ++ kept ∧ (∀ t ∈ new, task.leadsTo t = true) ∧
    (kept = rest ∨ kept = [] ∧
      (task.mayCut = true ∨ turn.intake.outcome = some .crashed))

theorem Led.keep (new : List Task) (htasks : turn.intake.tasks = new ++ rest)
    (hnew : ∀ t ∈ new, task.leadsTo t = true) : Led task rest turn :=
  ⟨new, rest, htasks, hnew, .inl rfl⟩

theorem Led.done (htasks : turn.intake.tasks = rest) : Led task rest turn :=
  .keep [] htasks (by simp)

theorem Led.cut (new : List Task) (hcut : task.mayCut = true) (htasks : turn.intake.tasks = new)
    (hnew : ∀ t ∈ new, task.leadsTo t = true) : Led task rest turn :=
  ⟨new, [], by rw [htasks, List.append_nil], hnew, .inr ⟨rfl, .inl hcut⟩⟩

/-- A call that failed ends the cycles. -/
theorem Led.halt {f : Feed.Fault} (hcut : task.mayCut = true)
    (hhalt : task.leadsTo (.halt (some f)) = true)
    (htasks : turn.intake.tasks = [.halt (some f)]) : Led task rest turn :=
  .cut [.halt (some f)] hcut htasks (by simpa using hhalt)

theorem leadsTo_afterPoll (ms : List Feed.Message) :
    ∀ t ∈ afterPoll now ms, Task.poll.leadsTo t = true := by
  intro t ht
  cases ms with
  | nil =>
    simp only [afterPoll, List.mem_cons, List.not_mem_nil, or_false] at ht
    rcases ht with rfl | rfl | rfl | rfl | rfl <;> rfl
  | cons m ms =>
    simp only [afterPoll, List.cons_append, List.mem_cons, List.mem_append, List.mem_map,
      List.not_mem_nil, or_false] at ht
    rcases ht with rfl | ⟨m', -, rfl⟩ | rfl | rfl | rfl | rfl | rfl <;> rfl

theorem leadsTo_checkTasks (task : Task) (h : ∀ c, task.leadsTo (.work (.chore c)) = true)
    (hchecked : task.leadsTo .checked = true) : ∀ t ∈ checkTasks, task.leadsTo t = true := by
  intro t ht
  rcases List.mem_append.1 ht with ht | ht
  · obtain ⟨c, -, rfl⟩ := List.mem_map.1 ht
    exact h c
  · obtain rfl := List.mem_singleton.1 ht
    exact hchecked

theorem leadsTo_inlineTasks (m : Feed.Message) (k : Kind) (rows : List Record) :
    ∀ t ∈ i.inlineTasks k rows, (Task.handle m).leadsTo t = true := by
  have hinsert : ∀ t ∈ ((i.insert? k rows).map i.query).toList,
      (Task.handle m).leadsTo t = true := by
    intro t ht
    obtain ⟨sql, -, rfl⟩ := Option.map_eq_some_iff.1 (Option.mem_toList.1 ht)
    rfl
  intro t ht
  cases k with
  | collector =>
    simp only [inlineTasks, List.mem_append, List.mem_map, List.mem_singleton] at ht
    rcases ht with (ht | ⟨sql, -, rfl⟩) | rfl
    · exact hinsert t ht
    · rfl
    · rfl
  | router =>
    simp only [inlineTasks, List.mem_append, List.mem_cons, List.not_mem_nil, or_false] at ht
    rcases ht with ht | rfl | rfl
    · exact hinsert t ht
    · rfl
    · rfl
  | peer =>
    simp only [inlineTasks, List.mem_append, List.mem_cons, List.mem_flatMap, List.not_mem_nil,
      or_false] at ht
    rcases ht with ht | rfl | ⟨sql, -, rfl | rfl⟩
    · exact hinsert t ht
    · rfl
    · rfl
    · rfl
  | _ => exact hinsert t ht

theorem led_handled {m : Feed.Message} (h : Handled i m rest t turn) :
    Led (.handle m) rest turn := by
  cases h with
  | unknown | refused | empty | unmapped | unkeyed => exact .done rfl
  | @inline k row rows => exact .keep _ rfl (leadsTo_inlineTasks m k (row :: rows))
  | batched => exact .keep [.work (.push _)] rfl (by simp [Task.leadsTo])

theorem leadsTo_deed {w : Dispatch.Task} {d : Dispatch} {done : Dispatch.Turn}
    (h : Dispatch.Deed now d t w done) : ∀ w' ∈ done.tasks, w.leadsTo w' = true := by
  cases h with
  | @chore c turn =>
    intro w' hw'
    obtain ⟨c', -, rfl⟩ := List.mem_map.1 hw'
    rfl
  | _ => simp [Dispatch.Task.leadsTo]

theorem leadsTo_work {w : Dispatch.Task} {d : Dispatch} {done : Dispatch.Turn}
    (h : Dispatch.Deed now d t w done) :
    ∀ t ∈ done.tasks.map Task.work, (Task.work w).leadsTo t = true := by
  intro t ht
  obtain ⟨w', hw', rfl⟩ := List.mem_map.1 ht
  exact leadsTo_deed h w' hw'

theorem leadsTo_idleCheck :
    ∀ t ∈ Task.pause :: (checkTasks ++ [.resume]), Task.idleCheck.leadsTo t = true := by
  intro t ht
  rcases List.mem_cons.1 ht with rfl | ht
  · rfl
  rcases List.mem_append.1 ht with ht | ht
  · exact leadsTo_checkTasks .idleCheck (fun _ => rfl) rfl t ht
  · obtain rfl := List.mem_singleton.1 ht
    rfl

theorem leadsTo_marks (rows : List Record) (sqls : List String) :
    ∀ t ∈ sqls.map Task.peersDown ++ [.refresh], (Task.routers rows).leadsTo t = true := by
  intro t ht
  rcases List.mem_append.1 ht with ht | ht
  · obtain ⟨sql, -, rfl⟩ := List.mem_map.1 ht
    rfl
  · obtain rfl := List.mem_singleton.1 ht
    rfl

/-- What a step does with the tasks. -/
theorem tasks_of_step (hts : i.tasks = task :: rest) (h : i.step? now stopping t = some turn) :
    Led task rest turn := by
  cases deed_of_step? hts h with
  | start => exact .keep [.refresh, .cycle] rfl (by simp [Task.leadsTo])
  | stop => exact .cut [.halt none] rfl rfl (by simp [Task.leadsTo])
  | cycle => exact .keep [.subscribe, .poll] rfl (by simp [Task.leadsTo])
  | poll => exact .keep _ rfl (leadsTo_afterPoll _)
  | subscribeFailed | pollFailed | pauseFailed | resumeFailed => exact .halt rfl rfl rfl
  | idleCheck =>
    exact .keep (.pause :: (checkTasks ++ [.resume])) (by simp [goOn]) leadsTo_idleCheck
  | handle hm => exact led_handled hm
  | check => exact .keep _ rfl (leadsTo_checkTasks .check (fun _ => rfl) rfl)
  | crashed => exact ⟨[], [], rfl, by simp, .inr ⟨rfl, .inr rfl⟩⟩
  | query => exact .keep [.run _] rfl (by simp [Task.leadsTo])
  | routers rows =>
    exact .keep ((Routers.corrections (i.routers.apply rows).2).map Task.peersDown ++ [.refresh])
      (by simp [routersStep, goOn]) (leadsTo_marks rows _)
  | peersDown sql => exact .keep [i.query sql] rfl (by simp [Task.leadsTo, query])
  | work hw | workBeat hw => exact .keep _ rfl (leadsTo_work hw)
  | halt fault =>
    exact .cut [.lastPause, .drainOut 0, .leave fault] rfl rfl (by simp [Task.leadsTo])
  | dismiss =>
    refine .keep _ rfl fun t ht => ?_
    obtain ⟨c, -, rfl⟩ := List.mem_map.1 ht
    rfl
  | report | drainOut => exact .keep [.work .drain, .drainWait _] rfl (by simp [Task.leadsTo])
  | drainWait => exact .keep [.drainPause _ _] rfl (by simp [Task.leadsTo])
  | drainPause => exact .keep [.drainOut _] rfl (by simp [Task.leadsTo])
  | leave => exact .cut [] rfl rfl (by simp)
  | subscribe | idle | noIdleCheck | pause | resume | noCheck | checked | finished | beat | refresh
  | depths | lastPause | lastPauseFailed => exact .done rfl

/-- What the tasks that a task leads to have in common with those behind it, all tasks have. -/
theorem Led.all {P : Task → Prop} (h : Led task rest turn)
    (hnew : ∀ t, task.leadsTo t = true → P t) (hrest : ∀ t ∈ rest, P t) :
    ∀ t ∈ turn.intake.tasks, P t := by
  obtain ⟨new, kept, htasks, hled, hkept⟩ := h
  rw [htasks]
  intro t ht
  rcases List.mem_append.1 ht with ht | ht
  · exact hnew t (hled t ht)
  · rcases hkept with rfl | ⟨rfl, -⟩
    · exact hrest t ht
    · exact absurd ht (by simp)

/-- The tasks before some others keep what they have in common with all that they lead to. -/
theorem Led.front {P : Task → Prop} {front back : List Task} (h : Led task (front ++ back) turn)
    (hcut : task.mayCut = false) (hnew : ∀ t, task.leadsTo t = true → P t)
    (hfront : ∀ t ∈ front, P t) (hcrash : turn.intake.outcome ≠ some .crashed) :
    ∃ front', turn.intake.tasks = front' ++ back ∧ ∀ t ∈ front', P t := by
  obtain ⟨new, kept, htasks, hled, rfl | ⟨-, hmay | hcrashed⟩⟩ := h
  · refine ⟨new ++ front, by rw [htasks, List.append_assoc], fun t ht => ?_⟩
    rcases List.mem_append.1 ht with ht | ht
    · exact hnew t (hled t ht)
    · exact hfront t ht
  · exact absurd hmay (by simp [hcut])
  · exact absurd hcrashed hcrash

/-! ## What a step leaves alone -/

/-- A step has kept the number of attempts and, unless it is about the routers, their counts. -/
structure Kept (task : Task) (i : Intake) (turn : Turn) : Prop where
  retries_eq : turn.intake.retries = i.retries
  routers_eq : (∀ rows, task ≠ .routers rows) → task ≠ .refresh → turn.intake.routers = i.routers

theorem kept_of_step (hts : i.tasks = task :: rest) (h : i.step? now stopping t = some turn) :
    Kept task i turn := by
  cases deed_of_step? hts h with
  | handle hm => cases hm <;> exact ⟨rfl, fun _ _ => rfl⟩
  | routers rows => exact ⟨rfl, fun hrouters => absurd rfl (hrouters rows)⟩
  | refresh => exact ⟨rfl, fun _ hrefresh => absurd rfl hrefresh⟩
  | _ => exact ⟨rfl, fun _ _ => rfl⟩

end Intake

end BmpFeed
