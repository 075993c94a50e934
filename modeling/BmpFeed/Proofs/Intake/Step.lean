import BmpFeed.Proofs.Intake.Deeds
import BmpFeed.Proofs.Intake.Run

/-!
# The steps of an intake

`move_of_step?` says that every step of an intake that has not ended is one of the moves.
-/

namespace BmpFeed.Intake

variable {now : Nat} {i : Intake} {stopping : Bool} {t : Store} {turn : Turn} {task : Task}
  {rest : List Task}

/-- What a step did is a move, and the intake keeps its mappings. -/
def Moved (now : Nat) (i : Intake) (es : List Event) (turn : Turn) : Prop :=
  Move now i.mappings i.dispatch i.tasks es turn.intake.tasks turn.intake.dispatch
      turn.intake.outcome ∧
    turn.intake.mappings = i.mappings

/-- The step of the task may show something. -/
def Task.isTelling : Task → Bool
  | .poll | .handle _ | .work (.pass _) | .work (.chore _) | .drainOut _ => true
  | _ => false

theorem events_eq_nil (hts : i.tasks = task :: rest) (h : task.isTelling = false) :
    i.events now t = [] := by
  unfold events
  rw [hts]
  cases task with
  | poll | handle m | drainOut n => exact absurd h (by simp [Task.isTelling])
  | work w =>
    cases w with
    | pass q | chore c => exact absurd h (by simp [Task.isTelling])
    | _ => rfl
  | _ => rfl

theorem Moved.intro {es : List Event} (hopen : i.outcome = none) (hts : i.tasks = task :: rest)
    (hevents : i.events now t = es)
    (m : Move now i.mappings i.dispatch (task :: rest) es turn.intake.tasks turn.intake.dispatch
      none)
    (hout : turn.intake.outcome = i.outcome) (hms : turn.intake.mappings = i.mappings) :
    Moved now i (i.events now t) turn := by
  unfold Moved
  rw [hevents, hts, hout, hopen]
  exact ⟨m, hms⟩

/-! ## Steps that show nothing -/

theorem Moved.silent (hopen : i.outcome = none) (hts : i.tasks = task :: rest)
    (htelling : task.isTelling = false)
    (m : Move now i.mappings i.dispatch (task :: rest) [] turn.intake.tasks turn.intake.dispatch
      none)
    (hout : turn.intake.outcome = i.outcome) (hms : turn.intake.mappings = i.mappings) :
    Moved now i (i.events now t) turn :=
  .intro hopen hts (events_eq_nil hts htelling) m hout hms

/-- A step that is about neither the dispatch nor the bus. -/
theorem Moved.aside (hopen : i.outcome = none) (hts : i.tasks = task :: rest)
    (htelling : task.isTelling = false) (htask : task.isAside = true) (new : List Task)
    (hnew : ∀ t ∈ new, t.isAside = true) (htasks : turn.intake.tasks = new ++ rest)
    (hdispatch : turn.intake.dispatch = i.dispatch) (hout : turn.intake.outcome = i.outcome)
    (hms : turn.intake.mappings = i.mappings) : Moved now i (i.events now t) turn := by
  refine .silent hopen hts htelling ?_ hout hms
  rw [htasks, hdispatch]
  exact .aside new rest htask hnew

theorem isAside_marks (sqls : List String) :
    ∀ t ∈ sqls.map Task.peersDown ++ [.refresh], t.isAside = true := by
  intro t ht
  rcases List.mem_append.1 ht with ht | ht
  · obtain ⟨sql, -, rfl⟩ := List.mem_map.1 ht
    rfl
  · obtain rfl := List.mem_singleton.1 ht
    rfl

/-! ## Messages -/

/-- The tasks for a message that is written at once do not concern the dispatch. -/
theorem isAside_inlineTasks (k : Kind) (rows : List Record) :
    ∀ t ∈ i.inlineTasks k rows, t.isAside = true := by
  have hinsert : ∀ t ∈ ((i.insert? k rows).map i.query).toList, t.isAside = true := by
    intro t ht
    obtain ⟨sql, -, rfl⟩ := Option.map_eq_some_iff.1 (Option.mem_toList.1 ht)
    rfl
  intro t ht
  unfold inlineTasks at ht
  cases k <;>
    simp only [List.mem_append, List.mem_cons, List.mem_map, List.mem_flatMap, List.not_mem_nil,
      or_false] at ht
  case collector =>
    rcases ht with (ht | ⟨sql, -, rfl⟩) | rfl
    · exact hinsert t ht
    · rfl
    · rfl
  case router =>
    rcases ht with ht | rfl | rfl
    · exact hinsert t ht
    · rfl
    · rfl
  case peer =>
    rcases ht with ht | rfl | ⟨sql, -, rfl | rfl⟩
    · exact hinsert t ht
    · rfl
    · rfl
    · rfl
  all_goals exact hinsert t ht

theorem events_handle {m : Feed.Message} (hts : i.tasks = .handle m :: rest) :
    i.events now t =
      .received m :: (request? i.mappings m).toList.map fun r => .dispatch (.pushed r) := by
  unfold events
  rw [hts]

/-- The step takes up a message that leads to no request. -/
theorem Moved.received {m : Feed.Message} (hopen : i.outcome = none)
    (hts : i.tasks = .handle m :: rest) (hrequest : request? i.mappings m = none)
    (new : List Task) (hnew : ∀ t ∈ new, t.isAside = true)
    (htasks : turn.intake.tasks = new ++ rest) (hdispatch : turn.intake.dispatch = i.dispatch)
    (hout : turn.intake.outcome = i.outcome) (hms : turn.intake.mappings = i.mappings) :
    Moved now i (i.events now t) turn := by
  have hevents : i.events now t = [.received m] := by
    rw [events_handle hts, hrequest]
    rfl
  refine .intro hopen hts hevents ?_ hout hms
  rw [htasks, hdispatch]
  exact .receive m new rest hrequest hnew

theorem moved_handled {m : Feed.Message} (hopen : i.outcome = none)
    (hts : i.tasks = .handle m :: rest) (h : Handled i m rest t turn) :
    Moved now i (i.events now t) turn := by
  cases h with
  | unknown hkind =>
    exact .received hopen hts (by simp [request?, batch?, hkind]) [] (by simp) rfl rfl rfl rfl
  | refused hkind hrows | empty hkind hrows =>
    exact .received hopen hts (by simp [request?, batch?, hkind, hrows]) [] (by simp) rfl rfl rfl
      rfl
  | @inline k row rows hkind hrows hsync =>
    exact .received hopen hts (by simp [request?, batch?, hkind, hrows, hsync]) _
      (isAside_inlineTasks (i := i) k (row :: rows)) rfl rfl rfl rfl
  | unmapped hkind hrows hsync hmapping =>
    exact .received hopen hts (by simp [request?, batch?, hkind, hrows, hsync, hmapping]) []
      (by simp) rfl rfl rfl rfl
  | unkeyed hkind hrows hsync hmapping hkey =>
    exact .received hopen hts (by simp [request?, batch?, hkind, hrows, hsync, hmapping, hkey]) []
      (by simp) rfl rfl rfl rfl
  | @batched k row rows mapping key hkind hrows hsync hmapping hkey =>
    have hrequest : request? i.mappings m = some (mapping.request key (row :: rows)) := by
      simp [request?, batch?, hkind, hrows, hsync, hmapping, hkey]
    have hevents : i.events now t =
        [.received m, .dispatch (.pushed (mapping.request key (row :: rows)))] := by
      rw [events_handle hts, hrequest]
      rfl
    exact .intro hopen hts hevents (.request m rest hrequest) rfl rfl

/-! ## The dispatch -/

theorem move_of_deed {work : Dispatch.Task} {done : Dispatch.Turn}
    (hts : i.tasks = .work work :: rest) (h : Dispatch.Deed now i.dispatch t work done) :
    Move now i.mappings i.dispatch i.tasks (i.events now t) (done.tasks.map .work ++ rest)
      done.dispatch none := by
  unfold events
  rw [hts]
  cases h with
  | @chore c turn hturn =>
    have htasks : (i.dispatch.ofChore turn).tasks.map Task.work = turn.chores.map chore := by
      simp [Dispatch.ofChore, chore, Function.comp_def]
    rw [htasks]
    exact .chore rest hturn
  | push hpush => exact .push rest hpush
  | full => exact .full _ rest
  | rest => exact .rest _ _ rest
  | retry => exact .retry _ _ rest
  | drain => exact .drain rest
  | endPass hleft =>
    dsimp only
    rw [if_pos hleft]
    exact .endPass rest hleft
  | passOn hleft =>
    dsimp only
    rw [if_neg hleft]
    exact .passOn rest hleft

theorem moved_work {work : Dispatch.Task} {done : Dispatch.Turn} (hopen : i.outcome = none)
    (hts : i.tasks = .work work :: rest) (h : Dispatch.Deed now i.dispatch t work done)
    (htasks : turn.intake.tasks = done.tasks.map .work ++ rest)
    (hdispatch : turn.intake.dispatch = done.dispatch) (hout : turn.intake.outcome = i.outcome)
    (hms : turn.intake.mappings = i.mappings) : Moved now i (i.events now t) turn := by
  unfold Moved
  rw [htasks, hdispatch, hout, hopen]
  exact ⟨move_of_deed hts h, hms⟩

/-! ## All steps -/

theorem events_poll {ms : List Feed.Message} (hts : i.tasks = .poll :: rest)
    (hpoll : i.bus.poll.result = .ok ms) : i.events now t = [.polled ms] := by
  unfold events
  rw [hts]
  dsimp only
  rw [hpoll]

theorem events_pollFailed {f : Feed.Fault} (hts : i.tasks = .poll :: rest)
    (hpoll : i.bus.poll.result = .error f) : i.events now t = [] := by
  unfold events
  rw [hts]
  dsimp only
  rw [hpoll]

theorem events_drainOut {n : Nat} (hts : i.tasks = .drainOut n :: rest) :
    i.events now t =
      if i.dispatch.backlog.isEmpty then [.dispatch (.fleet .dismissed)] else [] := by
  unfold events
  rw [hts]

/-- Every step of an intake that has not ended is a move. -/
theorem move_of_step? (hopen : i.outcome = none) (h : i.step? now stopping t = some turn) :
    Moved now i (i.events now t) turn := by
  obtain ⟨task, rest, hts, hdeed⟩ := exists_deed h
  cases hdeed with
  | start => exact .silent hopen hts rfl (.start rest) rfl rfl
  | stop => exact .silent hopen hts rfl (.stop rest) rfl rfl
  | cycle => exact .silent hopen hts rfl (.cycle rest) rfl rfl
  | subscribe | pause | resume => exact .silent hopen hts rfl (.order rest rfl) rfl rfl
  | subscribeFailed | pauseFailed | resumeFailed =>
    exact .silent hopen hts rfl (.fail rest _ (.inl rfl)) rfl rfl
  | poll hpoll => exact .intro hopen hts (events_poll hts hpoll) (.poll _ rest) rfl rfl
  | pollFailed hpoll =>
    exact .intro hopen hts (events_pollFailed hts hpoll) (.fail rest _ (.inr rfl)) rfl rfl
  | idle | noIdleCheck | noCheck | checked | finished | beat | refresh | depths =>
    exact .aside hopen hts rfl rfl [] (by simp) rfl rfl rfl rfl
  | idleCheck => exact .silent hopen hts rfl (.idleCheck rest) rfl rfl
  | handle hm => exact moved_handled hopen hts hm
  | check => exact .silent hopen hts rfl (.check rest) rfl rfl
  | crashed =>
    unfold Moved
    rw [events_eq_nil hts rfl, hts]
    exact ⟨.crash _ rest, rfl⟩
  | query => exact .aside hopen hts rfl rfl [.run _] (by simp [Task.isAside]) rfl rfl rfl rfl
  | routers rows =>
    have hmarks := isAside_marks (Routers.corrections (i.routers.apply rows).2)
    exact .aside hopen hts rfl rfl _ hmarks (by simp [routersStep, goOn]) rfl rfl rfl
  | peersDown sql =>
    exact .aside hopen hts rfl rfl [i.query sql] (by simp [query, Task.isAside]) rfl rfl rfl rfl
  | work hw | workBeat hw => exact moved_work hopen hts hw rfl rfl rfl rfl
  | halt fault => exact .silent hopen hts rfl (.halt fault rest) rfl rfl
  | lastPause | lastPauseFailed => exact .silent hopen hts rfl (.lastPause rest) rfl rfl
  | dismiss hempty =>
    exact .intro hopen hts (by rw [events_drainOut hts, if_pos hempty]) (.dismiss _ rest hempty)
      rfl rfl
  | report hleft | drainOut hleft =>
    exact .intro hopen hts (by simp [events_drainOut hts, hleft]) (.drainOut _ rest) rfl rfl
  | drainWait n => exact .silent hopen hts rfl (.drainWait n _ rest) rfl rfl
  | drainPause => exact .silent hopen hts rfl (.drainPause _ _ rest) rfl rfl
  | leave fault =>
    unfold Moved
    rw [events_eq_nil hts rfl, hts]
    exact ⟨.leave fault rest, rfl⟩

end BmpFeed.Intake
