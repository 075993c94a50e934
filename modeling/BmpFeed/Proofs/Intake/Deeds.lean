import BmpFeed.Intake
import BmpFeed.Proofs.Dispatch.Deeds

/-!
# What the step of each task of an intake does

`deed_of_step?` says once what a step can do, and on what condition; `Handled` does so for a message
that is taken up. What a step leads to, what it leaves alone and what it says to the bus follows by
cases on the deed.
-/

namespace BmpFeed.Intake

/-- What becomes of a message that is taken up. -/
inductive Handled (i : Intake) (m : Feed.Message) (rest : List Task) (t : Store) : Turn → Prop
  /-- No kind has this tag and this topic. -/
  | unknown (hkind : Kind.classify m.tag m.topic = none) :
      Handled i m rest t
        (({ i with stats := i.stats.countMessage }).goOn rest t [.messageUnknown m.topic m.tag])
  | refused {k : Kind} {e : PayloadError} (hkind : Kind.classify m.tag m.topic = some k)
      (hrows : Record.decode m.payload = .error e) :
      Handled i m rest t
        (({ i with stats := i.stats.countMessage }).goOn rest t [.payloadRefused k m.key e])
  | empty {k : Kind} (hkind : Kind.classify m.tag m.topic = some k)
      (hrows : Record.decode m.payload = .ok []) :
      Handled i m rest t (({ i with stats := i.stats.countMessage }).goOn rest t)
  /-- The rows are written at once. -/
  | inline {k : Kind} {row : Record} {rows : List Record}
      (hkind : Kind.classify m.tag m.topic = some k)
      (hrows : Record.decode m.payload = .ok (row :: rows)) (hsync : k.isSynchronous = true) :
      Handled i m rest t
        (({ i with stats := i.stats.countMessage.countKind k }).goOn
          (i.inlineTasks k (row :: rows) ++ rest) t)
  /-- No mapping is for rows of this kind. -/
  | unmapped {k : Kind} {row : Record} {rows : List Record}
      (hkind : Kind.classify m.tag m.topic = some k)
      (hrows : Record.decode m.payload = .ok (row :: rows)) (hsync : k.isSynchronous = false)
      (hmapping : Sql.Mapping.forKind? i.mappings k = none) :
      Handled i m rest t
        (({ i with stats := i.stats.countMessage.countKind k }).goOn rest t [.kindUnmapped k])
  /-- Neither the message nor its values have a key. -/
  | unkeyed {k : Kind} {row : Record} {rows : List Record} {mapping : Sql.Mapping}
      (hkind : Kind.classify m.tag m.topic = some k)
      (hrows : Record.decode m.payload = .ok (row :: rows)) (hsync : k.isSynchronous = false)
      (hmapping : Sql.Mapping.forKind? i.mappings k = some mapping)
      (hkey : requestKey? m.key (mapping.values (row :: rows)) = none) :
      Handled i m rest t (({ i with stats := i.stats.countMessage.countKind k }).goOn rest t)
  /-- The rows become a request. -/
  | batched {k : Kind} {row : Record} {rows : List Record} {mapping : Sql.Mapping} {key : String}
      (hkind : Kind.classify m.tag m.topic = some k)
      (hrows : Record.decode m.payload = .ok (row :: rows)) (hsync : k.isSynchronous = false)
      (hmapping : Sql.Mapping.forKind? i.mappings k = some mapping)
      (hkey : requestKey? m.key (mapping.values (row :: rows)) = some key) :
      Handled i m rest t
        (({ i with stats := i.stats.countMessage.countKind k }).goOn
          (.work (.push (mapping.request key (row :: rows))) :: rest) t)

/-- What the step of a task does, with `rest` behind it. -/
inductive Deed (now : Nat) (stopping : Bool) (i : Intake) (t : Store) (rest : List Task) :
    Task → Turn → Prop
  | start : Deed now stopping i t rest .start (i.startStep rest t)
  | stop (hstop : stopping = true) : Deed now stopping i t rest .cycle (i.goOn [.halt none] t)
  | cycle (hgo : stopping = false) :
      Deed now stopping i t rest .cycle (i.goOn (.subscribe :: .poll :: rest) t)
  | subscribe {extended : Bool} (h : (i.subscription.step now i.bus).result = .ok extended) :
      Deed now stopping i t rest .subscribe
        (({ i with
            subscription := (i.subscription.step now i.bus).subscription
            bus := (i.subscription.step now i.bus).bus }).goOn rest t
          (i.subscription.step now i.bus).notes)
  | subscribeFailed {f : Feed.Fault} (h : (i.subscription.step now i.bus).result = .error f) :
      Deed now stopping i t rest .subscribe
        (({ i with
            subscription := (i.subscription.step now i.bus).subscription
            bus := (i.subscription.step now i.bus).bus }).goOn [.halt (some f)] t
          (i.subscription.step now i.bus).notes)
  | poll {ms : List Feed.Message} (h : i.bus.poll.result = .ok ms) :
      Deed now stopping i t rest .poll
        (({ i with bus := i.bus.poll.bus }).goOn (afterPoll now ms ++ rest) t [i.bus.poll.note])
  | pollFailed {f : Feed.Fault} (h : i.bus.poll.result = .error f) :
      Deed now stopping i t rest .poll
        (({ i with bus := i.bus.poll.bus }).goOn [.halt (some f)] t [i.bus.poll.note])
  | idle {due : Nat} (hdue : due ≤ now) : Deed now stopping i t rest (.idle due) (i.goOn rest t)
  | idleCheck (hcheck : (i.subscription.isComplete && i.isCheckDue now) = true) :
      Deed now stopping i t rest .idleCheck
        (i.goOn (.pause :: checkTasks ++ .resume :: rest) t)
  | noIdleCheck (hcheck : (i.subscription.isComplete && i.isCheckDue now) = false) :
      Deed now stopping i t rest .idleCheck (i.goOn rest t)
  | pause {u : Unit} (h : i.bus.pause.result = .ok u) :
      Deed now stopping i t rest .pause
        (({ i with bus := i.bus.pause.bus }).goOn rest t [i.bus.pause.note])
  | pauseFailed {f : Feed.Fault} (h : i.bus.pause.result = .error f) :
      Deed now stopping i t rest .pause
        (({ i with bus := i.bus.pause.bus }).goOn [.halt (some f)] t [i.bus.pause.note])
  | resume {u : Unit} (h : i.bus.resume.result = .ok u) :
      Deed now stopping i t rest .resume
        (({ i with bus := i.bus.resume.bus }).goOn rest t [i.bus.resume.note])
  | resumeFailed {f : Feed.Fault} (h : i.bus.resume.result = .error f) :
      Deed now stopping i t rest .resume
        (({ i with bus := i.bus.resume.bus }).goOn [.halt (some f)] t [i.bus.resume.note])
  | handle {m : Feed.Message} {turn : Turn} (h : Handled i m rest t turn) :
      Deed now stopping i t rest (.handle m) turn
  | check (hdue : i.isCheckDue now = true) :
      Deed now stopping i t rest .check (i.goOn (checkTasks ++ rest) t)
  | noCheck (hdue : i.isCheckDue now = false) : Deed now stopping i t rest .check (i.goOn rest t)
  | checked : Deed now stopping i t rest .checked (({ i with lastCheck := now }).goOn rest t)
  | finished {q : Store.Query} {ok : Bool} (h : q.stage = .finished ok) :
      Deed now stopping i t rest (.run q) (i.goOn rest t)
  | crashed {q : Store.Query} (h : q.stage = .crashed) :
      Deed now stopping i t rest (.run q) (i.crash t)
  | query {q q' : Store.Query} {e : Store.Exchange}
      (h : q.step? {} now i.session t = some (q', e)) :
      Deed now stopping i t rest (.run q) (i.onExchange e (.run q' :: rest))
  | beat : Deed now stopping i t rest .beat (i.beatStep rest t)
  | routers (rows : List Record) :
      Deed now stopping i t rest (.routers rows) (i.routersStep rows rest t)
  | peersDown (sql : String) :
      Deed now stopping i t rest (.peersDown sql)
        (i.goOn (i.query sql :: rest) t [.peersMarkedDown sql])
  | refresh : Deed now stopping i t rest .refresh (i.refreshStep rest t)
  | work {w : Dispatch.Task} {done : Dispatch.Turn} (h : Dispatch.Deed now i.dispatch t w done)
      (hpulse : done.pulse = false) :
      Deed now stopping i t rest (.work w)
        (({ i with dispatch := done.dispatch }).goOn (done.tasks.map Task.work ++ rest) done.store
          done.notes)
  /-- The task asked for a sign of life. -/
  | workBeat {w : Dispatch.Task} {done : Dispatch.Turn} (h : Dispatch.Deed now i.dispatch t w done)
      (hpulse : done.pulse = true) :
      Deed now stopping i t rest (.work w)
        (({ i with dispatch := done.dispatch }).beatStep (done.tasks.map Task.work ++ rest)
          done.store done.notes)
  | depths :
      Deed now stopping i t rest .depths
        (({ i with stats := i.stats.setDepths i.dispatch.backlog.size i.dispatch.fleet.depth }).goOn
          rest t)
  | halt (fault : Option Feed.Fault) :
      Deed now stopping i t rest (.halt fault) (i.haltStep fault t)
  | lastPause {u : Unit} (h : i.bus.pause.result = .ok u) :
      Deed now stopping i t rest .lastPause
        (({ i with bus := i.bus.pause.bus }).goOn rest t [i.bus.pause.note])
  | lastPauseFailed {f : Feed.Fault} (h : i.bus.pause.result = .error f) :
      Deed now stopping i t rest .lastPause
        (({ i with bus := i.bus.pause.bus }).goOn rest t [i.bus.pause.note, .pauseFailed f])
  | dismiss {passes : Nat} (hempty : i.dispatch.backlog.isEmpty = true) :
      Deed now stopping i t rest (.drainOut passes)
        (i.goOn (Fleet.shutdownChores.map (fun c => .work (.chore c)) ++ rest) t)
  /-- A pass with a sign of life and a report. -/
  | report {passes : Nat} (hleft : i.dispatch.backlog.isEmpty = false)
      (hreport : (passes + 1) % reportPasses = 0) :
      Deed now stopping i t rest (.drainOut passes)
        { i.beatStep (.work .drain :: .drainWait (passes + 1) :: rest) t with
          notes := .backlogDraining i.id i.dispatch.backlog.size ::
            (i.beatStep (.work .drain :: .drainWait (passes + 1) :: rest) t).notes }
  | drainOut {passes : Nat} (hleft : i.dispatch.backlog.isEmpty = false)
      (hreport : (passes + 1) % reportPasses ≠ 0) :
      Deed now stopping i t rest (.drainOut passes)
        (i.goOn (.work .drain :: .drainWait (passes + 1) :: rest) t)
  | drainWait (passes : Nat) :
      Deed now stopping i t rest (.drainWait passes)
        (i.goOn (.drainPause passes (now + 1) :: rest) t)
  | drainPause {passes due : Nat} (hdue : due ≤ now) :
      Deed now stopping i t rest (.drainPause passes due) (i.goOn (.drainOut passes :: rest) t)
  | leave (fault : Option Feed.Fault) :
      Deed now stopping i t rest (.leave fault) (i.leaveStep fault t)

variable {now : Nat} {stopping : Bool} {i : Intake} {t : Store} {rest : List Task} {task : Task}
  {turn : Turn}

/-! ## One lemma for each step function with branches -/

theorem deed_cycleStep : Deed now stopping i t rest .cycle (i.cycleStep stopping rest t) := by
  unfold cycleStep
  split_ifs with hstop
  · exact .stop hstop
  · exact .cycle (Bool.eq_false_iff.2 hstop)

theorem deed_subscribeStep :
    Deed now stopping i t rest .subscribe (i.subscribeStep now rest t) := by
  unfold subscribeStep
  dsimp only
  split
  · exact .subscribe ‹_›
  · exact .subscribeFailed ‹_›

theorem deed_lastPauseStep : Deed now stopping i t rest .lastPause (i.lastPauseStep rest t) := by
  unfold lastPauseStep
  dsimp only
  split
  · exact .lastPause ‹_›
  · exact .lastPauseFailed ‹_›

theorem deed_drainOutStep (passes : Nat) :
    Deed now stopping i t rest (.drainOut passes) (i.drainOutStep passes rest t) := by
  unfold drainOutStep
  dsimp only
  split_ifs with hempty hreport
  · exact .dismiss hempty
  · exact .report (Bool.eq_false_iff.2 hempty) hreport
  · exact .drainOut (Bool.eq_false_iff.2 hempty) hreport

theorem handled_handleStep (i : Intake) (m : Feed.Message) (rest : List Task) (t : Store) :
    Handled i m rest t (i.handleStep m rest t) := by
  unfold handleStep
  cases hkind : Kind.classify m.tag m.topic with
  | none => exact .unknown hkind
  | some k =>
    cases hrows : Record.decode m.payload with
    | error e => exact .refused hkind hrows
    | ok rows =>
      cases rows with
      | nil => exact .empty hkind hrows
      | cons row rows =>
        dsimp only
        split_ifs with hsync
        · exact .inline hkind hrows hsync
        · rw [Bool.not_eq_true] at hsync
          unfold batchTasks
          dsimp only
          cases hmapping : Sql.Mapping.forKind? i.mappings k with
          | none => exact .unmapped hkind hrows hsync hmapping
          | some mapping =>
            dsimp only
            cases hkey : requestKey? m.key (mapping.values (row :: rows)) with
            | none => exact .unkeyed hkind hrows hsync hmapping hkey
            | some key => exact .batched hkind hrows hsync hmapping hkey

theorem deed_of_runStep? {q : Store.Query} (h : i.runStep? now q rest t = some turn) :
    Deed now stopping i t rest (.run q) turn := by
  unfold runStep? at h
  split at h
  · rename_i ok hstage
    obtain rfl := Option.some.inj h
    exact .finished hstage
  · rename_i hstage
    obtain rfl := Option.some.inj h
    exact .crashed hstage
  · obtain ⟨⟨q', e⟩, hq, rfl⟩ := Option.map_eq_some_iff.1 h
    exact .query hq

theorem deed_of_workStep? {w : Dispatch.Task} (h : i.workStep? now w rest t = some turn) :
    Deed now stopping i t rest (.work w) turn := by
  obtain ⟨done, hdone, rfl⟩ := Option.map_eq_some_iff.1 h
  have hdeed := Dispatch.deed_of_step? hdone
  dsimp only
  split_ifs with hpulse
  · exact .workBeat hdeed hpulse
  · exact .work hdeed (Bool.eq_false_iff.2 hpulse)

/-! ## All steps -/

/-- What a step has done, it has done with the first of the tasks. -/
theorem deed_of_step? (hts : i.tasks = task :: rest) (h : i.step? now stopping t = some turn) :
    Deed now stopping i t rest task turn := by
  unfold step? at h
  rw [hts] at h
  cases task with
  | start | checked | beat | routers rows | peersDown sql | refresh | depths | halt fault
  | drainWait passes | leave fault =>
    obtain rfl := Option.some.inj h
    constructor
  | idle due | drainPause passes due =>
    dsimp only at h
    split_ifs at h with hdue
    obtain rfl := Option.some.inj h
    constructor
    exact hdue
  | cycle =>
    obtain rfl := Option.some.inj h
    exact deed_cycleStep
  | subscribe =>
    obtain rfl := Option.some.inj h
    exact deed_subscribeStep
  | poll =>
    obtain rfl := Option.some.inj h
    unfold onReply
    split
    · exact .poll ‹_›
    · exact .pollFailed ‹_›
  | pause =>
    obtain rfl := Option.some.inj h
    unfold onReply
    split
    · exact .pause ‹_›
    · exact .pauseFailed ‹_›
  | resume =>
    obtain rfl := Option.some.inj h
    unfold onReply
    split
    · exact .resume ‹_›
    · exact .resumeFailed ‹_›
  | idleCheck =>
    obtain rfl := Option.some.inj h
    split_ifs with hcheck
    · exact .idleCheck hcheck
    · exact .noIdleCheck (Bool.eq_false_iff.2 hcheck)
  | handle m =>
    obtain rfl := Option.some.inj h
    exact .handle (handled_handleStep ..)
  | check =>
    obtain rfl := Option.some.inj h
    split_ifs with hdue
    · exact .check hdue
    · exact .noCheck (Bool.eq_false_iff.2 hdue)
  | run q => exact deed_of_runStep? h
  | work w => exact deed_of_workStep? h
  | lastPause =>
    obtain rfl := Option.some.inj h
    exact deed_lastPauseStep
  | drainOut passes =>
    obtain rfl := Option.some.inj h
    exact deed_drainOutStep passes

/-- An intake that makes a step has something to do. -/
theorem exists_deed (h : i.step? now stopping t = some turn) :
    ∃ task rest, i.tasks = task :: rest ∧ Deed now stopping i t rest task turn := by
  cases hts : i.tasks with
  | nil =>
    unfold step? at h
    rw [hts] at h
    exact absurd h (by simp)
  | cons task rest => exact ⟨task, rest, rfl, deed_of_step? hts h⟩

end BmpFeed.Intake
