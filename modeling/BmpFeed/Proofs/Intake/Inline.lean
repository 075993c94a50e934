import BmpFeed.Proofs.Intake.Course
import BmpFeed.Proofs.Intake.Journal
import BmpFeed.Proofs.Intake.Next
import Mathlib.Data.List.Infix

/-!
# Statements in the intake's own session

An intake runs the statements that a message calls for before it takes up the next message. `Tidy`
says how the tasks for such statements stand before all others, and `Account` that the statements
whose queries have ended, followed by those among the tasks, are the ones that the messages call
for. `Settled` is what this comes to for a journal as a whole; it holds of every run.
-/

namespace BmpFeed.Intake

variable {s : Settings} {log new past later : List Entry} {now n : Nat} {i : Intake}
  {stopping : Bool} {t : Store} {turn : Turn} {task : Task} {ts rest : List Task}

/-! ## Tasks for statements -/

/-- Tasks for statements in the intake's own session. -/
def Task.isOwn : Task → Bool
  | .run _ | .peersDown _ | .routers _ => true
  | _ => false

/-- None of the tasks is for a statement. -/
def Clear (ts : List Task) : Prop := ∀ t ∈ ts, t.isOwn = false

/-- The statements that the tasks of an intake are for. -/
def pending (r : Routers) (ts : List Task) : List String :=
  ts.flatMap fun
    | .run q => [q.sql]
    | .peersDown sql => [sql]
    | .routers rows => Routers.corrections (r.apply rows).2
    | _ => []

/-- The statement of the query that is under way. -/
def begun : List Task → List String
  | .run q :: _ => if q.stage = .opening then [] else [q.sql]
  | _ => []

/-- The statement that has been run and whose query has not ended. -/
def done : List Task → List String
  | .run q :: _ => if q.stage = .finished true then [q.sql] else []
  | _ => []

/-- Tasks for statements stand before all others, and none of the queries has begun. -/
inductive Neat (n : Nat) : List Task → Prop
  | clear {ts : List Task} (h : Clear ts) : Neat n ts
  | run (sql : String) {ts : List Task} (h : Neat n ts) : Neat n (.run { sql, retries := n } :: ts)
  | beat {ts : List Task} (h : Neat n ts) : Neat n (.beat :: ts)
  | peersDown (sql : String) {ts : List Task} (h : Neat n ts) : Neat n (.peersDown sql :: ts)
  | routers (rows : List Record) {ts : List Task} (h : Clear ts) : Neat n (.routers rows :: ts)

/-- The query at the head of the tasks may have begun. -/
inductive Tidy (n : Nat) : List Task → Prop
  | neat {ts : List Task} (h : Neat n ts) : Tidy n ts
  | begun {q : Store.Query} {ts : List Task} (hopen : q.stage ≠ .opening) (hretries : q.retries = n)
      (hbudget : q.InBudget) (h : Neat n ts) : Tidy n (.run q :: ts)

@[simp] theorem pending_append (r : Routers) (ts ts' : List Task) :
    pending r (ts ++ ts') = pending r ts ++ pending r ts' :=
  List.flatMap_append

theorem pending_queries (r : Routers) (i : Intake) (sqls : List String) :
    pending r (sqls.map i.query) = sqls := by
  unfold pending
  rw [List.flatMap_map]
  exact List.flatMap_singleton' sqls

theorem pending_queriesWithBeats (r : Routers) (i : Intake) (sqls : List String) :
    pending r (sqls.flatMap fun sql => [i.query sql, .beat]) = sqls := by
  induction sqls with
  | nil => rfl
  | cons sql sqls ih =>
    rw [List.flatMap_cons, pending_append, ih]
    rfl

theorem pending_peersDown (r : Routers) (sqls : List String) :
    pending r (sqls.map Task.peersDown) = sqls := by
  unfold pending
  rw [List.flatMap_map]
  exact List.flatMap_singleton' sqls

theorem Clear.pending_eq (h : Clear ts) (r : Routers) : pending r ts = [] := by
  apply List.flatMap_eq_nil_iff.2
  intro t ht
  have hown := h t ht
  cases t <;> first | rfl | simp [Task.isOwn] at hown

theorem Clear.of_cons (h : Clear (task :: rest)) : Clear rest := fun t ht =>
  h t (List.mem_cons_of_mem _ ht)

namespace Neat

theorem queries (h : Neat i.retries ts) (sqls : List String) :
    Neat i.retries (sqls.map i.query ++ ts) := by
  induction sqls with
  | nil => exact h
  | cons sql sqls ih => exact .run sql ih

theorem queriesWithBeats (h : Neat i.retries ts) (sqls : List String) :
    Neat i.retries ((sqls.flatMap fun sql => [i.query sql, .beat]) ++ ts) := by
  induction sqls with
  | nil => exact h
  | cons sql sqls ih => exact .run sql (.beat ih)

theorem marks (h : Neat n ts) (sqls : List String) :
    Neat n (sqls.map Task.peersDown ++ ts) := by
  induction sqls with
  | nil => exact h
  | cons sql sqls ih => exact .peersDown sql ih

/-- No query has begun. -/
theorem begun_eq (h : Neat n ts) : begun ts = [] := by
  cases h with
  | clear h =>
    cases ts with
    | nil => rfl
    | cons t ts =>
      have hown := h t List.mem_cons_self
      cases t <;> first | rfl | simp [Task.isOwn] at hown
  | _ => rfl

theorem done_eq (h : Neat n ts) : done ts = [] := by
  cases h with
  | clear h =>
    cases ts with
    | nil => rfl
    | cons t ts =>
      have hown := h t List.mem_cons_self
      cases t <;> first | rfl | simp [Task.isOwn] at hown
  | _ => rfl

/-- A task that is not about statements of the intake stands before no such tasks, but for a sign of
life. -/
theorem of_not_own (h : Neat n (task :: rest)) (htask : task.isOwn = false) (hbeat : task ≠ .beat) :
    Clear (task :: rest) := by
  cases h with
  | clear h => exact h
  | beat h => exact absurd rfl hbeat
  | _ => simp [Task.isOwn] at htask

theorem of_beat (h : Neat n (.beat :: rest)) : Neat n rest := by
  cases h with
  | clear h => exact .clear h.of_cons
  | beat h => exact h

theorem of_peersDown {sql : String} (h : Neat n (.peersDown sql :: rest)) : Neat n rest := by
  cases h with
  | clear h => exact absurd (h _ List.mem_cons_self) (by simp [Task.isOwn])
  | peersDown sql h => exact h

theorem of_routers {rows : List Record} (h : Neat n (.routers rows :: rest)) : Clear rest := by
  cases h with
  | clear h => exact absurd (h _ List.mem_cons_self) (by simp [Task.isOwn])
  | routers rows h => exact h

theorem of_run {q : Store.Query} (h : Neat n (.run q :: rest)) :
    q = { sql := q.sql, retries := n } ∧ Neat n rest := by
  cases h with
  | clear h => exact absurd (h _ List.mem_cons_self) (by simp [Task.isOwn])
  | run sql h => exact ⟨rfl, h⟩

end Neat

theorem Tidy.of_run {q : Store.Query} (h : Tidy n (.run q :: rest)) :
    q.retries = n ∧ q.InBudget ∧ Neat n rest := by
  cases h with
  | neat h =>
    obtain ⟨hq, hrest⟩ := h.of_run
    rw [hq]
    exact ⟨rfl, Nat.zero_le _, hrest⟩
  | begun hopen hretries hbudget h => exact ⟨hretries, hbudget, h⟩

/-- A query stands at the head of the tasks. -/
theorem Tidy.run {q : Store.Query} (hopen : q.stage ≠ .opening) (hretries : q.retries = n)
    (hbudget : q.InBudget) (h : Neat n rest) : Tidy n (.run q :: rest) :=
  .begun hopen hretries hbudget h

theorem Tidy.neat_of_ne (h : Tidy n (task :: rest)) (htask : ∀ q, task ≠ .run q) :
    Neat n (task :: rest) := by
  cases h with
  | neat h => exact h
  | begun => exact absurd rfl (htask _)

/-! ## The tasks of a message -/

theorem neat_inlineTasks (k : Kind) (rows : List Record) (h : Clear rest) :
    Neat i.retries (i.inlineTasks k rows ++ rest) := by
  have hrest : Neat i.retries rest := .clear h
  unfold inlineTasks
  rw [Option.toList_map]
  cases k with
  | collector =>
    dsimp only
    rw [List.append_assoc, List.append_assoc]
    exact .queries (.queries (.beat hrest) _) _
  | router =>
    dsimp only
    rw [List.append_assoc]
    exact .queries (.beat (.routers rows h)) _
  | peer =>
    dsimp only
    rw [List.append_assoc]
    exact .queries (.beat (.queriesWithBeats hrest _)) _
  | _ => exact .queries hrest _

theorem pending_inlineTasks (k : Kind) (rows : List Record) :
    pending i.routers (i.inlineTasks k rows) =
      (i.insert? k rows).toList ++ corrections i.routers k rows := by
  unfold inlineTasks corrections
  rw [Option.toList_map]
  cases k with
  | collector =>
    rw [pending_append, pending_append, pending_queries, pending_queries]
    exact List.append_nil _
  | router =>
    rw [pending_append, pending_queries]
    refine congrArg _ ?_
    exact List.append_nil _
  | peer =>
    dsimp only
    rw [pending_append, pending_queries]
    exact congrArg _ (pending_queriesWithBeats _ _ _)
  | _ =>
    dsimp only
    rw [pending_queries, List.append_nil]

/-! ## Steps -/

theorem Clear.nil : Clear [] := fun _ ht => absurd ht (by simp)

theorem Clear.cons (h : task.isOwn = false) (hts : Clear ts) : Clear (task :: ts) := by
  intro t ht
  rcases List.mem_cons.1 ht with rfl | ht
  · exact h
  · exact hts t ht

/-- Only messages lead to tasks for statements, and such tasks themselves. -/
theorem isOwn_of_leadsTo {next : Task} (h : task.leadsTo next = true) (htask : task.isOwn = false)
    (hmessage : ∀ m, task ≠ .handle m) : next.isOwn = false := by
  cases next with
  | run q | peersDown sql | routers rows =>
    cases task with
    | handle m => exact absurd rfl (hmessage m)
    | run q | peersDown sql | routers rows => exact absurd htask (by simp [Task.isOwn])
    | _ => exact absurd h (by simp [Task.leadsTo])
  | _ => rfl

/-- A step that is not about the statements of the intake leads to no such statements. -/
theorem clear_of_step (hts : i.tasks = task :: rest) (htask : task.isOwn = false)
    (hmessage : ∀ m, task ≠ .handle m) (hrest : Clear rest)
    (hstep : i.step? now stopping t = some turn) : Clear turn.intake.tasks :=
  (tasks_of_step hts hstep).all (fun _ h => isOwn_of_leadsTo h htask hmessage) hrest

/-- The number of attempts at a statement stays what it is. -/
theorem retries_of_step (hstep : i.step? now stopping t = some turn) :
    turn.intake.retries = i.retries := by
  obtain ⟨task, rest, hts, -⟩ := exists_deed hstep
  exact (kept_of_step hts hstep).retries_eq

/-- What becomes of the tasks when a message is taken up. -/
theorem Handled.tasks {m : Feed.Message} (h : Handled i m rest t turn) (hrest : Clear rest) :
    Neat i.retries turn.intake.tasks ∧ pending i.routers turn.intake.tasks = i.due m ∧
      turn.intake.routers = i.routers := by
  have hnone : pending i.routers rest = [] := hrest.pending_eq i.routers
  unfold due
  cases h with
  | unknown hkind =>
    rw [hkind]
    exact ⟨.clear hrest, hnone, rfl⟩
  | refused hkind hrows | empty hkind hrows =>
    rw [hkind, hrows]
    exact ⟨.clear hrest, hnone, rfl⟩
  | @inline k row rows hkind hrows hsync =>
    rw [hkind, hrows]
    refine ⟨neat_inlineTasks (i := i) k (row :: rows) hrest, ?_, rfl⟩
    have hpending := pending_inlineTasks (i := i) k (row :: rows)
    dsimp only [goOn]
    rw [pending_append, hnone, List.append_nil, if_pos hsync]
    exact hpending
  | unmapped hkind hrows hsync | unkeyed hkind hrows hsync =>
    rw [hkind, hrows]
    exact ⟨.clear hrest, by simpa [goOn, hsync] using hnone, rfl⟩
  | @batched k row rows mapping key hkind hrows hsync =>
    have hclear : Clear (.work (.push (mapping.request key (row :: rows))) :: rest) :=
      .cons rfl hrest
    rw [hkind, hrows]
    exact ⟨.clear hclear, by simpa [goOn, hsync] using hclear.pending_eq i.routers, rfl⟩

/-! ## The account -/

/-- How the journal of an intake stands to its tasks. -/
structure Account (n : Nat) (log : List Entry) (r : Routers) (ts : List Task) : Prop where
  tidy : Tidy n ts
  ended_eq : ended log ++ pending r ts = dues log
  asked_eq : asked log = ended log ++ begun ts
  executed_eq : executed log = succeeded log ++ done ts

namespace Account

variable {r r' : Routers} {ts' : List Task}

/-- What is noted is not about the intake's own statements, and these stay what they are. -/
theorem aloof (h : Account n log r ts) (hnew : Aloof new) (htidy : Tidy n ts')
    (hpending : pending r' ts' = pending r ts) (hbegun : begun ts' = begun ts)
    (hdone : done ts' = done ts) : Account n (log ++ new) r' ts' where
  tidy := htidy
  ended_eq := by
    have hdues : dues new = [] := by rw [dues, hnew.takings_eq]; rfl
    rw [ended_append, hnew.ended_eq, dues_append, hdues, hpending, List.append_nil,
      List.append_nil]
    exact h.ended_eq
  asked_eq := by
    rw [asked_append, hnew.asked_eq, ended_append, hnew.ended_eq, hbegun, List.append_nil,
      List.append_nil]
    exact h.asked_eq
  executed_eq := by
    rw [executed_append, hnew.executed_eq, succeeded_append, hnew.succeeded_eq, hdone,
      List.append_nil, List.append_nil]
    exact h.executed_eq

/-- All statements that messages call for have ended when there are no tasks for any. -/
theorem ended_of_clear (h : Account n log r ts) (hts : Clear ts) : ended log = dues log := by
  rw [← h.ended_eq, hts.pending_eq, List.append_nil]

/-- A message is taken up. -/
theorem take (h : Account n log r ts) (hts : Clear ts) (m : Feed.Message) {sqls : List String}
    (hnew : Aloof new) (hneat : Neat n ts') (hpending : pending r ts' = sqls) :
    Account n (log ++ .taken m sqls :: new) r ts' := by
  have hold : begun ts = [] ∧ done ts = [] := ⟨(Neat.clear (n := n) hts).begun_eq,
    (Neat.clear (n := n) hts).done_eq⟩
  have htaken : Account n (log ++ [.taken m sqls]) r ts' := by
    refine ⟨.neat hneat, ?_, ?_, ?_⟩
    · rw [ended_append, dues_append, ← h.ended_of_clear hts, hpending]
      simp [ended, dues, takings]
    · rw [asked_append, ended_append, h.asked_eq, hold.1, hneat.begun_eq]
      simp [asked, ended]
    · rw [executed_append, succeeded_append, h.executed_eq, hold.2, hneat.done_eq]
      simp [executed, succeeded]
  rw [← List.singleton_append, ← List.append_assoc]
  exact htaken.aloof hnew (.neat hneat) rfl rfl rfl

/-- The query at the head of the tasks begins. -/
theorem ask {q q' : Store.Query} (h : Account n log r (.run q :: rest))
    (hopen : q.stage = .opening) (hsql : q'.sql = q.sql) (hbegun : q'.stage ≠ .opening)
    (hfinished : q'.stage ≠ .finished true) (hretries : q'.retries = q.retries)
    (hbudget : q'.InBudget) :
    Account n (log ++ [.asked q.sql q.retries]) r (.run q' :: rest) := by
  obtain ⟨hn, -, hrest⟩ := h.tidy.of_run
  refine ⟨.run hbegun (hretries.trans hn) hbudget hrest, ?_, ?_, ?_⟩
  · have hended := h.ended_eq
    simpa [pending, ended, dues, takings, hsql] using hended
  · have hold : begun (.run q :: rest) = [] := if_pos hopen
    have hnew : begun (.run q' :: rest) = [q.sql] := by rw [begun, if_neg hbegun, hsql]
    rw [asked_append, h.asked_eq, hold, ended_append, hnew, List.append_nil]
    simp [asked, ended]
  · have hold : done (.run q :: rest) = [] := by simp [done, hopen]
    have hnew : done (.run q' :: rest) = [] := by simp [done, hfinished]
    rw [executed_append, h.executed_eq, hold, succeeded_append, hnew]
    simp [executed, succeeded]

/-- The query at the head of the tasks goes on, and the store may run its statement. -/
theorem progress {q q' : Store.Query} (h : Account n log r (.run q :: rest))
    (hopen : q.stage ≠ .opening) (hsql : q'.sql = q.sql) (hbegun : q'.stage ≠ .opening)
    (hretries : q'.retries = q.retries) (hbudget : q'.InBudget) (hasked : asked new = [])
    (hended : ended new = []) (htakings : takings new = []) (hsucceeded : succeeded new = [])
    (hrun : done (.run q :: rest) ++ executed new = done (.run q' :: rest)) :
    Account n (log ++ new) r (.run q' :: rest) := by
  obtain ⟨hn, -, hrest⟩ := h.tidy.of_run
  refine ⟨.run hbegun (hretries.trans hn) hbudget hrest, ?_, ?_, ?_⟩
  · have hdues : dues new = [] := by rw [dues, htakings]; rfl
    have hpending : pending r (.run q' :: rest) = pending r (.run q :: rest) := by
      simp [pending, hsql]
    rw [ended_append, hended, dues_append, hdues, List.append_nil, List.append_nil, hpending]
    exact h.ended_eq
  · have hold : begun (.run q :: rest) = [q.sql] := if_neg hopen
    have hnew : begun (.run q' :: rest) = [q.sql] := by rw [begun, if_neg hbegun, hsql]
    rw [asked_append, hasked, ended_append, hended, List.append_nil, List.append_nil, hnew,
      h.asked_eq, hold]
  · rw [executed_append, succeeded_append, hsucceeded, List.append_nil, h.executed_eq,
      List.append_assoc, hrun]

/-- The query at the head of the tasks ends. -/
theorem finish {q : Store.Query} {ok : Bool} (h : Account n log r (.run q :: rest))
    (hstage : q.stage = .finished ok) :
    Account n (log ++ [.ended q.sql ok q.attempt]) r rest := by
  obtain ⟨-, -, hrest⟩ := h.tidy.of_run
  have hended := h.ended_eq
  have hasked := h.asked_eq
  have hexecuted := h.executed_eq
  refine ⟨.neat hrest, ?_, ?_, ?_⟩
  · simpa [pending, ended, dues, takings] using hended
  · rw [hrest.begun_eq]
    simpa [begun, hstage, asked, ended] using hasked
  · rw [hrest.done_eq]
    cases ok <;> simpa [done, hstage, executed, succeeded] using hexecuted

end Account

/-- Only when a message is taken up is this shown. -/
theorem received_events (hts : i.tasks = task :: rest) (hmessage : ∀ m, task ≠ .handle m) :
    received (i.events now t) = [] := by
  unfold events
  rw [hts]
  cases task with
  | handle m => exact absurd rfl (hmessage m)
  | poll =>
    dsimp only
    split <;> rfl
  | work w =>
    cases w with
    | pass q =>
      dsimp only
      split_ifs
      · rfl
      · exact received_map _
    | chore c => exact received_map _
    | _ => rfl
  | drainOut passes =>
    dsimp only
    split_ifs <;> rfl
  | _ => rfl

/-- Whatever is neither about a message nor about a query is not about statements. -/
theorem aloof_entries (hts : i.tasks = task :: rest) (hmessage : ∀ m, task ≠ .handle m)
    (hquery : ∀ q, task ≠ .run q) : Aloof (i.entries now t) := by
  have hentries : i.entries now t = (i.events now t).map Event.entry := by
    unfold entries
    rw [hts]
    cases task with
    | handle m => exact absurd rfl (hmessage m)
    | run q => exact absurd rfl (hquery q)
    | _ => rfl
  rw [hentries]
  exact aloof_map_entry (received_events hts hmessage)

/-- A step of the query at the head of the tasks. -/
theorem Account.query {q q' : Store.Query} {e : Store.Exchange}
    (h : Account n log i.routers (.run q :: rest))
    (hq : q.step? {} now i.session t = some (q', e)) :
    Account n (log ++ i.queryEntries q t) i.routers (.run q' :: rest) := by
  obtain ⟨-, hbudget, -⟩ := h.tidy.of_run
  obtain ⟨hbudget', hretries⟩ := hbudget.step hq
  unfold queryEntries
  cases hstage : q.stage with
  | finished ok | crashed => simp [Store.Query.step?, hstage] at hq
  | opening =>
    obtain rfl := Store.Query.step?_opening hq hstage
    exact h.ask hstage rfl (by simp) (by simp) hretries hbudget'
  | executing due =>
    by_cases hrun : (t.run i.session.id q.sql).1 = none
    · obtain rfl := Store.Query.step?_executed hq hstage hrun
      dsimp only
      rw [if_pos hrun]
      exact h.progress (by simp [hstage]) rfl (by simp) hretries hbudget' rfl rfl rfl rfl
        (by simp [done, hstage, executed])
    · obtain ⟨hsql, hopen', hfinished⟩ :=
        Store.Query.step?_progress hq (by simp [hstage]) fun _ _ => hrun
      dsimp only
      rw [if_neg hrun]
      exact h.progress (by simp [hstage]) hsql hopen' hretries hbudget' rfl rfl rfl rfl
        (by simp [done, hstage, hfinished, executed])
  | ready | linking | pausing due | resting due =>
    obtain ⟨hsql, hopen', hfinished⟩ :=
      Store.Query.step?_progress hq (by simp [hstage]) fun _ h => by simp [hstage] at h
    exact h.progress (by simp [hstage]) hsql hopen' hretries hbudget' rfl rfl rfl rfl
      (by simp [done, hstage, hfinished, executed])

/-- The rows of a message about routers are counted. -/
theorem Account.routers {rows : List Record} (h : Account i.retries log i.routers i.tasks)
    (hts : i.tasks = .routers rows :: rest) :
    Account i.retries (log ++ i.entries now t) (i.routersStep rows rest t).intake.routers
      (i.routersStep rows rest t).intake.tasks := by
  rw [hts] at h
  have hneat := h.tidy.neat_of_ne (by simp)
  have hrest := hneat.of_routers
  have hrefresh : Clear (.refresh :: rest) := .cons rfl hrest
  have hnew : Neat i.retries
      ((Routers.corrections (i.routers.apply rows).2).map Task.peersDown ++ .refresh :: rest) :=
    .marks (.clear hrefresh) _
  refine h.aloof (aloof_entries hts (by simp) (by simp)) (.neat hnew) ?_
    (hnew.begun_eq.trans hneat.begun_eq.symm) (hnew.done_eq.trans hneat.done_eq.symm)
  have hnil := hrefresh.pending_eq (i.routers.apply rows).1
  have hhead : pending i.routers (.routers rows :: rest) =
      Routers.corrections (i.routers.apply rows).2 ++ pending i.routers rest := rfl
  rw [hhead, hrest.pending_eq, List.append_nil]
  dsimp only [routersStep, goOn]
  rw [pending_append, pending_peersDown, hnil, List.append_nil]

/-- A step that is not about the intake's own statements. -/
theorem Account.apart (h : Account i.retries log i.routers i.tasks)
    (hts : i.tasks = task :: rest) (hown : task.isOwn = false) (hbeat : task ≠ .beat)
    (hmessage : ∀ m, task ≠ .handle m) (hstep : i.step? now stopping t = some turn) :
    Account i.retries (log ++ i.entries now t) turn.intake.routers turn.intake.tasks := by
  have hquery : ∀ q, task ≠ .run q := by
    rintro q rfl
    exact absurd hown (by simp [Task.isOwn])
  rw [hts] at h
  have hneat := h.tidy.neat_of_ne hquery
  have hclear := hneat.of_not_own hown hbeat
  have hnext := clear_of_step hts hown hmessage hclear.of_cons hstep
  have hneat' : Neat i.retries turn.intake.tasks := .clear hnext
  exact h.aloof (aloof_entries hts hmessage hquery) (.neat hneat')
    ((hnext.pending_eq _).trans (hclear.pending_eq _).symm)
    (hneat'.begun_eq.trans hneat.begun_eq.symm) (hneat'.done_eq.trans hneat.done_eq.symm)

/-- A step of an intake keeps its account. -/
theorem Account.step (h : Account i.retries log i.routers i.tasks)
    (hstep : i.step? now stopping t = some turn)
    (hcrash : turn.intake.outcome ≠ some .crashed) :
    Account i.retries (log ++ i.entries now t) turn.intake.routers turn.intake.tasks := by
  obtain ⟨task, rest, hts, hdeed⟩ := exists_deed hstep
  have hsame := h
  rw [hts] at h
  cases hdeed with
  | finished hstage =>
    unfold entries queryEntries
    rw [hts]
    dsimp only
    rw [hstage]
    exact h.finish hstage
  | crashed => exact absurd rfl hcrash
  | query hq =>
    unfold entries
    rw [hts]
    exact h.query hq
  | @handle m turn hm =>
    have hclear := (h.tidy.neat_of_ne (by simp)).of_not_own rfl (by simp)
    obtain ⟨hneat, hpending, hrouters⟩ := hm.tasks hclear.of_cons
    unfold entries
    rw [hts, hrouters]
    exact h.take hclear m (aloof_map_dispatch _ _) hneat hpending
  | routers rows => exact hsame.routers hts
  | peersDown sql =>
    have hneat := h.tidy.neat_of_ne (by simp)
    exact h.aloof (aloof_entries hts (by simp) (by simp)) (.neat (.run sql hneat.of_peersDown))
      rfl rfl rfl
  | beat =>
    have hneat := (h.tidy.neat_of_ne (by simp)).of_beat
    exact h.aloof (aloof_entries hts (by simp) (by simp)) (.neat hneat) rfl hneat.begun_eq
      hneat.done_eq
  | _ => exact hsame.apart hts rfl (by simp) (by simp) hstep

/-! ## Journals -/

/-- What holds of an intake at any time, if no statement has ended it. -/
structure Inline (s : Settings) (log : List Entry) (i : Intake) : Prop where
  retries_eq : i.retries = s.postgres.retries
  mappings_eq : i.mappings = s.tables
  account : i.outcome ≠ some .crashed → Account i.retries log i.routers i.tasks

theorem aloof_writerEntries (w : Writer) (t : Store) : Aloof (writerEntries w t) :=
  aloof_map_dispatch _ _

/-- The invariant of the intake's own statements. -/
theorem Journal.inline (h : Journal s log now i) : Inline s log i := by
  induction h with
  | open_ id bus now t =>
    have hclear : Clear [Task.start] := .cons rfl .nil
    exact ⟨rfl, rfl, fun _ => ⟨.neat (.clear hclear), rfl, rfl, rfl⟩⟩
  | wait _ _ ih => exact ih
  | bus _ _ ih => exact { ih with }
  | @write log now i t w turn _ _ _ ih =>
    have haloof := aloof_writerEntries w t
    exact ⟨ih.retries_eq, ih.mappings_eq, fun hcrash =>
      (ih.account hcrash).aloof haloof (ih.account hcrash).tidy rfl rfl rfl⟩
  | @step log now i stopping t turn hj hstep ih =>
    have hopen := hj.run.outcome_eq_none hstep
    have haccount := ih.account (by simp [hopen])
    have hretries := retries_of_step hstep
    refine ⟨hretries.trans ih.retries_eq,
      (move_of_step? hopen hstep).2.trans ih.mappings_eq, fun hcrash => ?_⟩
    rw [hretries]
    exact haccount.step hstep hcrash

/-- A statement that ends the intake shows nothing, and the writers are left to themselves. -/
theorem Move.of_crashed {ms : List Sql.Mapping} {d d' : Dispatch} {es : List Event}
    {ts' : List Task} {o : Option Outcome} (m : Move now ms d ts es ts' d' o)
    (ho : o = some .crashed) :
    es = [] ∧ d'.fleet = d.fleet.abandon ∧ ∃ q rest, ts = .run q :: rest := by
  cases m with
  | crash q rest => exact ⟨rfl, rfl, q, rest, rfl⟩
  | leave fault rest => cases fault <;> exact absurd ho (by simp)
  | _ => exact absurd ho (by simp)

/-- A statement that ends the intake is not run. -/
theorem entries_of_crashed (hopen : i.outcome = none) (hstep : i.step? now stopping t = some turn)
    (hcrash : turn.intake.outcome = some .crashed) : i.entries now t = [] := by
  obtain ⟨-, -, q, rest, hts⟩ := (move_of_step? hopen hstep).1.of_crashed hcrash
  cases deed_of_step? hts hstep with
  | crashed hstage =>
    unfold entries queryEntries
    rw [hts]
    dsimp only
    rw [hstage]
  | finished | query => exact absurd (hopen.symm.trans hcrash) (by simp)

/-- At any time the journal stands to some tasks as it should: if a statement has ended the intake,
to those it had before. -/
theorem Journal.exists_account (h : Journal s log now i) : ∃ n r ts, Account n log r ts := by
  induction h with
  | open_ id bus now t =>
    exact ⟨_, _, _, (Journal.open_ (s := s) id bus now t).inline.account (by simp [Intake.open_])⟩
  | wait _ _ ih => exact ih
  | bus _ _ ih => exact ih
  | @write log now i t w turn _ _ _ ih =>
    obtain ⟨n, r, ts, haccount⟩ := ih
    exact ⟨n, r, ts, haccount.aloof (aloof_writerEntries w t) haccount.tidy rfl rfl rfl⟩
  | @step log now i stopping t turn hj hstep ih =>
    by_cases hcrash : turn.intake.outcome = some .crashed
    · rw [entries_of_crashed (hj.run.outcome_eq_none hstep) hstep hcrash, List.append_nil]
      exact ih
    · exact ⟨_, _, _, (hj.step hstep).inline.account hcrash⟩

/-! ## Entries about the intake's own statements -/

/-- Entries of a query in the intake's session. -/
def Entry.isOwn : Entry → Bool
  | .asked _ _ | .executed _ | .ended _ _ _ => true
  | _ => false

/-- Only a query shows such entries. -/
theorem exists_query {before after : List Entry} {e : Entry} (he : e.isOwn = true)
    (h : i.entries now t = before ++ e :: after) :
    ∃ q rest, i.tasks = .run q :: rest ∧ i.queryEntries q t = before ++ e :: after := by
  have hmem : e ∈ i.entries now t := by rw [h]; simp
  unfold entries at h hmem
  split at hmem
  · exact absurd hmem (by
      rintro (_ | ⟨_, hmem⟩)
      · simp [Entry.isOwn] at he
      · obtain ⟨r, -, rfl⟩ := List.mem_map.1 hmem
        simp [Entry.isOwn] at he)
  · rename_i q rest htasks
    exact ⟨q, rest, htasks, by simpa [htasks] using h⟩
  · obtain ⟨ev, -, rfl⟩ := List.mem_map.1 hmem
    cases ev <;> simp [Event.entry, Entry.isOwn] at he

/-- Only when a message is taken up is this noted, and then first. -/
theorem entries_taken {before after : List Entry} {m : Feed.Message} {sqls : List String}
    (h : i.entries now t = before ++ .taken m sqls :: after) :
    before = [] ∧ sqls = i.due m ∧ ∃ rest, i.tasks = .handle m :: rest := by
  have htakings : (m, sqls) ∈ takings (i.entries now t) := by rw [h]; simp [takings]
  cases hts : i.tasks with
  | nil =>
    unfold entries events at htakings
    simp [hts, takings] at htakings
  | cons task rest =>
    cases task with
    | handle m' =>
      have hrest : ∀ l : List Request, takings (l.map fun r => .dispatch (.pushed r)) = [] :=
        fun l => (aloof_map_dispatch _ l).takings_eq
      unfold entries at h
      rw [hts] at h
      cases before with
      | nil =>
        obtain ⟨⟨rfl, rfl⟩, -⟩ : (m' = m ∧ i.due m' = sqls) ∧ _ := by simpa using h
        exact ⟨rfl, rfl, rest, rfl⟩
      | cons b before =>
        have htail : takings (_ ++ _) = takings _ := congrArg takings (List.cons.inj h).2.symm
        rw [hrest, takings_append] at htail
        simp [takings] at htail
    | run q =>
      unfold entries queryEntries at htakings
      rw [hts] at htakings
      dsimp only at htakings
      split at htakings <;> (try split_ifs at htakings) <;> simp [takings] at htakings
    | _ =>
      rw [(aloof_entries hts (by simp) (by simp)).takings_eq] at htakings
      exact absurd htakings (by simp)

/-- The last message that was taken up. -/
theorem exists_last_taking (h : takings log ≠ []) :
    ∃ past m sqls later, log = past ++ .taken m sqls :: later ∧
      takings log = takings past ++ [(m, sqls)] := by
  induction log using List.reverseRecOn with
  | nil => exact absurd rfl h
  | append_singleton log e ih =>
    by_cases hnil : takings [e] = []
    · rw [takings_append, hnil, List.append_nil] at h ⊢
      obtain ⟨past, m, sqls, later, hlog, htakings⟩ := ih h
      exact ⟨past, m, sqls, later ++ [e], by rw [hlog]; simp, htakings⟩
    · cases e with
      | taken m sqls => exact ⟨log, m, sqls, [], rfl, takings_append ..⟩
      | _ => exact absurd rfl hnil

/-- When a message is taken up, all statements for those before it have ended. -/
theorem Noted.taken {m : Feed.Message} {sqls : List String} (h : Noted s past (.taken m sqls)) :
    ended past = dues past ∧
      ∃ now i rest, Journal s past now i ∧ i.tasks = .handle m :: rest ∧ sqls = i.due m := by
  cases h with
  | @step log before after now i stopping t turn e hj hstep hentries =>
    obtain ⟨rfl, rfl, rest, hts⟩ := entries_taken hentries
    have hopen := hj.run.outcome_eq_none hstep
    have haccount := hj.inline.account (by simp [hopen])
    have htidy := haccount.tidy
    rw [hts] at htidy
    have hclear := (htidy.neat_of_ne (by simp)).of_not_own rfl (by simp)
    rw [← hts] at hclear
    rw [List.append_nil]
    exact ⟨haccount.ended_of_clear hclear, now, i, rest, hj, hts, rfl⟩

/-- The statements that are left to do are for the last message. -/
theorem Journal.last (h : Journal s log now i) {sqls : List String}
    (hdues : ended log ++ sqls = dues log) (hne : sqls ≠ []) :
    ∃ earlier m before, takings log = earlier ++ [(m, before ++ sqls)] ∧
      ended log = earlier.flatMap Prod.snd ++ before := by
  have htakings : takings log ≠ [] := by
    intro hnil
    rw [dues, hnil] at hdues
    exact hne (List.append_eq_nil_iff.1 hdues).2
  obtain ⟨past, m, due, later, rfl, htake⟩ := exists_last_taking htakings
  have hend : ended (past ++ .taken m due :: later) = dues past ++ ended later := by
    rw [ended_append, (h.noted rfl).taken.1]
    rfl
  have hdue : dues (past ++ .taken m due :: later) = dues past ++ due := by
    rw [dues, htake, List.flatMap_append, List.flatMap_singleton]
    rfl
  rw [hend, hdue, List.append_assoc] at hdues
  exact ⟨takings past, m, ended later, by rw [htake, List.append_cancel_left hdues], hend⟩

/-- When a message has been taken up, all statements for those before it have ended. -/
theorem Journal.ended_before (h : Journal s log now i)
    {earlier after : List (Feed.Message × List String)} {x : Feed.Message × List String}
    (htakings : takings log = earlier ++ x :: after) :
    earlier.flatMap Prod.snd <+: ended log := by
  have hne : takings log ≠ [] := by simp [htakings]
  obtain ⟨past, m, sqls, later, rfl, htake⟩ := exists_last_taking hne
  have hearlier : earlier <+: takings past := by
    rw [htake] at htakings
    rcases split_snoc htakings with ⟨after', hold⟩ | ⟨hold, -⟩
    · exact ⟨_, hold.symm⟩
    · exact hold ▸ List.prefix_rfl
  rw [ended_append, (h.noted rfl).taken.1]
  exact (List.IsPrefix.flatMap hearlier Prod.snd).trans (List.prefix_append _ _)

/-- A query is for a statement of the last message, when those before it have ended. -/
theorem Noted.asked {sql : String} {n : Nat} (h : Noted s past (.asked sql n)) :
    ∃ earlier m before after, takings past = earlier ++ [(m, before ++ sql :: after)] ∧
      ended past = earlier.flatMap Prod.snd ++ before := by
  cases h with
  | @step log before after now i stopping t turn e hj hstep hentries =>
    obtain ⟨q, rest, hts, hquery⟩ := exists_query rfl hentries
    have hopen := hj.run.outcome_eq_none hstep
    have haccount := hj.inline.account (by simp [hopen])
    unfold queryEntries at hquery
    cases hstage : q.stage with
    | opening =>
      rw [hstage] at hquery
      obtain ⟨rfl, ⟨rfl, -⟩, -⟩ : before = [] ∧ (sql = q.sql ∧ _) ∧ _ := by
        simpa [List.singleton_eq_append_iff] using hquery
      have hdues := haccount.ended_eq
      rw [hts] at hdues
      obtain ⟨earlier, m, before, htake, hend⟩ := hj.last hdues (by simp [pending])
      rw [List.append_nil]
      exact ⟨earlier, m, before, pending i.routers rest, htake, hend⟩
    | executing due =>
      rw [hstage] at hquery
      dsimp only at hquery
      split_ifs at hquery <;> simp [List.singleton_eq_append_iff] at hquery
    | finished ok => simp [hstage, List.singleton_eq_append_iff] at hquery
    | _ => simp [hstage] at hquery

/-- A query ends when it has succeeded or its attempts are spent. -/
theorem Noted.ended {sql : String} {ok : Bool} {n : Nat} (h : Noted s past (.ended sql ok n)) :
    ok = true ∨ n = s.postgres.retries := by
  cases h with
  | @step log before after now i stopping t turn e hj hstep hentries =>
    obtain ⟨q, rest, hts, hquery⟩ := exists_query rfl hentries
    have hopen := hj.run.outcome_eq_none hstep
    have htidy := (hj.inline.account (by simp [hopen])).tidy
    rw [hts] at htidy
    obtain ⟨hretries, hbudget, -⟩ := htidy.of_run
    unfold queryEntries at hquery
    cases hstage : q.stage with
    | opening => simp [hstage, List.singleton_eq_append_iff] at hquery
    | executing due =>
      rw [hstage] at hquery
      dsimp only at hquery
      split_ifs at hquery <;> simp [List.singleton_eq_append_iff] at hquery
    | finished ok' =>
      rw [hstage] at hquery
      obtain ⟨-, ⟨-, rfl, rfl⟩, -⟩ :
          before = [] ∧ (sql = q.sql ∧ ok = ok' ∧ n = q.attempt) ∧ _ := by
        simpa [List.singleton_eq_append_iff] using hquery
      cases ok with
      | true => exact .inl rfl
      | false =>
        unfold Store.Query.InBudget at hbudget
        rw [hstage] at hbudget
        exact .inr (hbudget.trans (hretries.trans hj.inline.retries_eq))
    | _ => simp [hstage] at hquery

end BmpFeed.Intake
