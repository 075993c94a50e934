import BmpFeed.Store.Bench
import Mathlib.Data.List.Basic
import Mathlib.Logic.Relation
import Mathlib.Tactic.Common

/-!
# The retry contract

What becomes of a statement that is tried a number of times while the store goes through its script.
An attempt that finds the session connected takes the next fault of the script or is recorded. Only
at the beginning can an attempt find the session not connected: then it is lost, but no fault is
taken. `Leads` follows a query through its steps and pauses, `leads_attempts` is the induction on
the attempts that are left, and `Bench.run_settles` tells what comes out.
-/

namespace BmpFeed.Store

/-! ## Sessions -/

/-- What can become of a session, with the store in any state each time. -/
inductive Session.Reached : Session → Prop
  | open_ (t : Store) : Reached (openSession t).1
  | connect {s : Session} (t : Store) : Reached s → Reached (s.connect t).session
  | disconnect {s : Session} : Reached s → Reached s.disconnect
  | select {s : Session} (t : Store) (sql : String) :
      Reached s → Reached (s.select t sql).2.session
  | query {s : Session} {pauses : Writer.Pauses} {now : Nat} {q q' : Query} {t : Store}
      {e : Exchange} :
      Reached s → q.step? pauses now s t = some (q', e) → Reached e.session

/-- A session is connected if and only if its owner believes so. -/
def Session.Agrees (s : Session) : Prop := s.linked = s.connected

theorem Session.agrees_connect (s : Session) (t : Store) : (s.connect t).session.Agrees := by
  unfold Session.connect
  split <;> rfl

theorem Session.Agrees.ensure {s : Session} (h : s.Agrees) (t : Store) :
    (s.ensure t).session.Agrees := by
  unfold Session.ensure
  split_ifs
  · exact h
  · exact s.agrees_connect t

theorem Session.Agrees.ask {s : Session} (h : s.Agrees) (t : Store) (sql : String) :
    (s.ask t sql).2.session.Agrees := by
  unfold Session.ask
  split_ifs with hlinked
  · exact h
  · exact Bool.eq_false_iff.2 hlinked

theorem Session.Agrees.select {s : Session} (h : s.Agrees) (t : Store) (sql : String) :
    (s.select t sql).2.session.Agrees :=
  (h.ensure t).ask (s.ensure t).store sql

theorem Query.agrees_onFault {pauses : Writer.Pauses} {now : Nat} {q : Query} {f : Fault}
    {s : Session} {t : Store} (h : if f.isConnection then s.linked = false else s.Agrees) :
    (q.onFault pauses now f s t).2.session.Agrees := by
  cases f <;> exact h

theorem Query.agrees_issue {s : Session} (h : s.Agrees) (pauses : Writer.Pauses) (now : Nat)
    (q : Query) (t : Store) : (q.issue pauses now s t).2.session.Agrees := by
  unfold Query.issue
  split_ifs with _ _ hlinked
  · exact h
  · exact h
  · exact Query.agrees_onFault (Bool.eq_false_iff.2 hlinked)
  · exact h

theorem Query.agrees_answered {s : Session} (h : s.Agrees) (pauses : Writer.Pauses) (now : Nat)
    (q : Query) (t : Store) : (q.answered pauses now s t).2.session.Agrees := by
  unfold Query.answered
  cases hfaults : t.faults with
  | nil =>
    simp only [Store.run, hfaults]
    exact h
  | cons f rest =>
    simp only [Store.run, hfaults]
    refine Query.agrees_onFault ?_
    cases f <;> simp [Fault.isConnection, Session.Agrees] <;> exact h

theorem Query.agrees_relink (s : Session) (pauses : Writer.Pauses) (now : Nat) (q : Query)
    (t : Store) : (q.relink pauses now s t).2.session.Agrees := by
  unfold Query.relink
  dsimp only
  split_ifs <;> exact s.agrees_connect t

theorem Query.agrees_step {pauses : Writer.Pauses} {now : Nat} {q q' : Query} {s : Session}
    {t : Store} {e : Exchange} (h : s.Agrees) (hstep : q.step? pauses now s t = some (q', e)) :
    e.session.Agrees := by
  unfold Query.step? at hstep
  cases hstage : q.stage with
  | opening =>
    rw [hstage] at hstep
    obtain ⟨-, rfl⟩ := Prod.mk.inj (Option.some.inj hstep)
    exact h.ensure t
  | ready =>
    rw [hstage] at hstep
    have hissued := q.agrees_issue h pauses now t
    rwa [Option.some.inj hstep] at hissued
  | executing due =>
    rw [hstage] at hstep
    dsimp only at hstep
    split_ifs at hstep
    have hanswered := q.agrees_answered h pauses now t
    rwa [Option.some.inj hstep] at hanswered
  | linking =>
    rw [hstage] at hstep
    have hlinked := q.agrees_relink s pauses now t
    rwa [Option.some.inj hstep] at hlinked
  | pausing due | resting due =>
    rw [hstage] at hstep
    dsimp only at hstep
    split_ifs at hstep
    obtain ⟨-, rfl⟩ := Prod.mk.inj (Option.some.inj hstep)
    exact h
  | finished ok | crashed =>
    rw [hstage] at hstep
    exact absurd hstep (by simp)

theorem Session.Reached.agrees {s : Session} (h : s.Reached) : s.Agrees := by
  induction h with
  | open_ t => rfl
  | connect t _ _ => exact Session.agrees_connect _ t
  | disconnect _ _ => rfl
  | select t sql _ ih => exact ih.select t sql
  | query _ hstep ih => exact Query.agrees_step ih hstep

/-! ## Budgets -/

/-- A query has failed attempts within its budget, and gives up when that is spent. -/
def Query.InBudget (q : Query) : Prop :=
  match q.stage with
  | .executing _ | .linking | .pausing _ => q.attempt < q.retries
  | .finished false => q.attempt = q.retries
  | _ => q.attempt ≤ q.retries

theorem Query.InBudget.onFault {pauses : Writer.Pauses} {now : Nat} {q : Query} {s : Session}
    {t : Store} (h : q.attempt < q.retries) (f : Fault) :
    (q.onFault pauses now f s t).1.InBudget := by
  cases f with
  | connection reason => exact h
  | deadlock reason => exact h
  | statement code reason => exact h

theorem Query.retries_onFault {pauses : Writer.Pauses} {now : Nat} {q : Query} {s : Session}
    {t : Store} (f : Fault) : (q.onFault pauses now f s t).1.retries = q.retries := by
  cases f <;> rfl

/-- A step keeps within the budget. -/
theorem Query.InBudget.step {pauses : Writer.Pauses} {now : Nat} {q q' : Query} {s : Session}
    {t : Store} {e : Exchange} (h : q.InBudget) (hstep : q.step? pauses now s t = some (q', e)) :
    q'.InBudget ∧ q'.retries = q.retries := by
  unfold Query.InBudget at h
  unfold Query.step? at hstep
  cases hstage : q.stage with
  | opening =>
    rw [hstage] at h hstep
    obtain ⟨rfl, -⟩ := Prod.mk.inj (Option.some.inj hstep)
    exact ⟨h, rfl⟩
  | ready =>
    rw [hstage] at h hstep
    have hq := congrArg Prod.fst (Option.some.inj hstep)
    subst hq
    unfold Query.issue
    split_ifs with hlt
    · exact ⟨Nat.le_of_lt hlt, rfl⟩
    · exact ⟨hlt, rfl⟩
    · exact ⟨Query.InBudget.onFault hlt _, Query.retries_onFault _⟩
    · exact ⟨Nat.le_antisymm h (Nat.le_of_not_lt hlt), rfl⟩
  | executing due =>
    rw [hstage] at h hstep
    dsimp only at hstep
    split_ifs at hstep
    have hq := congrArg Prod.fst (Option.some.inj hstep)
    subst hq
    unfold Query.answered
    split
    · exact ⟨Nat.le_of_lt h, rfl⟩
    · exact ⟨Query.InBudget.onFault h _, Query.retries_onFault _⟩
  | linking =>
    rw [hstage] at h hstep
    have hq := congrArg Prod.fst (Option.some.inj hstep)
    subst hq
    unfold Query.relink
    dsimp only
    split_ifs
    · exact ⟨h, rfl⟩
    · exact ⟨h, rfl⟩
  | pausing due | resting due =>
    rw [hstage] at h hstep
    dsimp only at hstep
    split_ifs at hstep
    obtain ⟨rfl, -⟩ := Prod.mk.inj (Option.some.inj hstep)
    exact ⟨h, rfl⟩
  | finished ok | crashed =>
    rw [hstage] at hstep
    exact absurd hstep (by simp)

/-! ## The course of a query -/

/-- A query under way. -/
structure Moment where
  now : Nat
  query : Query
  session : Session
  store : Store

/-- A step of the query, or a wait until it goes on. -/
inductive Next (pauses : Writer.Pauses) : Moment → Moment → Prop
  | step {m : Moment} {q : Query} {e : Exchange} :
      m.query.step? pauses m.now m.session m.store = some (q, e) →
        Next pauses m ⟨m.now, q, e.session, e.store⟩
  | wait {m : Moment} {due : Nat} :
      m.query.step? pauses m.now m.session m.store = none → m.query.wake? = some due →
        Next pauses m { m with now := max due m.now }

/-- Some steps and waits. -/
abbrev Leads (pauses : Writer.Pauses) : Moment → Moment → Prop :=
  Relation.ReflTransGen (Next pauses)

variable {pauses : Writer.Pauses} {now d k : Nat} {q : Query} {s : Session} {t : Store}
  {sql : String}

theorem leads_step {q' : Query} {e : Exchange} (h : q.step? pauses now s t = some (q', e)) :
    Leads pauses ⟨now, q, s, t⟩ ⟨now, q', e.session, e.store⟩ :=
  .single (.step (m := ⟨now, q, s, t⟩) h)

/-- A query that waits goes on when its time has come. -/
theorem leads_due (hwake : q.wake? = some (now + d))
    (hwaits : 0 < d → q.step? pauses now s t = none) :
    Leads pauses ⟨now, q, s, t⟩ ⟨now + d, q, s, t⟩ := by
  rcases Nat.eq_zero_or_pos d with rfl | hd
  · exact .refl
  · have hnext : Next pauses ⟨now, q, s, t⟩ ⟨max (now + d) now, q, s, t⟩ :=
      .wait (m := ⟨now, q, s, t⟩) (hwaits hd) hwake
    rw [Nat.max_eq_left (Nat.le_add_right _ _)] at hnext
    exact .single hnext

/-- The store once a session has been connected. -/
def relinked (t : Store) : Store := { t with refusals := 0, connects := t.connects + 1 }

/-- The session once it has been connected. -/
def Session.up (s : Session) : Session := { s with linked := true, connected := true }

/-- A lost connection is opened again after all refusals. -/
theorem leads_link (pauses : Writer.Pauses) (now : Nat) (q : Query) (s : Session) (t : Store) :
    Leads pauses ⟨now, { q with stage := .linking }, s, t⟩
      ⟨now + pauses.reconnect * t.refusals, q.retry .ready, s.up, relinked t⟩ := by
  induction hn : t.refusals generalizing now s t with
  | zero =>
    have hlink : s.connect t = ⟨s.up, relinked t, [.connected]⟩ := by
      simp [Session.connect, Store.link, hn, Session.up, relinked]
    refine leads_step (e := ⟨s.up, relinked t, [.connected]⟩) ?_
    simp [Query.step?, Query.relink, hlink, Session.up, Query.retry]
  | succ n ih =>
    let s' : Session := { s with linked := false, connected := false }
    let t' : Store := { t with refusals := n }
    have hlink : s.connect t = ⟨s', t', [.connectFailed Fault.refused]⟩ := by
      simp [Session.connect, Store.link, hn, s', t']
    have hrefused : Leads pauses ⟨now, { q with stage := .linking }, s, t⟩
        ⟨now, { q with stage := .pausing (now + pauses.reconnect) }, s', t'⟩ := by
      refine leads_step (e := ⟨s', t', [.connectFailed Fault.refused]⟩) ?_
      simp [Query.step?, Query.relink, hlink, s']
    have hpause : Leads pauses
        ⟨now, { q with stage := .pausing (now + pauses.reconnect) }, s', t'⟩
        ⟨now + pauses.reconnect, { q with stage := .pausing (now + pauses.reconnect) }, s', t'⟩ :=
      leads_due rfl fun hpos => if_neg (by omega)
    have hagain : Leads pauses
        ⟨now + pauses.reconnect, { q with stage := .pausing (now + pauses.reconnect) }, s', t'⟩
        ⟨now + pauses.reconnect, { q with stage := .linking }, s', t'⟩ :=
      leads_step (e := ⟨s', t', []⟩) (if_pos (Nat.le_refl _))
    have hrest := ih (now + pauses.reconnect) s' t' rfl
    rw [Nat.add_assoc, Nat.add_comm pauses.reconnect, ← Nat.mul_succ] at hrest
    exact ((hrefused.trans hpause).trans hagain).trans hrest

/-! ## Attempts of a connected session -/

/-- The faults that at most `k` attempts take. -/
def taken (t : Store) (k : Nat) : List Fault := t.faults.take k

/-- The refusals that are met while lost connections are opened again. -/
def refused (t : Store) (k : Nat) : Nat :=
  if (taken t k).any Fault.isConnection then t.refusals else 0

/-- The store after at most `k` attempts at a statement in a connected session. -/
def attempted (t : Store) (session : Nat) (sql : String) (k : Nat) : Store :=
  { t with
    executed := t.executed ++ if t.faults.length < k then [⟨session, sql⟩] else []
    faults := t.faults.drop k
    refusals := t.refusals - refused t k
    connects := t.connects + (taken t k).countP Fault.isConnection }

/-- The time that at most `k` attempts in a connected session take. -/
def duration (pauses : Writer.Pauses) (t : Store) (k : Nat) : Nat :=
  t.latency * min (t.faults.length + 1) k + pauses.deadlock * (taken t k).countP Fault.isDeadlock +
    pauses.reconnect * refused t k

/-- The store after a fault was taken and, if the connection was lost with it, opened again. -/
def afterFault (t : Store) (f : Fault) (rest : List Fault) : Store :=
  if f.isConnection then relinked { t with faults := rest } else { t with faults := rest }

/-- The pause that a fault costs. -/
def faultPause (pauses : Writer.Pauses) (t : Store) : Fault → Nat
  | .connection _ => pauses.reconnect * t.refusals
  | .deadlock _ => pauses.deadlock
  | .statement _ _ => 0

section Attempts

variable {f : Fault} {rest : List Fault}

theorem attempted_cons (hfaults : t.faults = f :: rest) (session : Nat) (sql : String) (k : Nat) :
    attempted t session sql (k + 1) = attempted (afterFault t f rest) session sql k := by
  unfold attempted refused taken afterFault
  cases hf : f.isConnection with
  | true => simp [hfaults, hf, relinked, Nat.add_assoc, Nat.add_comm 1]
  | false => simp [hfaults, hf]

theorem duration_cons (hfaults : t.faults = f :: rest) (k : Nat) :
    duration pauses t (k + 1) =
      t.latency + faultPause pauses t f + duration pauses (afterFault t f rest) k := by
  have hmin : min (rest.length + 1 + 1) (k + 1) = min (rest.length + 1) k + 1 := by omega
  unfold duration refused taken afterFault
  cases f with
  | connection reason =>
    simp [hfaults, hmin, Fault.isConnection, Fault.isDeadlock, relinked, faultPause, Nat.mul_succ]
    omega
  | deadlock reason =>
    simp [hfaults, hmin, Fault.isConnection, Fault.isDeadlock, List.countP_cons, faultPause,
      Nat.mul_succ]
    omega
  | statement code reason =>
    simp [hfaults, hmin, Fault.isConnection, Fault.isDeadlock, faultPause, Nat.mul_succ]
    omega

end Attempts

/-- The next attempt of a connected session gets to the store. -/
theorem leads_answer {id attempt retries : Nat} (hlt : attempt < retries)
    (hfatal : t.isFatal sql = false) :
    Leads pauses ⟨now, { sql, retries, attempt, stage := .ready }, ⟨id, true, true⟩, t⟩
      ⟨now + t.latency, { sql, retries, attempt, stage := .executing (now + t.latency) },
        ⟨id, true, true⟩, t⟩ := by
  let q : Query := { sql, retries, attempt, stage := .executing (now + t.latency) }
  have hissue : Leads pauses
      ⟨now, { sql, retries, attempt, stage := .ready }, ⟨id, true, true⟩, t⟩
      ⟨now, q, ⟨id, true, true⟩, t⟩ :=
    leads_step (e := ⟨⟨id, true, true⟩, t, [.executing id attempt sql]⟩)
      (by simp [Query.step?, Query.issue, hlt, hfatal, q])
  exact hissue.trans (leads_due rfl fun hpos => if_neg (by omega))

/-- A fault costs an attempt and a pause. -/
theorem leads_fault {id attempt retries : Nat} {f : Fault} {rest : List Fault}
    (hlt : attempt < retries) (hfatal : t.isFatal sql = false) (hfaults : t.faults = f :: rest) :
    Leads pauses ⟨now, { sql, retries, attempt, stage := .ready }, ⟨id, true, true⟩, t⟩
      ⟨now + t.latency + faultPause pauses t f,
        { sql, retries, attempt := attempt + 1, stage := .ready }, ⟨id, true, true⟩,
        afterFault t f rest⟩ := by
  refine (leads_answer hlt hfatal).trans ?_
  generalize now + t.latency = due
  let q : Query := { sql, retries, attempt, stage := .executing due }
  let t' : Store := { t with faults := rest }
  have hanswer : Leads pauses ⟨due, q, ⟨id, true, true⟩, t⟩
      ⟨due, (q.onFault pauses due f ⟨id, !f.isConnection, true⟩ t').1,
        (q.onFault pauses due f ⟨id, !f.isConnection, true⟩ t').2.session,
        (q.onFault pauses due f ⟨id, !f.isConnection, true⟩ t').2.store⟩ :=
    leads_step (by simp [Query.step?, Query.answered, Store.run, hfaults, q, t'])
  refine hanswer.trans ?_
  cases f with
  | connection reason => exact leads_link pauses due q ⟨id, false, false⟩ t'
  | deadlock reason =>
    have hrest : Leads pauses
        ⟨due, q.retry (.resting (due + pauses.deadlock)), ⟨id, true, true⟩, t'⟩
        ⟨due + pauses.deadlock, q.retry (.resting (due + pauses.deadlock)), ⟨id, true, true⟩, t'⟩ :=
      leads_due rfl fun hpos => if_neg (by omega)
    exact hrest.trans (leads_step (e := ⟨⟨id, true, true⟩, t', []⟩) (if_pos (Nat.le_refl _)))
  | statement code reason => exact .refl

variable (pauses now) in
/-- The attempts that are left, in a connected session. -/
theorem leads_attempts (id : Nat) {attempt retries : Nat} (hleft : attempt + k = retries)
    (hfatal : t.isFatal sql = false) :
    ∃ attempt', Leads pauses
      ⟨now, { sql, retries, attempt, stage := .ready }, ⟨id, true, true⟩, t⟩
      ⟨now + duration pauses t k,
        { sql, retries, attempt := attempt', stage := .finished (t.faults.length < k) },
        ⟨id, true, true⟩, attempted t id sql k⟩ := by
  induction k generalizing now attempt t with
  | zero =>
    have hdone : ¬ attempt < retries := by omega
    have hsame : attempted t id sql 0 = t := by simp [attempted, refused, taken]
    refine ⟨attempt, ?_⟩
    rw [hsame]
    refine leads_step
      (e := ⟨⟨id, true, true⟩, t, [.retriesExhausted retries, .statementDropped sql]⟩) ?_
    simp [Query.step?, Query.issue, hdone]
  | succ k ih =>
    have hlt : attempt < retries := by omega
    cases hfaults : t.faults with
    | nil =>
      refine ⟨attempt, ?_⟩
      have htime : duration pauses t (k + 1) = t.latency := by
        simp [duration, refused, taken, hfaults]
      have hstore : attempted t id sql (k + 1) =
          { t with executed := t.executed ++ [⟨id, sql⟩] } := by
        simp [attempted, refused, taken, hfaults]
      rw [htime, hstore]
      refine (leads_answer hlt hfatal).trans (leads_step
        (e := ⟨⟨id, true, true⟩, { t with executed := t.executed ++ [⟨id, sql⟩] }, []⟩) ?_)
      simp [Query.step?, Query.answered, Store.run, hfaults]
    | cons f rest =>
      have hfatal' : (afterFault t f rest).isFatal sql = false := by
        unfold afterFault
        split_ifs <;> exact hfatal
      have hfaults' : (afterFault t f rest).faults = rest := by
        unfold afterFault
        split_ifs <;> rfl
      have hleft' : attempt + 1 + k = retries := by omega
      obtain ⟨attempt', hrest⟩ := ih (now + t.latency + faultPause pauses t f) hleft' hfatal'
      rw [hfaults'] at hrest
      refine ⟨attempt', (leads_fault hlt hfatal hfaults).trans ?_⟩
      rw [attempted_cons hfaults, duration_cons hfaults, ← Nat.add_assoc, ← Nat.add_assoc]
      simpa using hrest

/-! ## Whole queries -/

/-- The attempts that are lost because the session could not be connected at the beginning. -/
def misses (s : Session) (t : Store) : Nat := if s.connected = false ∧ 0 < t.refusals then 1 else 0

/-- The store once the session has been connected for the first attempt that gets to the store. -/
def afterOpening (s : Session) (t : Store) : Store := if s.connected then t else relinked t

@[simp] theorem faults_afterOpening (s : Session) (t : Store) :
    (afterOpening s t).faults = t.faults := by
  unfold afterOpening
  split_ifs <;> rfl

@[simp] theorem executed_afterOpening (s : Session) (t : Store) :
    (afterOpening s t).executed = t.executed := by
  unfold afterOpening
  split_ifs <;> rfl

@[simp] theorem latency_afterOpening (s : Session) (t : Store) :
    (afterOpening s t).latency = t.latency := by
  unfold afterOpening
  split_ifs <;> rfl

@[simp] theorem isFatal_afterOpening (s : Session) (t : Store) (sql : String) :
    (afterOpening s t).isFatal sql = t.isFatal sql := by
  unfold afterOpening
  split_ifs <;> rfl

@[simp] theorem taken_afterOpening (s : Session) (t : Store) (k : Nat) :
    taken (afterOpening s t) k = taken t k := by
  unfold taken
  rw [faults_afterOpening]

/-- The refusals that are met while a connection that could not be opened at the beginning is opened
again. The one at the beginning is not among them. -/
def openingRefusals (s : Session) (t : Store) : Nat := if s.connected then 0 else t.refusals - 1

/-- An attempt that finds the session not connected is lost. -/
theorem leads_miss {retries id : Nat} (hr : 0 < retries) (hfatal : t.isFatal sql = false) :
    Leads pauses ⟨now, { sql, retries, stage := .ready }, ⟨id, false, false⟩, t⟩
      ⟨now, { sql, retries, stage := .linking }, ⟨id, false, false⟩, t⟩ := by
  let fault := Query.onFault pauses now { sql, retries, stage := .ready } Fault.noConnection
    ⟨id, false, false⟩ t
  have hissue : Query.step? pauses now { sql, retries, stage := .ready } ⟨id, false, false⟩ t =
      some (fault.1, { fault.2 with notes := .executing id 0 sql :: fault.2.notes }) := by
    simp [Query.step?, Query.issue, hr, hfatal, fault]
  exact leads_step hissue

/-- A query gets its session connected, if that takes an attempt. -/
theorem leads_opening {retries : Nat} (hs : s.Agrees) (hr : 0 < retries)
    (hfatal : t.isFatal sql = false) :
    Leads pauses ⟨now, { sql, retries }, s, t⟩
      ⟨now + pauses.reconnect * openingRefusals s t,
        { sql, retries, attempt := misses s t, stage := .ready }, s.up, afterOpening s t⟩ := by
  obtain ⟨id, linked, connected⟩ := s
  obtain rfl : linked = connected := hs
  cases linked with
  | true => exact leads_step (e := ⟨⟨id, true, true⟩, t, []⟩) rfl
  | false =>
    cases hrefusals : t.refusals with
    | zero =>
      have hlink : Session.connect ⟨id, false, false⟩ t =
          ⟨⟨id, true, true⟩, relinked t, [.connected]⟩ := by
        simp [Session.connect, Store.link, hrefusals, relinked]
      have hopen : Leads pauses ⟨now, { sql, retries }, ⟨id, false, false⟩, t⟩
          ⟨now, { sql, retries, stage := .ready }, ⟨id, true, true⟩, relinked t⟩ :=
        leads_step (e := ⟨⟨id, true, true⟩, relinked t, [.connected]⟩)
          (by simp [Query.step?, Session.ensure, hlink])
      simpa [misses, openingRefusals, afterOpening, hrefusals, Session.up] using hopen
    | succ n =>
      let t' : Store := { t with refusals := n }
      have hlink : Session.connect ⟨id, false, false⟩ t =
          ⟨⟨id, false, false⟩, t', [.connectFailed Fault.refused]⟩ := by
        simp [Session.connect, Store.link, hrefusals, t']
      have hopen : Leads pauses ⟨now, { sql, retries }, ⟨id, false, false⟩, t⟩
          ⟨now, { sql, retries, stage := .ready }, ⟨id, false, false⟩, t'⟩ :=
        leads_step (e := ⟨⟨id, false, false⟩, t', [.connectFailed Fault.refused]⟩)
          (by simp [Query.step?, Session.ensure, hlink])
      have hfatal' : t'.isFatal sql = false := hfatal
      have hagain := (hopen.trans (leads_miss hr hfatal')).trans
        (leads_link pauses now { sql, retries } ⟨id, false, false⟩ t')
      have hmisses : misses ⟨id, false, false⟩ t = 1 := by simp [misses, hrefusals]
      have hopening : openingRefusals ⟨id, false, false⟩ t = n := by
        simp [openingRefusals, hrefusals]
      rw [hmisses, hopening]
      exact hagain

variable (pauses now) in
/-- The course of a whole query. -/
theorem leads_query {retries : Nat} (hs : s.Agrees) (hr : 0 < retries)
    (hfatal : t.isFatal sql = false) :
    ∃ attempt, Leads pauses ⟨now, { sql, retries }, s, t⟩
      ⟨now + pauses.reconnect * openingRefusals s t +
          duration pauses (afterOpening s t) (retries - misses s t),
        { sql, retries, attempt, stage := .finished (t.faults.length < retries - misses s t) },
        s.up, attempted (afterOpening s t) s.id sql (retries - misses s t)⟩ := by
  have hfatal' : (afterOpening s t).isFatal sql = false := by rwa [isFatal_afterOpening]
  have hleft : misses s t + (retries - misses s t) = retries := by
    unfold misses
    split_ifs <;> omega
  obtain ⟨attempt, hattempts⟩ := leads_attempts pauses
    (now + pauses.reconnect * openingRefusals s t) s.id hleft hfatal'
  rw [faults_afterOpening] at hattempts
  exact ⟨attempt, (leads_opening hs hr hfatal).trans hattempts⟩

/-! ## Queries on a bench -/

namespace Bench

variable {b : Bench} {place : Nat} {m m' : Moment}

/-- The bench while a query is under way. -/
def during (b : Bench) (place : Nat) (m : Moment) (notes : List Note) : Bench :=
  { b with
    now := m.now, store := m.store, sessions := b.sessions.set place m.session
    query := some (place, m.query), notes }

theorem step?_during (hplace : place < b.sessions.length) (m : Moment) (notes : List Note) :
    Bench.step? (b.during place m notes) =
      (m.query.step? b.pauses m.now m.session m.store).map fun (q, e) =>
        b.during place ⟨m.now, q, e.session, e.store⟩ (e.notes.reverse ++ notes) := by
  unfold Bench.step? during
  simp only [Option.bind_eq_bind, Option.bind_some, List.getElem?_set_self hplace]
  cases m.query.step? b.pauses m.now m.session m.store with
  | none => rfl
  | some x => simp [update]

theorem finish_next (hplace : place < b.sessions.length) (h : Next b.pauses m m')
    (notes : List Note) :
    ∃ notes', ∀ fuel, Timed.finish (fun _ : Bench => false) (fuel + 1) (b.during place m notes) =
      Timed.finish (fun _ : Bench => false) fuel (b.during place m' notes') := by
  have hstep := step?_during hplace m notes
  cases h with
  | @step q e hq =>
    rw [hq] at hstep
    refine ⟨e.notes.reverse ++ notes, fun fuel => ?_⟩
    have htimed : Timed.step? (b.during place m notes) = _ := hstep
    rw [Timed.finish, htimed]
    rfl
  | @wait due hq hwake =>
    rw [hq] at hstep
    refine ⟨notes, fun fuel => ?_⟩
    have htimed : Timed.step? (b.during place m notes) = _ := hstep
    have hdue : Timed.wake? (b.during place m notes) = some due := hwake
    rw [Timed.finish, htimed, hdue]
    rfl

theorem finish_leads (hplace : place < b.sessions.length) (h : Leads b.pauses m m')
    (notes : List Note) :
    ∃ n notes', ∀ fuel,
      Timed.finish (fun _ : Bench => false) (fuel + n) (b.during place m notes) =
        Timed.finish (fun _ : Bench => false) fuel (b.during place m' notes') := by
  induction h with
  | refl => exact ⟨0, notes, fun _ => rfl⟩
  | tail _ hnext ih =>
    obtain ⟨n, notes₁, hn⟩ := ih
    obtain ⟨notes₂, hlast⟩ := finish_next hplace hnext notes₁
    refine ⟨n + 1, notes₂, fun fuel => ?_⟩
    rw [Nat.add_comm n 1, ← Nat.add_assoc, hn, hlast]

/-- A query that has finished makes no steps. -/
theorem finish_finished (hplace : place < b.sessions.length) {ok : Bool}
    (hstage : m.query.stage = .finished ok) (notes : List Note) (fuel : Nat) :
    Timed.finish (fun _ : Bench => false) fuel (b.during place m notes) =
      b.during place m notes := by
  cases fuel with
  | zero => rfl
  | succ fuel =>
    have hq : m.query.step? b.pauses m.now m.session m.store = none := by
      unfold Query.step?
      rw [hstage]
    have hstep : Timed.step? (b.during place m notes) = none := by
      refine (step?_during hplace m notes).trans ?_
      rw [hq]
      rfl
    have hwake : Timed.wake? (b.during place m notes) = none := by
      show m.query.wake? = none
      unfold Query.wake?
      rw [hstage]
    rw [Timed.finish, hstep, hwake]
    rfl

end Bench

/-- The attempts that get to the store. -/
def reaching (s : Session) (t : Store) (retries : Nat) : Nat :=
  min (t.faults.length + 1) (retries - misses s t)

/-- The refusals that a query meets, but for the one at its beginning. -/
def refusedAgain (s : Session) (t : Store) (retries : Nat) : Nat :=
  if s.connected then refused t retries else t.refusals - 1

/-- How a statement that is tried a number of times in a session ends. -/
structure Settles (b : Bench) (place : Nat) (s : Session) (retries : Nat) (sql : String)
    (ok : Bool) (b' : Bench) : Prop where
  ok_iff : ok = true ↔ b.store.faults.length < retries - misses s b.store
  recorded : ok = true →
    b'.store.executed = b.store.executed ++ [⟨s.id, sql⟩] ∧ b'.store.faults = []
  dropped : ok = false →
    b'.store.executed = b.store.executed ∧
      b.store.faults = taken b.store (retries - misses s b.store) ++ b'.store.faults ∧
      (taken b.store (retries - misses s b.store)).length = retries - misses s b.store
  sessions_eq : b'.sessions = b.sessions.set place s.up
  now_eq : b'.now = b.now +
    (b.store.latency * reaching s b.store retries +
      b.pauses.deadlock *
        (taken b.store (retries - misses s b.store)).countP Fault.isDeadlock +
      b.pauses.reconnect * refusedAgain s b.store retries)
  /-- Every attempt that gets to the store takes a fault or is recorded. -/
  reaching_eq : reaching s b.store retries + b'.store.faults.length + b.store.executed.length =
    b.store.faults.length + b'.store.executed.length
  refusals_eq : misses s b.store + refusedAgain s b.store retries + b'.store.refusals =
    b.store.refusals

/-- What a session that is not connected has waited for is among the refusals it meets. -/
theorem refusedAgain_eq (s : Session) (t : Store) (retries : Nat) :
    refusedAgain s t retries =
      openingRefusals s t + refused (afterOpening s t) (retries - misses s t) := by
  unfold refusedAgain openingRefusals afterOpening misses refused
  cases s.connected with
  | true => simp
  | false => simp [relinked]

theorem refused_le (t : Store) (k : Nat) : refused t k ≤ t.refusals := by
  unfold refused
  split_ifs
  · exact Nat.le_refl _
  · exact Nat.zero_le _

/-- The refusals that are met at the beginning are those that are not left then. -/
theorem refusals_afterOpening (s : Session) (t : Store) :
    misses s t + openingRefusals s t + (afterOpening s t).refusals = t.refusals := by
  unfold misses openingRefusals afterOpening
  cases s.connected with
  | true => simp
  | false =>
    simp only [Bool.false_eq_true, if_false, true_and, relinked]
    split_ifs <;> omega

/-- What comes out of a query, put together from what its attempts do. -/
theorem settles_attempted {b b' : Bench} {place retries : Nat} {s : Session} {ok : Bool}
    (hok : ok = decide (b.store.faults.length < retries - misses s b.store))
    (hsessions : b'.sessions = b.sessions.set place s.up)
    (hstore : b'.store =
      attempted (afterOpening s b.store) s.id sql (retries - misses s b.store))
    (hnow : b'.now = b.now + b.pauses.reconnect * openingRefusals s b.store +
      duration b.pauses (afterOpening s b.store) (retries - misses s b.store)) :
    Settles b place s retries sql ok b' := by
  have hagain := refusedAgain_eq s b.store retries
  have hopening := refusals_afterOpening s b.store
  have hrefusals := refused_le (afterOpening s b.store) (retries - misses s b.store)
  generalize hk : retries - misses s b.store = k at hok hstore hnow hagain hrefusals
  subst hok
  constructor
  · rw [decide_eq_true_iff, hk]
  · intro hlt
    have hlt := of_decide_eq_true hlt
    rw [hstore]
    simp [attempted, hlt, List.drop_eq_nil_of_le (Nat.le_of_lt hlt)]
  · intro hge
    have hge := Nat.le_of_not_lt (of_decide_eq_false hge)
    rw [hstore, hk]
    simp [attempted, taken, Nat.not_lt.2 hge, Nat.min_eq_left hge]
  · exact hsessions
  · rw [hnow, hagain, hk]
    unfold duration reaching
    rw [taken_afterOpening, faults_afterOpening, latency_afterOpening, hk, Nat.mul_add]
    omega
  · unfold reaching
    rw [hstore, hk]
    by_cases hlt : b.store.faults.length < k
    · simp [attempted, hlt]
      omega
    · simp [attempted, hlt]
      omega
  · rw [hstore, hagain]
    simp only [attempted]
    omega

/-- Whatever goes wrong, a query comes to its end, and what it does is told by the script of the
store: it succeeds exactly when fewer faults are due than it has attempts, one of which is lost when
the session could not be connected at the beginning. -/
theorem Bench.run_settles {b : Bench} {place retries : Nat} {s : Session} {sql : String}
    (hplace : b.sessions[place]? = some s) (hs : s.Reached) (hr : 0 < retries)
    (hfatal : b.store.isFatal sql = false) :
    ∃ n, ∀ fuel ≥ n,
      Settles b place s retries sql (b.run fuel place retries sql).1
        (b.run fuel place retries sql).2 := by
  obtain ⟨hlt, hget⟩ := List.getElem?_eq_some_iff.1 hplace
  obtain ⟨attempt, hleads⟩ := leads_query b.pauses b.now hs.agrees hr hfatal
  obtain ⟨n, notes, hfinish⟩ := finish_leads (b := b) hlt hleads b.notes
  have hstart : b.during place ⟨b.now, { sql, retries }, s, b.store⟩ b.notes =
      { b with query := some (place, { sql, retries }) } := by
    subst hget
    simp [during]
  refine ⟨n, fun fuel hfuel => ?_⟩
  have hend := hfinish (fuel - n)
  rw [Nat.sub_add_cancel hfuel, hstart, finish_finished hlt rfl] at hend
  unfold Bench.run
  dsimp only
  rw [hend]
  exact settles_attempted rfl rfl rfl rfl

/-- A store that refuses two connections, and then ends one statement as a deadlock, another with
its connection, and a third one with an error. -/
def roughStore : Store :=
  { faults := [.deadlock "", Fault.noConnection, .statement none ""], refusals := 2, latency := 3 }

/-- With five attempts, of which the first one is lost, a statement is recorded, after one pause for
each of the refusals but the first. -/
theorem Bench.run_settles_sample :
    let b := Bench.start ⟨1000, 150⟩ roughStore
    ∃ fuel, (b.run fuel 0 5 "x").1 = true ∧
      Settles b 0 (openSession roughStore).1 5 "x" (b.run fuel 0 5 "x").1
        (b.run fuel 0 5 "x").2 := by
  intro b
  obtain ⟨n, hn⟩ : ∃ n, ∀ fuel ≥ n, Settles b 0 (openSession roughStore).1 5 "x"
      (b.run fuel 0 5 "x").1 (b.run fuel 0 5 "x").2 :=
    Bench.run_settles rfl (.open_ roughStore) (by decide) rfl
  have hsettles := hn n (Nat.le_refl n)
  exact ⟨n, hsettles.ok_iff.2 (by decide), hsettles⟩

end BmpFeed.Store
