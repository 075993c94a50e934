import BmpFeed.Proofs.Writer.Run

/-!
# The steps of a writer

`Move` lists what one step of a writer can do, with the event that shows it; `move_of_step?` says
that there is nothing else. What follows about writers is read off this list.
-/

namespace BmpFeed

/-! ## Queries -/

namespace Store.Query

variable {pauses : Writer.Pauses} {now : Nat} {q q' : Query} {s : Session} {t : Store}
  {e : Exchange}

theorem sql_onFault (f : Fault) : (q.onFault pauses now f s t).1.sql = q.sql := by
  cases f <;> rfl

theorem stage_onFault (f : Fault) :
    (q.onFault pauses now f s t).1.stage ≠ .opening ∧
      ∀ ok, (q.onFault pauses now f s t).1.stage ≠ .finished ok := by
  cases f <;> simp [onFault, retry]

/-- A step that neither begins a query nor has its statement run keeps the statement. -/
theorem step?_progress (h : q.step? pauses now s t = some (q', e)) (hopen : q.stage ≠ .opening)
    (hrun : ∀ due, q.stage = .executing due → (t.run s.id q.sql).1 ≠ none) :
    q'.sql = q.sql ∧ q'.stage ≠ .opening ∧ q'.stage ≠ .finished true := by
  unfold step? at h
  cases hstage : q.stage with
  | opening => exact absurd hstage hopen
  | ready =>
    simp only [hstage, Option.some.injEq] at h
    obtain rfl : (q.issue pauses now s t).1 = q' := by rw [h]
    unfold issue
    split_ifs
    · exact ⟨rfl, by simp, by simp⟩
    · exact ⟨rfl, by simp, by simp⟩
    · exact ⟨sql_onFault _, (stage_onFault _).1, (stage_onFault _).2 true⟩
    · exact ⟨rfl, by simp, by simp⟩
  | executing due =>
    simp only [hstage, Option.ite_none_right_eq_some, Option.some.injEq] at h
    obtain rfl : (q.answered pauses now s t).1 = q' := by rw [h.2]
    unfold answered
    split
    · rename_i heq
      exact absurd (by rw [heq]) (hrun due hstage)
    · exact ⟨sql_onFault _, (stage_onFault _).1, (stage_onFault _).2 true⟩
  | linking =>
    simp only [hstage, Option.some.injEq] at h
    obtain rfl : (q.relink pauses now s t).1 = q' := by rw [h]
    unfold relink retry
    dsimp only
    split_ifs <;> exact ⟨rfl, by simp, by simp⟩
  | pausing due | resting due =>
    simp only [hstage, Option.ite_none_right_eq_some, Option.some.injEq] at h
    obtain rfl : _ = q' := congrArg Prod.fst h.2
    exact ⟨rfl, by simp, by simp⟩
  | finished ok => simp [hstage] at h
  | crashed => simp [hstage] at h

theorem step?_opening (h : q.step? pauses now s t = some (q', e)) (hstage : q.stage = .opening) :
    q' = { q with stage := .ready } := by
  simp only [step?, hstage, Option.some.injEq] at h
  exact (congrArg Prod.fst h).symm

theorem step?_executed (h : q.step? pauses now s t = some (q', e)) {due : Nat}
    (hstage : q.stage = .executing due) (hrun : (t.run s.id q.sql).1 = none) :
    q' = { q with stage := .finished true } := by
  simp only [step?, hstage, Option.ite_none_right_eq_some, Option.some.injEq] at h
  obtain rfl : (q.answered pauses now s t).1 = q' := by rw [h.2]
  unfold answered
  split
  · rfl
  · rename_i heq
    rw [heq] at hrun
    exact absurd hrun (by simp)

end Store.Query

/-! ## Writers -/

namespace Writer

/-- What a step of a writer can do, and the events that show it. -/
inductive Move (now : Nat) (w : Writer) (t : Store) : List Event → Writer → Prop
  | start (session : Store.Session) {rest : List Duty} (h : w.duties = .start :: rest) :
      Move now w t [] { w with session, duties := rest }
  /-- Takes a request out of the queue. -/
  | take {r : Request} {queue : List Request} (h : w.duties = []) (hq : w.queue = r :: queue) :
      Move now w t [.took r] (({ w with queue } : Writer).accept r).1
  /-- Finds the queue empty and closed. -/
  | finish (h : w.duties = []) (hq : w.queue = []) (hc : w.closing = true) :
      Move now w t [] { w with duties := [.flush, .leave] }
  /-- Finds the queue empty when the window ends. -/
  | expire (h : w.duties = []) (hq : w.queue = []) (hc : w.closing = false)
      (hd : w.deadline ≤ now) : Move now w t [] { w with duties := [.review] }
  /-- Begins a query. -/
  | ask (session : Store.Session) {q : Store.Query} {rest : List Duty}
      (h : w.duties = .run q :: rest) (hs : q.stage = .opening) :
      Move now w t [.queried q.sql q.retries]
        { w with session, duties := .run { q with stage := .ready } :: rest }
  /-- Goes on with a query whose statement is not run in this step. -/
  | progress (session : Store.Session) {q q' : Store.Query} {rest : List Duty}
      (h : w.duties = .run q :: rest) (hs : q.stage ≠ .opening) (hf : ∀ ok, q.stage ≠ .finished ok)
      (hsql : q'.sql = q.sql) (hs' : q'.stage ≠ .opening) (hf' : q'.stage ≠ .finished true) :
      Move now w t [] { w with session, duties := .run q' :: rest }
  /-- Has its statement run by the store. -/
  | ran (session : Store.Session) {q : Store.Query} {rest : List Duty} {due : Nat}
      (h : w.duties = .run q :: rest) (hs : q.stage = .executing due) :
      Move now w t [.executed q.sql]
        { w with session, duties := .run { q with stage := .finished true } :: rest }
  /-- Ends a query. -/
  | answer {q : Store.Query} {rest : List Duty} {ok : Bool} (h : w.duties = .run q :: rest)
      (hs : q.stage = .finished ok) :
      Move now w t (if ok then [] else [.dropped q.sql]) { w with duties := rest }
  | die {q : Store.Query} {rest : List Duty} (h : w.duties = .run q :: rest)
      (hs : q.stage = .crashed) :
      Move now w t [.died] { w with phase := .crashed, queue := [], batch := {}, duties := [] }
  /-- Has nothing to write. -/
  | skip {rest : List Duty} (h : w.duties = .flush :: rest) (hb : w.batch.isEmpty = true) :
      Move now w t [] { w with lastFlush := now, duties := rest }
  /-- Turns the batch into statements. -/
  | write {rest : List Duty} (h : w.duties = .flush :: rest) (hb : w.batch.isEmpty = false) :
      Move now w t [.flushed w.batch]
        { w with
          lastFlush := now, batch := {}
          duties := (w.batch.statements.map fun sql =>
            Duty.run { sql, retries := w.policy.retries }) ++ .flushed w.batch.size :: rest }
  | written {n : Nat} {rest : List Duty} (h : w.duties = .flushed n :: rest) :
      Move now w t [] { w with duties := rest }
  | review {rest : List Duty} (h : w.duties = .review :: rest) :
      Move now w t [] { w with duties := if w.isDue now then .flush :: rest else rest }
  | leave {rest : List Duty} (h : w.duties = .leave :: rest) :
      Move now w t [] { w with session := w.session.disconnect, duties := [], phase := .gone }

variable {now : Nat} {w : Writer} {t : Store} {turn : Turn}

theorem move_of_look? {notes : List Note} {w' : Writer} (hd : w.duties = [])
    (h : w.look? now = some (w', notes)) : Move now w t (w.events t) w' := by
  have hev : w.events t = (w.queue.head?.map Event.took).toList := by
    unfold events
    rw [hd]
  rw [hev]
  cases hq : w.queue with
  | cons r queue =>
    unfold look? at h
    simp only [hq, Option.some.injEq] at h
    obtain rfl := congrArg Prod.fst h
    exact .take hd hq
  | nil =>
    unfold look? at h
    simp only [hq] at h
    split_ifs at h with hc hdl
    · obtain rfl := congrArg Prod.fst (Option.some.inj h)
      have hmove : Move now w t [] { w with duties := [.flush, .leave] } := .finish hd hq hc
      simpa [hq] using hmove
    · obtain rfl := congrArg Prod.fst (Option.some.inj h)
      have hmove : Move now w t [] { w with duties := [.review] } :=
        .expire hd hq (by simpa using hc) hdl
      simpa [hq] using hmove

theorem move_of_runStep? {q : Store.Query} {rest : List Duty} (hd : w.duties = .run q :: rest)
    (h : w.runStep? now q rest t = some turn) : Move now w t (w.queryEvents q t) turn.writer := by
  unfold runStep? at h
  unfold queryEvents
  cases hstage : q.stage with
  | finished ok =>
    simp only [hstage, Option.some.injEq] at h
    subst h
    exact .answer hd hstage
  | crashed =>
    simp only [hstage, Option.some.injEq] at h
    subst h
    exact .die hd hstage
  | opening =>
    simp only [hstage, Option.map_eq_some_iff] at h
    obtain ⟨⟨q', e⟩, hstep, rfl⟩ := h
    obtain rfl := Store.Query.step?_opening hstep hstage
    exact .ask e.session hd hstage
  | executing due =>
    simp only [hstage, Option.map_eq_some_iff] at h
    obtain ⟨⟨q', e⟩, hstep, rfl⟩ := h
    by_cases hrun : (t.run w.session.id q.sql).1 = none
    · obtain rfl := Store.Query.step?_executed hstep hstage hrun
      simpa only [if_pos hrun] using .ran e.session hd hstage
    · obtain ⟨hsql, hopen, hfin⟩ :=
        Store.Query.step?_progress hstep (by simp [hstage]) fun _ _ => hrun
      simpa only [if_neg hrun] using
        .progress e.session hd (by simp [hstage]) (by simp [hstage]) hsql hopen hfin
  | ready | linking | pausing _ | resting _ =>
    simp only [hstage, Option.map_eq_some_iff] at h
    obtain ⟨⟨q', e⟩, hstep, rfl⟩ := h
    obtain ⟨hsql, hopen, hfin⟩ :=
      Store.Query.step?_progress hstep (by simp [hstage]) (by simp [hstage])
    exact .progress e.session hd (by simp [hstage]) (by simp [hstage]) hsql hopen hfin

theorem move_flush {rest : List Duty} (hd : w.duties = .flush :: rest) :
    Move now w t (if w.batch.isEmpty then [] else [.flushed w.batch]) (w.flush now rest) := by
  unfold flush
  dsimp only
  split_ifs with hb
  · exact .skip hd hb
  · exact .write hd (by simpa using hb)

/-- Every step of a writer is a move. -/
theorem move_of_step? (h : w.step? now t = some turn) : Move now w t (w.events t) turn.writer := by
  unfold step? at h
  by_cases hc : w.isClosed = true
  · rw [if_pos hc] at h
    exact absurd h (by simp)
  rw [if_neg hc] at h
  cases hd : w.duties with
  | nil =>
    simp only [hd, Option.map_eq_some_iff] at h
    obtain ⟨⟨w', notes⟩, hlook, rfl⟩ := h
    exact move_of_look? hd hlook
  | cons d rest =>
    unfold events
    cases d <;> simp only [hd, Option.some.injEq] at h ⊢
    case run q => exact move_of_runStep? hd h
    case start => subst h; exact .start _ hd
    case flushed n => subst h; exact .written hd
    case review => subst h; exact .review hd
    case leave => subst h; exact .leave hd
    case flush => subst h; exact move_flush hd

theorem accept_frame (w : Writer) (r : Request) :
    (w.accept r).1.id = w.id ∧ (w.accept r).1.closing = w.closing := by
  unfold accept
  dsimp only
  split_ifs <;> exact ⟨rfl, rfl⟩

theorem accept_phase (w : Writer) (r : Request) : (w.accept r).1.phase = w.phase := by
  unfold accept
  dsimp only
  split_ifs <;> rfl

theorem no_leave_accept (w : Writer) (r : Request) : .leave ∉ (w.accept r).1.duties := by
  unfold accept
  dsimp only
  split_ifs <;> simp

/-- A step changes neither the number of a writer nor whether its queue is closed. -/
theorem Move.frame {es : List Event} {w' : Writer} (m : Move now w t es w') :
    w'.id = w.id ∧ w'.closing = w.closing := by
  cases m with
  | take hd hq => exact accept_frame _ _
  | _ => exact ⟨rfl, rfl⟩

/-- A step is shown by one event at most. -/
theorem Move.length_le {es : List Event} {w' : Writer} (m : Move now w t es w') :
    es.length ≤ 1 := by
  cases m with
  | @answer q rest ok hd hs => cases ok <;> simp
  | _ => simp

/-- A writer puts nothing into its own queue. -/
theorem Move.accepted_eq {es : List Event} {w' : Writer} (m : Move now w t es w') :
    accepted es = [] := by
  cases m with
  | @answer q rest ok hd hs => cases ok <;> rfl
  | _ => rfl

/-- A queue takes a request if somebody reads it and it has room. -/
theorem send?_spec {r : Request} {w' : Writer} (h : w.send? r = some w') :
    w.phase = .working ∧ w.queue.length < w.capacity ∧
      w' = { w with queue := w.queue ++ [r] } := by
  unfold send? at h
  split_ifs at h with hrefused
  obtain ⟨hopen, hroom⟩ := not_or.1 hrefused
  exact ⟨by simpa [isClosed] using hopen, Nat.lt_of_not_le hroom, (Option.some.inj h).symm⟩

theorem send?_frame {r : Request} {w' : Writer} (h : w.send? r = some w') :
    w'.id = w.id ∧ w'.closing = w.closing := by
  obtain ⟨-, -, rfl⟩ := send?_spec h
  exact ⟨rfl, rfl⟩

theorem working_of_step? (h : w.step? now t = some turn) : w.phase = .working := by
  unfold step? at h
  by_contra hphase
  have hc : w.isClosed = true := by simpa [isClosed] using hphase
  rw [if_pos hc] at h
  exact absurd h (by simp)

end Writer

end BmpFeed
