import BmpFeed.Proofs.Writer.Step
import BmpFeed.Settings.Check
import BmpFeed.Writer.Bench
import Mathlib.Algebra.GroupWithZero.Nat

/-!
# Idle writers

A writer whose queue stays empty wakes up when its window ends, flushes and waits again. So its idle
looks at the queue are a window apart, and within one moment it comes to rest; neither holds for a
window of no length, which the check of settings lets pass (`idles_iff`).
-/

namespace BmpFeed

/-! ## Queries within one moment -/

namespace Store.Query

variable {pauses : Writer.Pauses} {now : Nat} {q q' : Query} {s : Session} {t : Store}
  {e : Exchange}

/-- The attempts that are left. -/
def left (q : Query) : Nat := q.retries - q.attempt

/-- The steps that a query can make before it has to wait or has finished are no more than this. -/
def rank (now : Nat) (q : Query) : Nat :=
  match q.stage with
  | .opening => 4 * q.left + 2
  | .ready => 4 * q.left + 1
  | .executing due | .pausing due => if due ≤ now then max (4 * q.left) 3 else 0
  | .linking => max (4 * q.left - 1) 2
  | .resting due => if due ≤ now then 4 * q.left + 2 else 0
  | .finished _ | .crashed => 0

theorem rank_onFault_lt (hdeadlock : 0 < pauses.deadlock) (f : Fault) :
    (q.onFault pauses now f s t).1.rank now < max (4 * q.left) 3 := by
  have hleft : q.retries - (q.attempt + 1) = q.left - 1 := Nat.sub_add_eq ..
  cases f with
  | connection m =>
    show max (4 * q.left - 1) 2 < _
    omega
  | deadlock m =>
    have hlate : ¬now + pauses.deadlock ≤ now := by omega
    show (if now + pauses.deadlock ≤ now then _ else 0) < _
    rw [if_neg hlate]
    omega
  | statement code m =>
    show 4 * (q.retries - (q.attempt + 1)) + 1 < _
    omega

theorem rank_issue_lt (hdeadlock : 0 < pauses.deadlock) :
    (q.issue pauses now s t).1.rank now < 4 * q.left + 1 := by
  unfold issue
  split_ifs with hleft hfatal hlinked
  · exact Nat.succ_pos _
  · show (if now + t.latency ≤ now then max (4 * q.left) 3 else 0) < _
    unfold left
    split_ifs <;> omega
  · have hlt : (q.onFault pauses now .noConnection s t).1.rank now < max (4 * q.left) 3 :=
      rank_onFault_lt hdeadlock _
    unfold left at hlt ⊢
    dsimp only
    omega
  · exact Nat.succ_pos _

theorem rank_relink_lt (hreconnect : 0 < pauses.reconnect) :
    (q.relink pauses now s t).1.rank now < max (4 * q.left - 1) 2 := by
  have hleft : q.retries - (q.attempt + 1) = q.left - 1 := Nat.sub_add_eq ..
  unfold relink
  dsimp only
  split_ifs with hconnected
  · show 4 * (q.retries - (q.attempt + 1)) + 1 < _
    omega
  · have hlate : ¬now + pauses.reconnect ≤ now := by omega
    show (if now + pauses.reconnect ≤ now then _ else 0) < _
    rw [if_neg hlate]
    omega

theorem rank_lt_of_step? (hreconnect : 0 < pauses.reconnect) (hdeadlock : 0 < pauses.deadlock)
    (h : q.step? pauses now s t = some (q', e)) : q'.rank now < q.rank now := by
  unfold step? at h
  cases hstage : q.stage with
  | opening =>
    simp only [hstage, Option.some.injEq] at h
    obtain rfl := congrArg Prod.fst h
    simp only [rank, hstage]
    exact Nat.lt_succ_self _
  | ready =>
    simp only [hstage, Option.some.injEq] at h
    obtain rfl : (q.issue pauses now s t).1 = q' := by rw [h]
    simpa only [rank, hstage] using rank_issue_lt hdeadlock
  | executing due =>
    simp only [hstage, Option.ite_none_right_eq_some, Option.some.injEq] at h
    obtain ⟨hdue, h⟩ := h
    obtain rfl : (q.answered pauses now s t).1 = q' := by rw [h]
    have hrank : q.rank now = max (4 * q.left) 3 := by simp only [rank, hstage, if_pos hdue]
    rw [hrank]
    unfold answered
    split
    · exact Nat.lt_of_lt_of_le (by decide : 0 < 3) (Nat.le_max_right _ _)
    · exact rank_onFault_lt hdeadlock _
  | linking =>
    simp only [hstage, Option.some.injEq] at h
    obtain rfl : (q.relink pauses now s t).1 = q' := by rw [h]
    simpa only [rank, hstage] using rank_relink_lt hreconnect
  | pausing due =>
    simp only [hstage, Option.ite_none_right_eq_some, Option.some.injEq] at h
    obtain ⟨hdue, h⟩ := h
    obtain rfl := congrArg Prod.fst h
    simp only [rank, hstage, if_pos hdue, left]
    omega
  | resting due =>
    simp only [hstage, Option.ite_none_right_eq_some, Option.some.injEq] at h
    obtain ⟨hdue, h⟩ := h
    obtain rfl := congrArg Prod.fst h
    simp only [rank, hstage, if_pos hdue]
    exact Nat.lt_succ_self _
  | finished ok => simp [hstage] at h
  | crashed => simp [hstage] at h

end Store.Query

namespace Writer

variable {policy : Policy} {capacity now now' : Nat} {times : List Nat} {es : List Event}
  {w w' : Writer} {t : Store} {turn : Turn}

/-! ## Rest -/

def Duty.load (now : Nat) : Duty → Nat
  | .run q => q.rank now + 1
  | .review => 2
  | .start | .flush | .flushed _ | .leave => 1

def load (now : Nat) (ds : List Duty) : Nat := (ds.map (Duty.load now)).sum

/-- What a flush would bring. -/
def batchLoad (now : Nat) (policy : Policy) (b : Batch) : Nat :=
  if b.isEmpty then 0
  else load now (b.statements.map fun sql => .run { sql, retries := policy.retries }) + 1

/-- The writer is yet to find that its window has ended. -/
def mayExpire (now : Nat) (w : Writer) : Prop :=
  w.phase = .working ∧ w.deadline ≤ now ∧ .flush ∉ w.duties ∧ .review ∉ w.duties

/-- The writer is yet to find its queue closed. -/
def mayLeave (w : Writer) : Prop := w.phase = .working ∧ w.closing = true ∧ .leave ∉ w.duties

instance (now : Nat) (w : Writer) : Decidable (w.mayExpire now) :=
  inferInstanceAs (Decidable (_ ∧ _))

instance (w : Writer) : Decidable w.mayLeave := inferInstanceAs (Decidable (_ ∧ _))

/-- Room for the duties of a writer that finds something out. -/
def news (p : Prop) [Decidable p] : Nat := if p then 3 else 0

/-- The steps that a writer with an empty queue can make before it has to wait are no more than
this. -/
def burden (now : Nat) (w : Writer) : Nat :=
  load now w.duties + batchLoad now w.policy w.batch + news (w.mayExpire now) + news w.mayLeave

theorem news_le {p p' : Prop} [Decidable p] [Decidable p'] (h : p → p') : news p ≤ news p' := by
  unfold news
  split_ifs with hp hp'
  · exact Nat.le_refl 3
  · exact absurd (h hp) hp'
  · exact Nat.zero_le 3
  · exact Nat.le_refl 0

/-- A writer that keeps its duty to leave is yet to find its queue closed only if it was before. -/
theorem news_mayLeave_le (hphase : w'.phase = w.phase) (hclosing : w'.closing = w.closing)
    (hleave : .leave ∈ w.duties → .leave ∈ w'.duties) : news w'.mayLeave ≤ news w.mayLeave := by
  refine news_le fun ⟨hworking, hshut, hnone⟩ => ⟨hphase ▸ hworking, hclosing ▸ hshut, ?_⟩
  exact fun hmem => hnone (hleave hmem)

theorem news_of {p : Prop} [Decidable p] (h : p) : news p = 3 := if_pos h

theorem news_of_not {p : Prop} [Decidable p] (h : ¬p) : news p = 0 := if_neg h

theorem load_cons (now : Nat) (d : Duty) (ds : List Duty) :
    load now (d :: ds) = d.load now + load now ds := rfl

theorem load_append (now : Nat) (ds ds' : List Duty) :
    load now (ds ++ ds') = load now ds + load now ds' := by
  simp [load]

theorem load_lt {d : Duty} {rest : List Duty} (hd : w.duties = d :: rest) :
    load now rest < load now w.duties := by
  rw [hd, load_cons]
  exact Nat.lt_add_of_pos_left (by cases d <;> exact Nat.succ_pos _)

/-- A step that takes load off the duties, and leaves the writer to find out no more than before. -/
theorem burden_lt {ds : List Duty} (session : Store.Session)
    (hload : load now ds < load now w.duties)
    (hreview : .flush ∈ w.duties ∨ .review ∈ w.duties → .flush ∈ ds ∨ .review ∈ ds)
    (hleave : .leave ∈ w.duties → .leave ∈ ds) :
    burden now { w with session, duties := ds } < burden now w := by
  have hexpire :
      news (mayExpire now { w with session, duties := ds }) ≤ news (w.mayExpire now) := by
    refine news_le fun ⟨hphase, hdue, hf, hr⟩ => ⟨hphase, hdue, fun h => ?_, fun h => ?_⟩
    · exact (hreview (.inl h)).elim hf hr
    · exact (hreview (.inr h)).elim hf hr
  have hgo : news (mayLeave { w with session, duties := ds }) ≤ news w.mayLeave :=
    news_mayLeave_le rfl rfl hleave
  show load now ds + batchLoad now w.policy w.batch + _ + _ < _
  unfold burden
  omega

/-- A step that ends the writer. -/
theorem burden_lt_of_ended {d : Duty} {rest : List Duty} {phase : Phase} {session : Store.Session}
    {batch : Batch} (queue : List Request) (hphase : phase ≠ .working)
    (hbatch : batchLoad now w.policy batch ≤ batchLoad now w.policy w.batch)
    (hd : w.duties = d :: rest) :
    burden now { w with phase, session, queue, batch, duties := [] } < burden now w := by
  have hexpire : news (mayExpire now { w with phase, session, queue, batch, duties := [] }) = 0 :=
    news_of_not fun h => hphase h.1
  have hleave : news (mayLeave { w with phase, session, queue, batch, duties := [] }) = 0 :=
    news_of_not fun h => hphase h.1
  have hload : load now rest < load now w.duties := load_lt hd
  unfold burden
  rw [hexpire, hleave]
  show 0 + batchLoad now w.policy batch + 0 + 0 < _
  omega

/-- The writer finds its queue closed. -/
theorem burden_finish_lt (hphase : w.phase = .working) (hd : w.duties = [])
    (hclosing : w.closing = true) :
    burden now { w with duties := [.flush, .leave] } < burden now w := by
  have hbefore : news w.mayLeave = 3 := news_of ⟨hphase, hclosing, by simp [hd]⟩
  have hexpire : news (mayExpire now { w with duties := [.flush, .leave] }) = 0 :=
    news_of_not fun h => h.2.2.1 List.mem_cons_self
  have hleave : news (mayLeave { w with duties := [.flush, .leave] }) = 0 :=
    news_of_not fun h => h.2.2 (List.mem_cons_of_mem _ List.mem_cons_self)
  unfold burden
  rw [hexpire, hleave, hbefore]
  show 2 + batchLoad now w.policy w.batch + 0 + 0 < _
  omega

/-- The writer finds that its window has ended. -/
theorem burden_expire_lt (hphase : w.phase = .working) (hd : w.duties = [])
    (hopen : w.closing = false) (hdue : w.deadline ≤ now) :
    burden now { w with duties := [.review] } < burden now w := by
  have hbefore : news (w.mayExpire now) = 3 := news_of ⟨hphase, hdue, by simp [hd], by simp [hd]⟩
  have hexpire : news (mayExpire now { w with duties := [.review] }) = 0 :=
    news_of_not fun h => h.2.2.2 List.mem_cons_self
  have hleave : news (mayLeave { w with duties := [.review] }) = 0 :=
    news_of_not fun h => Bool.false_ne_true (hopen.symm.trans h.2.1)
  unfold burden
  rw [hexpire, hleave, hbefore]
  show 2 + batchLoad now w.policy w.batch + 0 + 0 < _
  omega

theorem isDue_of_le (h : w.deadline ≤ now) : w.isDue now = true := by
  simp [isDue, h]

/-- A flush begins a window, and gives the writer what it would bring. -/
theorem burden_flush_lt {rest : List Duty} {batch : Batch} (runs : List Duty)
    (hwindow : 0 < w.policy.window) (hd : w.duties = .flush :: rest)
    (hleave : .leave ∈ w.duties → .leave ∈ runs ++ rest)
    (hload : load now runs + batchLoad now w.policy batch ≤ batchLoad now w.policy w.batch) :
    burden now { w with lastFlush := now, batch, duties := runs ++ rest } < burden now w := by
  have hexpire : news (mayExpire now { w with lastFlush := now, batch, duties := runs ++ rest }) =
      0 := by
    refine news_of_not fun h => ?_
    have hdue : now + w.policy.window ≤ now := h.2.1
    omega
  have hgo : news (mayLeave { w with lastFlush := now, batch, duties := runs ++ rest }) ≤
      news w.mayLeave :=
    news_mayLeave_le rfl rfl hleave
  have hrest : load now rest < load now w.duties := load_lt hd
  have happend := load_append now runs rest
  unfold burden
  rw [hexpire]
  show load now (runs ++ rest) + batchLoad now w.policy batch + 0 + _ < _
  omega

/-- The writer decides whether it is time to flush; when its window has ended it is. -/
theorem burden_review_lt {rest : List Duty} (hd : w.duties = .review :: rest) :
    burden now { w with duties := if w.isDue now then .flush :: rest else rest } <
      burden now w := by
  by_cases hdue : w.isDue now = true
  · rw [if_pos hdue]
    refine burden_lt w.session ?_ (fun _ => .inl List.mem_cons_self) (by simp [hd])
    rw [hd, load_cons, load_cons]
    exact Nat.add_lt_add_right Nat.one_lt_two _
  · rw [if_neg hdue]
    have hwindow : ¬w.deadline ≤ now := fun h => hdue (isDue_of_le h)
    have hexpire : news (mayExpire now { w with duties := rest }) = 0 :=
      news_of_not fun h => hwindow h.2.1
    have hgo : news (mayLeave { w with duties := rest }) ≤ news w.mayLeave :=
      news_mayLeave_le rfl rfl (by simp [hd])
    have hrest : load now rest < load now w.duties := load_lt hd
    unfold burden
    rw [hexpire]
    show load now rest + batchLoad now w.policy w.batch + 0 + _ < _
    omega

/-- A writer that goes on with a query has fewer steps of it before it. -/
theorem rank_lt_of_step? {q q' : Store.Query} {rest : List Duty} (h : w.step? now t = some turn)
    (hreconnect : 0 < w.policy.pauses.reconnect) (hdeadlock : 0 < w.policy.pauses.deadlock)
    (hd : w.duties = .run q :: rest) (hd' : turn.writer.duties = .run q' :: rest) :
    q'.rank now < q.rank now := by
  have hrun : w.runStep? now q rest t = some turn := by
    have hopen : ¬w.isClosed = true := by simp [isClosed, working_of_step? h]
    unfold step? at h
    rw [if_neg hopen] at h
    simpa only [hd] using h
  unfold runStep? at hrun
  split at hrun
  · obtain rfl := Option.some.inj hrun
    exact absurd hd'.symm (List.cons_ne_self _ _)
  · obtain rfl := Option.some.inj hrun
    exact absurd hd' (by simp)
  · obtain ⟨⟨q₁, e⟩, hstep, rfl⟩ := Option.map_eq_some_iff.1 hrun
    obtain rfl : q₁ = q' := by simpa using hd'
    exact Store.Query.rank_lt_of_step? hreconnect hdeadlock hstep

theorem burden_query_lt {q q' : Store.Query} {rest : List Duty} (session : Store.Session)
    (hd : w.duties = .run q :: rest) (hlt : q'.rank now < q.rank now) :
    burden now { w with session, duties := .run q' :: rest } < burden now w := by
  refine burden_lt session ?_ (by simp [hd]) (by simp [hd])
  rw [hd, load_cons, load_cons]
  exact Nat.add_lt_add_right (Nat.succ_lt_succ hlt) _

/-- The windows and the pauses of a policy have some length. -/
structure Policy.Waits (p : Policy) : Prop where
  window : 0 < p.window
  reconnect : 0 < p.pauses.reconnect
  deadlock : 0 < p.pauses.deadlock

/-- A step of a writer with an empty queue makes its burden less. -/
theorem burden_lt_of_step? (h : w.step? now t = some turn) (hqueue : w.queue = [])
    (hwaits : w.policy.Waits) : burden now turn.writer < burden now w := by
  have hphase := working_of_step? h
  have hrank : ∀ {q q' : Store.Query} {rest : List Duty}, w.duties = .run q :: rest →
      turn.writer.duties = .run q' :: rest → q'.rank now < q.rank now :=
    rank_lt_of_step? h hwaits.reconnect hwaits.deadlock
  have hmove := move_of_step? h
  generalize turn.writer = w' at hmove hrank
  generalize w.events t = es at hmove
  cases hmove with
  | start session hd => exact burden_lt session (load_lt hd) (by simp [hd]) (by simp [hd])
  | take hd hq => simp [hqueue] at hq
  | finish hd hq hc => exact burden_finish_lt hphase hd hc
  | expire hd hq hc hdue => exact burden_expire_lt hphase hd hc hdue
  | ask session hd hs => exact burden_query_lt session hd (hrank hd rfl)
  | progress session hd hs hf hsql hs' hf' => exact burden_query_lt session hd (hrank hd rfl)
  | ran session hd hs => exact burden_query_lt session hd (hrank hd rfl)
  | answer hd hs => exact burden_lt w.session (load_lt hd) (by simp [hd]) (by simp [hd])
  | die hd hs => exact burden_lt_of_ended [] (by simp) (Nat.zero_le _) hd
  | skip hd hb =>
    exact burden_flush_lt [] hwaits.window hd (by simp [hd]) (Nat.le_of_eq (Nat.zero_add _))
  | write hd hb =>
    rw [List.append_cons]
    refine burden_flush_lt _ hwaits.window hd (by simp [hd]) ?_
    have hbatch : batchLoad now w.policy w.batch = load now (w.batch.statements.map fun sql =>
        .run { sql, retries := w.policy.retries }) + 1 := by
      rw [batchLoad, hb]
      rfl
    rw [hbatch, load_append]
    exact Nat.le_refl _
  | written hd => exact burden_lt w.session (load_lt hd) (by simp [hd]) (by simp [hd])
  | review hd => exact burden_review_lt hd
  | leave hd => exact burden_lt_of_ended w.queue (by simp) (Nat.le_refl _) hd

theorem Move.frame_of_empty (m : Move now w t es w') (hqueue : w.queue = []) :
    w'.queue = [] ∧ w'.policy = w.policy := by
  cases m with
  | take hd hq => simp [hqueue] at hq
  | die => exact ⟨rfl, rfl⟩
  | _ => exact ⟨hqueue, rfl⟩

namespace Bench

/-- A bench whose writer has an empty queue comes to rest. -/
theorem step?_settle (n : Nat) (b : Bench) (hn : burden b.now b.writer ≤ n)
    (hqueue : b.writer.queue = []) (hwaits : b.writer.policy.Waits) :
    Timed.step? (Timed.settle n b) = none := by
  induction n generalizing b with
  | zero =>
    cases hs : Timed.step? b with
    | none => exact hs
    | some b' =>
      obtain ⟨turn, hstep, -⟩ := Option.map_eq_some_iff.1 hs
      have hlt := burden_lt_of_step? hstep hqueue hwaits
      omega
  | succ n ih =>
    unfold Timed.settle
    cases hs : Timed.step? b with
    | none => exact hs
    | some b' =>
      obtain ⟨turn, hstep, rfl⟩ := Option.map_eq_some_iff.1 hs
      have hlt := burden_lt_of_step? hstep hqueue hwaits
      obtain ⟨hqueue', hpolicy⟩ := (move_of_step? hstep).frame_of_empty hqueue
      refine ih _ ?_ hqueue' (hpolicy ▸ hwaits)
      show burden b.now turn.writer ≤ n
      omega

end Bench

/-! ## Idle looks -/

/-- What the next step of the writer adds to the times at which it found its queue empty and its
window ended. -/
def expired (now : Nat) (w : Writer) : List Nat :=
  if w.duties.isEmpty && w.queue.isEmpty && !w.closing then [now] else []

/-- The runs of a writer, with the times at which it found its queue empty and its window ended. -/
inductive Idle (policy : Policy) (capacity : Nat) : List Nat → Nat → Writer → Prop
  | hire (id now : Nat) (t : Store) : Idle policy capacity [] now (hire id policy capacity now t).1
  | step {times : List Nat} {now : Nat} {w : Writer} {t : Store} {turn : Turn} :
      Idle policy capacity times now w → w.step? now t = some turn →
        Idle policy capacity (times ++ w.expired now) now turn.writer
  | send {times : List Nat} {now : Nat} {w w' : Writer} {r : Request} :
      Idle policy capacity times now w → w.closing = false → w.send? r = some w' →
        Idle policy capacity times now w'
  | shut {times : List Nat} {now : Nat} {w : Writer} :
      Idle policy capacity times now w → Idle policy capacity times now w.shut
  | wait {times : List Nat} {now now' : Nat} {w : Writer} :
      Idle policy capacity times now w → now ≤ now' → Idle policy capacity times now' w

/-- The writer flushes before it looks at its queue again. -/
def owesFlush (now : Nat) (w : Writer) : Prop :=
  .flush ∈ w.duties ∨ .review ∈ w.duties ∧ w.deadline ≤ now

theorem not_owesFlush (hd : w.duties = []) : ¬w.owesFlush now := by
  simp [owesFlush, hd]

theorem owesFlush_of_duties {session : Store.Session} {ds : List Duty}
    (hflush : .flush ∈ w.duties → .flush ∈ ds) (hreview : .review ∈ w.duties → .review ∈ ds)
    (h : w.owesFlush now) : owesFlush now { w with session, duties := ds } :=
  h.imp hflush fun ⟨hr, hdue⟩ => ⟨hreview hr, hdue⟩

/-- A writer that has flushed since some time, or owes a flush, has flushed or still owes one. -/
theorem Move.since {n : Nat} (m : Move now w t es w') (hphase : w'.phase = .working)
    (hn : n ≤ now) (h : n ≤ w.lastFlush ∨ w.owesFlush now) :
    n ≤ w'.lastFlush ∨ w'.owesFlush now := by
  cases m with
  | take hd hq =>
    have hkept : ∀ w r, (accept w r).1.lastFlush = w.lastFlush := by
      intro w r
      unfold accept
      dsimp only
      split_ifs <;> rfl
    rw [hkept]
    exact .inl (h.resolve_right (not_owesFlush hd))
  | finish hd | expire hd => exact .inl (h.resolve_right (not_owesFlush hd))
  | skip | write => exact .inl hn
  | die | leave => exact absurd hphase (by simp)
  | review hd =>
    refine h.imp_right fun howes => ?_
    by_cases hdue : w.isDue now = true
    · rw [if_pos hdue]
      exact .inl List.mem_cons_self
    · have hwindow : ¬w.deadline ≤ now := fun h => hdue (isDue_of_le h)
      rw [if_neg hdue]
      refine .inl ?_
      simpa [hd] using howes.resolve_right fun hr => hwindow hr.2
  | start session hd | ask session hd | progress session hd | ran session hd =>
    exact h.imp_right (owesFlush_of_duties (by simp [hd]) (by simp [hd]))
  | answer hd | written hd =>
    exact h.imp_right (owesFlush_of_duties (by simp [hd]) (by simp [hd]))

/-- What holds of the times at which a writer found its queue empty and its window ended. -/
structure Spaced (policy : Policy) (times : List Nat) (now : Nat) (w : Writer) : Prop where
  policy_eq : w.policy = policy
  apart : times.Pairwise fun n n' => n + policy.window ≤ n'
  past : ∀ n ∈ times, n ≤ now
  since : w.phase = .working → ∀ n ∈ times, n ≤ w.lastFlush ∨ w.owesFlush now

theorem Move.policy_eq (m : Move now w t es w') : w'.policy = w.policy := by
  cases m with
  | take hd hq =>
    unfold accept
    dsimp only
    split_ifs <;> rfl
  | _ => rfl

/-- Only a writer whose window has ended finds so. -/
theorem Move.expired_eq (m : Move now w t es w') :
    w.expired now = [] ∨ w.expired now = [now] ∧ w.duties = [] ∧ w.deadline ≤ now ∧
      w'.owesFlush now := by
  cases m with
  | expire hd hq hc hdue =>
    exact .inr ⟨by simp [expired, hd, hq, hc], hd, hdue, .inr ⟨List.mem_cons_self, hdue⟩⟩
  | take hd hq => exact .inl (by simp [expired, hq])
  | finish hd hq hc => exact .inl (by simp [expired, hc])
  | _ => exact .inl (by simp [expired, *])

theorem Spaced.step (h : Spaced policy times now w) (hphase : w.phase = .working)
    (m : Move now w t es w') : Spaced policy (times ++ w.expired now) now w' := by
  have hsince : w'.phase = .working → ∀ n ∈ times, n ≤ w'.lastFlush ∨ w'.owesFlush now :=
    fun hphase' n hn => m.since hphase' (h.past n hn) (h.since hphase n hn)
  have hpolicy := m.policy_eq.trans h.policy_eq
  rcases m.expired_eq with hnone | ⟨hone, hd, hdue, howes⟩
  · rw [hnone, List.append_nil]
    exact ⟨hpolicy, h.apart, h.past, hsince⟩
  · rw [hone]
    refine ⟨hpolicy, List.pairwise_append.2 ⟨h.apart, List.pairwise_singleton _ _, ?_⟩,
      List.forall_mem_append.2 ⟨h.past, by simp⟩, fun hphase' n hn => ?_⟩
    · intro n hn n' hn'
      obtain rfl := List.mem_singleton.1 hn'
      have hflushed := (h.since hphase n hn).resolve_right (not_owesFlush hd)
      have hend : w.lastFlush + policy.window ≤ n' := h.policy_eq ▸ hdue
      omega
    · rcases List.mem_append.1 hn with hn | hn
      · exact hsince hphase' n hn
      · exact .inr howes

theorem Idle.spaced (h : Idle policy capacity times now w) : Spaced policy times now w := by
  induction h with
  | hire id now t => exact ⟨rfl, .nil, by simp, by simp⟩
  | step _ hs ih => exact ih.step (working_of_step? hs) (move_of_step? hs)
  | send _ _ hs ih =>
    obtain ⟨-, -, rfl⟩ := send?_spec hs
    exact ⟨ih.policy_eq, ih.apart, ih.past, ih.since⟩
  | shut _ ih => exact ⟨ih.policy_eq, ih.apart, ih.past, ih.since⟩
  | wait _ hle ih =>
    refine ⟨ih.policy_eq, ih.apart, fun n hn => Nat.le_trans (ih.past n hn) hle,
      fun hphase n hn => (ih.since hphase n hn).imp_right fun howes => ?_⟩
    exact howes.imp_right fun ⟨hr, hdue⟩ => ⟨hr, Nat.le_trans hdue hle⟩

/-! ## Windows of no length -/

/-- The writer has a window of no length and nothing to write. -/
structure Restless (now : Nat) (w : Writer) : Prop where
  working : w.phase = .working
  queue : w.queue = []
  closing : w.closing = false
  batch : w.batch.isEmpty = true
  due : w.deadline ≤ now
  window : w.policy.window = 0
  duties : w.duties = [] ∨ w.duties = [.start] ∨ w.duties = [.review] ∨ w.duties = [.flush]

theorem Restless.step (h : Restless now w) (t : Store) :
    ∃ turn, w.step? now t = some turn ∧ Restless now turn.writer := by
  have hopen : ¬w.isClosed = true := by simp [isClosed, h.working]
  unfold step?
  rw [if_neg hopen]
  rcases h.duties with hd | hd | hd | hd <;> simp only [hd]
  · unfold look?
    rw [h.queue]
    dsimp only
    rw [if_neg (by simp [h.closing]), if_pos h.due]
    exact ⟨_, rfl, h.working, rfl, h.closing, h.batch, h.due, h.window, .inr (.inr (.inl rfl))⟩
  · exact ⟨_, rfl, h.working, h.queue, h.closing, h.batch, h.due, h.window, .inl rfl⟩
  · rw [if_pos (isDue_of_le h.due)]
    exact ⟨_, rfl, h.working, h.queue, h.closing, h.batch, h.due, h.window,
      .inr (.inr (.inr rfl))⟩
  · refine ⟨_, rfl, ?_⟩
    unfold flush
    dsimp only
    rw [if_pos h.batch]
    have hdue : now + w.policy.window ≤ now := Nat.le_of_eq (by rw [h.window, Nat.add_zero])
    exact ⟨h.working, h.queue, h.closing, h.batch, hdue, h.window, .inl rfl⟩

theorem Bench.step?_of_restless {b : Bench} (h : Restless b.now b.writer) :
    ∃ b', Timed.step? b = some b' ∧ Restless b'.now b'.writer := by
  obtain ⟨turn, hstep, hnext⟩ := h.step b.store
  exact ⟨_, Option.map_eq_some_iff.2 ⟨turn, hstep, rfl⟩, hnext⟩

/-- A restless writer never comes to rest. -/
theorem Bench.step?_settle_of_restless {b : Bench} (h : Restless b.now b.writer) (n : Nat) :
    Timed.step? (Timed.settle n b) ≠ none := by
  induction n generalizing b with
  | zero =>
    obtain ⟨b', hs, -⟩ := step?_of_restless h
    exact Option.ne_none_iff_exists'.2 ⟨b', hs⟩
  | succ n ih =>
    obtain ⟨b', hs, hnext⟩ := step?_of_restless h
    unfold Timed.settle
    rw [hs]
    exact ih hnext

theorem Bench.restless_start (hwindow : policy.window = 0) (id capacity : Nat) (t : Store) :
    Restless (Bench.start policy id capacity t).now (Bench.start policy id capacity t).writer :=
  ⟨rfl, rfl, rfl, rfl, Nat.le_of_eq ((Nat.zero_add _).trans hwindow), hwindow, .inr (.inl rfl)⟩

end Writer

/-! ## Settings -/

/-- A writer under the settings does not spin while its queue is empty. -/
structure Settings.Idles (s : Settings) : Prop where
  /-- The clock moves on between two idle looks at the queue. -/
  advances : ∀ capacity times now w, Writer.Idle (.ofSettings s) capacity times now w →
    times.Pairwise (· < ·)
  /-- Whatever the writer is at, it comes to rest. -/
  settles : ∀ b : Writer.Bench, b.writer.policy = .ofSettings s → b.writer.queue = [] →
    ∃ n, Timed.step? (Timed.settle n b) = none

/-- Writers do not spin if, and only if, their windows have some length. -/
theorem Settings.idles_iff (s : Settings) : s.Idles ↔ 0 < s.postgres.batchMillis := by
  constructor
  · intro h
    by_contra hzero
    have hwindow : (Writer.Policy.ofSettings s).window = 0 := Nat.eq_zero_of_not_pos hzero
    obtain ⟨n, hrest⟩ := h.settles (Writer.Bench.start (.ofSettings s) 0 1 {}) rfl rfl
    exact Writer.Bench.step?_settle_of_restless (Writer.Bench.restless_start hwindow 0 1 {}) n hrest
  · intro hwindow
    have hwaits : (Writer.Policy.ofSettings s).Waits := ⟨hwindow, Nat.succ_pos _, Nat.succ_pos _⟩
    refine ⟨fun capacity times now w h => ?_, fun b hpolicy hqueue => ?_⟩
    · refine h.spaced.apart.imp fun hle => ?_
      exact Nat.lt_of_lt_of_le (Nat.lt_add_of_pos_right hwindow) hle
    · exact ⟨_, b.step?_settle _ (Nat.le_refl _) hqueue (hpolicy ▸ hwaits)⟩

/-- Settings with a window of no length and no other change. -/
def Settings.windowless : Settings := { postgres := { batchMillis := 0 } }

/-- They pass the check, and an idle writer goes on for ever at the moment at which it is hired. -/
theorem Settings.windowless_spins :
    windowless.defect? = none ∧
      ∀ n, Timed.step? (Timed.settle n (Writer.Bench.start (.ofSettings windowless) 0 1 {})) ≠
        none :=
  ⟨by decide +kernel,
    Writer.Bench.step?_settle_of_restless (Writer.Bench.restless_start rfl 0 1 {})⟩

end BmpFeed
