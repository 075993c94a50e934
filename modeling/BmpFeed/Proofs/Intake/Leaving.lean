import BmpFeed.Proofs.Dispatch.Complete
import BmpFeed.Proofs.Intake.Course
import BmpFeed.Proofs.Intake.Gauge

/-!
# How an intake leaves

An intake that no statement ends goes through the whole of its shutdown: it empties its backlog,
dismisses its fleet, ends its session and closes its bus. Others may do to the bus what they like,
as long as it stays closed once it is closed.
-/

namespace BmpFeed

/-! ## Buses that can be closed -/

namespace Feed.Bus

/-- No call to close the bus will be refused. -/
def Closable (b : Bus) : Prop := ∀ n, (Call.close, n) ∉ b.refusals

variable {b : Bus}

theorem refusals_deliver (b : Bus) : b.deliver.2.refusals = b.refusals := by
  obtain ⟨batches, hdeliver⟩ := b.deliver_eq
  rw [hdeliver]

namespace Closable

theorem countCall (h : b.Closable) (c : Call) : (b.countCall c).Closable := by
  intro n hmem
  obtain ⟨⟨c', m⟩, hr, he⟩ := List.mem_map.1 hmem
  split_ifs at he with hc
  · dsimp only at hc
    obtain ⟨rfl, -⟩ := Prod.mk.inj he
    exact h m (hc ▸ hr)
  · exact h n (he ▸ hr)

/-- Whatever a call does, it takes nothing into the script of refusals. -/
theorem call {α : Type} {c : Call} {messages : α → Nat} {f : Bus → Except Fault α × Bus}
    (h : b.Closable) (hf : ∀ b', (f b').2.refusals = b'.refusals) :
    (b.call c messages f).bus.Closable := by
  have hcount := h.countCall c
  have hafter : (f (b.countCall c)).2.Closable := fun n => by
    rw [hf]
    exact hcount n
  unfold Bus.call
  dsimp only
  split_ifs
  · exact hcount
  · split <;> rename_i heq <;> rw [heq] at hafter <;> exact hafter

theorem pause (h : b.Closable) : b.pause.bus.Closable := h.call fun _ => rfl

theorem resume (h : b.Closable) : b.resume.bus.Closable := h.call fun _ => rfl

theorem commit (h : b.Closable) : b.commit.bus.Closable := h.call fun _ => rfl

theorem close (h : b.Closable) : b.close.bus.Closable := h.call fun _ => rfl

theorem keepAlive (h : b.Closable) : b.keepAlive.1.Closable := by
  have hbeat : b.heartbeat.bus.Closable := h.call fun _ => rfl
  unfold Bus.keepAlive
  dsimp only
  split <;> exact hbeat

theorem subscribe (h : b.Closable) (p : Pattern) : (b.subscribe p).bus.Closable :=
  h.call fun b' => by split_ifs <;> rfl

theorem poll (h : b.Closable) : b.poll.bus.Closable := by
  refine h.call fun b' => ?_
  split_ifs
  · rfl
  · cases b'.pollFault with
    | some f => rfl
    | none => exact refusals_deliver _

theorem step (h : b.Closable) (s : Subscription) (now : Nat) : (s.step now b).bus.Closable := by
  unfold Subscription.step
  split
  · exact h
  · split_ifs
    · exact h
    · dsimp only
      split
      · exact h.commit
      · unfold Subscription.extend
        dsimp only
        split
        · exact h.commit
        · split <;> exact h.commit.subscribe _

theorem refuses_close (h : b.Closable) : b.refuses .close = false := by
  unfold Bus.refuses
  rw [Bool.eq_false_iff]
  intro hmem
  exact h 1 (by simpa using hmem)

/-- The call to close it closes the bus. -/
theorem close_eq (h : b.Closable) :
    b.close.bus.closed = true ∧ b.close.note = .busCalled .close 0 none := by
  have hrefuses := h.refuses_close
  unfold Bus.close Bus.order Bus.call
  simp [hrefuses]

end Closable

end Feed.Bus

namespace Intake

variable {s : Settings} {log : List Sight} {now : Nat} {i : Intake} {stopping : Bool} {t : Store}
  {turn : Turn}

/-! ## Steps -/

theorem closable_of_step (h : i.bus.Closable) (hstep : i.step? now stopping t = some turn) :
    turn.intake.bus.Closable := by
  obtain ⟨task, rest, hts, hdeed⟩ := exists_deed hstep
  cases hcalling : task.isCalling with
  | false =>
    rcases quiet_of_step hts hstep hcalling with ⟨-, hbus⟩ | ⟨-, -, hbus⟩
    · exact hbus ▸ h
    · exact hbus ▸ h.keepAlive
  | true =>
    cases hdeed with
    | subscribe | subscribeFailed => exact h.step _ now
    | poll | pollFailed => exact h.poll
    | pause | pauseFailed | lastPause | lastPauseFailed => exact h.pause
    | resume | resumeFailed => exact h.resume
    | leave fault => exact h.close
    | _ => exact absurd hcalling (by simp [Task.isCalling])

/-- An intake keeps its number. -/
theorem id_of_step (hstep : i.step? now stopping t = some turn) : turn.intake.id = i.id := by
  obtain ⟨task, rest, -, hdeed⟩ := exists_deed hstep
  cases hdeed with
  | handle hm => cases hm <;> rfl
  | _ => rfl

theorem Move.leave_of_ended {ms : List Sql.Mapping} {d d' : Dispatch} {ts ts' : List Task}
    {es : List Event} {o : Option Outcome} (m : Move now ms d ts es ts' d' o) (hended : o ≠ none)
    (hcrash : o ≠ some .crashed) : ∃ fault rest, ts = .leave fault :: rest := by
  cases m with
  | leave fault rest => exact ⟨fault, rest, rfl⟩
  | crash => exact absurd rfl hcrash
  | _ => exact absurd rfl hended

/-- An intake that ends other than by a statement makes the last step of its shutdown. -/
theorem leave_of_step (hopen : i.outcome = none) (hstep : i.step? now stopping t = some turn)
    (hended : turn.intake.outcome ≠ none) (hcrash : turn.intake.outcome ≠ some .crashed) :
    ∃ fault rest, i.tasks = .leave fault :: rest ∧ turn = i.leaveStep fault t := by
  obtain ⟨fault, rest, hts⟩ := (move_of_step? hopen hstep).1.leave_of_ended hended hcrash
  cases deed_of_step? hts hstep
  exact ⟨fault, rest, hts, rfl⟩

/-! ## The end -/

/-- A bus that several may use. It can be closed, and nobody opens it again. -/
def World.shared : World where
  fresh := Feed.Bus.Closable
  change b b' := b'.Closable ∧ (b.closed = true → b'.closed = true)

theorem Watched.closable (h : Watched .shared s log now i) : i.bus.Closable := by
  induction h with
  | open_ id now t hfresh => exact hfresh
  | wait _ _ ih => exact ih
  | bus _ hchange _ => exact hchange.1
  | step _ hstep ih => exact closable_of_step ih hstep
  | write _ _ _ ih => exact ih

/-- The calls and the session of an intake that has ended. -/
structure SignedOff (log : List Sight) (i : Intake) : Prop where
  called : .called .close 0 none ∈ log
  closed : i.bus.closed = true
  disconnected : i.session.linked = false ∧ i.session.connected = false

theorem Watched.run {w : World} (h : Watched w s log now i) :
    Run s (shown (journalOf log)) now i := h.journal.run

theorem Watched.signedOff (h : Watched .shared s log now i) (hended : i.outcome ≠ none)
    (hcrash : i.outcome ≠ some .crashed) : SignedOff log i := by
  induction h with
  | open_ => exact absurd rfl hended
  | wait _ _ ih => exact ih hended hcrash
  | bus _ hchange ih =>
    have hold := ih hended hcrash
    exact { hold with closed := hchange.2 hold.closed }
  | @step log now i stopping t turn hwatched hstep _ =>
    obtain ⟨fault, rest, hts, rfl⟩ :=
      leave_of_step (hwatched.run.outcome_eq_none hstep) hstep hended hcrash
    obtain ⟨hclosed, hnote⟩ := hwatched.closable.close_eq
    refine ⟨?_, hclosed, rfl, rfl⟩
    have hcalls : calls (i.leaveStep fault t).notes = [.called .close 0 none] := by
      unfold leaveStep
      dsimp only
      rw [hnote]
      rfl
    unfold sights
    rw [hcalls]
    simp
  | write _ _ _ ih =>
    have hold := ih hended hcrash
    exact { hold with called := List.mem_append_left _ hold.called }

/-- An intake that has gone through its shutdown. -/
structure Left (log : List Sight) (i : Intake) : Prop extends SignedOff log i where
  idle : i.tasks = []
  delivered : i.dispatch.backlog.items = []
  dismissed : i.dispatch.fleet.writers = []

/-- Whoever ends other than by a statement has gone through the shutdown. -/
theorem Watched.left (h : Watched .shared s log now i) (hended : i.outcome ≠ none)
    (hcrash : i.outcome ≠ some .crashed) : Left log i := by
  have hcourse := h.run.course_ended hended hcrash
  obtain ⟨hfleet, hdismissed⟩ := hcourse.run.fleet
  exact
    { h.signedOff hended hcrash with
      idle := h.run.tasks_eq_nil hended
      delivered := (hcourse.run.items_of_closed rfl).1
      dismissed := hfleet.writers_eq_nil (hdismissed.2 rfl) }

end Intake

end BmpFeed
