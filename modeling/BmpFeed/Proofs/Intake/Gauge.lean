import BmpFeed.Proofs.Intake.Calls

/-!
# What the calls on a bus come to

A `Gauge` counts the calls that can be seen of a run, and `Allowed` says when a call, or a piece of
work on a message, may come next. `Matches` ties the counts to a bus that refuses nothing.
-/

namespace BmpFeed

/-! ## A bus that refuses nothing -/

namespace Feed.Bus

theorem deliver_eq (b : Bus) : ∃ batches, b.deliver.2 = { b with batches } := by
  unfold deliver
  split
  · exact ⟨_, rfl⟩
  · exact ⟨b.batches, rfl⟩

variable {b : Bus} (hb : b.refusals = [])

include hb

theorem call_of_willing {α : Type} (c : Call) (messages : α → Nat)
    (f : Bus → Except Fault α × Bus) :
    b.call c messages f =
      match f b with
      | (.ok a, b') => ⟨.ok a, b', .busCalled c (messages a) none⟩
      | (.error e, b') => ⟨.error e, b', .busCalled c 0 (some e)⟩ := by
  have hcount : b.countCall c = b := by
    unfold countCall
    rw [hb, List.map_nil, ← hb]
  have hrefuses : b.refuses c = false := by
    unfold refuses
    rw [hb]
    rfl
  unfold call
  rw [hcount, hrefuses]
  rfl

theorem order_of_willing (c : Call) (f : Bus → Bus) :
    b.order c (fun b => (.ok (), f b)) = ⟨.ok (), f b, .busCalled c 0 none⟩ :=
  call_of_willing hb c _ _

theorem pause_of_willing :
    b.pause =
      ⟨.ok (), { b with paused := true, pauses := b.pauses + 1 }, .busCalled .pause 0 none⟩ :=
  order_of_willing hb .pause fun b => { b with paused := true, pauses := b.pauses + 1 }

theorem resume_of_willing :
    b.resume =
      ⟨.ok (), { b with paused := false, resumes := b.resumes + 1 }, .busCalled .resume 0 none⟩ :=
  order_of_willing hb .resume fun b => { b with paused := false, resumes := b.resumes + 1 }

theorem commit_of_willing :
    b.commit = ⟨.ok (), { b with commits := b.commits + 1 }, .busCalled .commit 0 none⟩ :=
  order_of_willing hb .commit fun b => { b with commits := b.commits + 1 }

theorem close_of_willing :
    b.close = ⟨.ok (), { b with closed := true }, .busCalled .close 0 none⟩ :=
  order_of_willing hb .close fun b => { b with closed := true }

theorem keepAlive_of_willing :
    b.keepAlive = ({ b with heartbeats := b.heartbeats + 1 }, [.busCalled .heartbeat 0 none]) := by
  have hbeat : b.heartbeat = _ :=
    order_of_willing hb .heartbeat fun b => { b with heartbeats := b.heartbeats + 1 }
  unfold keepAlive
  rw [hbeat]

variable (hopen : b.closed = false)

include hopen

theorem subscribe_of_willing (p : Pattern) :
    b.subscribe p =
      ⟨.ok (), { b with subscription := some p, subscriptions := b.subscriptions ++ [p.text] },
        .busCalled .subscribe 0 none⟩ := by
  unfold subscribe order
  rw [call_of_willing hb, hopen]
  rfl

theorem poll_of_willing :
    (∃ f, b.poll =
      ⟨.error f, { b with polls := b.polls + 1, pollFault := none }, .busCalled .poll 0 (some f)⟩) ∨
    ∃ ms batches, b.poll =
      ⟨.ok ms, { b with polls := b.polls + 1, batches }, .busCalled .poll ms.length none⟩ := by
  obtain ⟨batches, hdeliver⟩ := deliver_eq { b with polls := b.polls + 1 }
  unfold poll
  rw [call_of_willing hb]
  dsimp only
  rw [if_neg (by simp [hopen])]
  split
  · rename_i heq
    split at heq
    · exact absurd heq (by simp)
    · obtain ⟨rfl, rfl⟩ : _ ∧ _ := by simpa using heq
      exact .inr ⟨_, batches, by rw [hdeliver]⟩
  · rename_i heq
    split at heq
    · rename_i f _
      obtain ⟨rfl, rfl⟩ : _ ∧ _ := by simpa using heq
      exact .inl ⟨_, rfl⟩
    · exact absurd heq (by simp)

end Feed.Bus

open Intake (calls)

/-- What a stage of the subscription calls: nothing, or a commit and perhaps then a pattern. -/
theorem Feed.Subscription.calls_step {b : Bus} (hb : b.refusals = []) (hopen : b.closed = false)
    (s : Subscription) (now : Nat) :
    (calls (s.step now b).notes = [] ∧ (s.step now b).bus = b) ∨
      (calls (s.step now b).notes = [.called .commit 0 none] ∧
        (s.step now b).bus = { b with commits := b.commits + 1 }) ∨
      (calls (s.step now b).notes = [.called .commit 0 none, .called .subscribe 0 none] ∧
        ∃ p, (s.step now b).bus =
          { b with
            commits := b.commits + 1, subscription := some p
            subscriptions := b.subscriptions ++ [p.text] }) := by
  unfold step
  split
  · exact .inl ⟨rfl, rfl⟩
  · rename_i next _
    split_ifs
    · exact .inl ⟨rfl, rfl⟩
    · rw [Bus.commit_of_willing hb]
      unfold extend
      dsimp only
      cases Pattern.ofText? _ with
      | none => exact .inr (.inl ⟨rfl, rfl⟩)
      | some p =>
        dsimp only
        rw [Bus.subscribe_of_willing (b := { b with commits := b.commits + 1 }) hb hopen]
        exact .inr (.inr ⟨rfl, p, rfl⟩)

namespace Intake

/-! ## Gauges -/

/-- What the calls on the bus so far come to. -/
structure Gauge where
  paused : Bool := false
  pauses : Nat := 0
  resumes : Nat := 0
  /-- The polls that brought messages. -/
  filled : Nat := 0
  /-- The latest poll brought none. -/
  idle : Bool := false
  /-- The checks of the fleet that ended after such a poll. -/
  idleChecks : Nat := 0
  /-- A poll has failed. -/
  failed : Bool := false
  closed : Bool := false
  deriving DecidableEq

/-- One sight more. -/
def Gauge.see (g : Gauge) : Sight → Gauge
  | .called .pause _ none => { g with paused := true, pauses := g.pauses + 1 }
  | .called .resume _ none => { g with paused := false, resumes := g.resumes + 1 }
  | .called .poll _ (some _) => { g with failed := true }
  | .called .poll 0 none => { g with idle := true }
  | .called .poll (_ + 1) none => { g with idle := false, filled := g.filled + 1 }
  | .called .close _ _ => { g with closed := true }
  | .checked => if g.idle then { g with idleChecks := g.idleChecks + 1 } else g
  | _ => g

def gauge (log : List Sight) : Gauge := log.foldl Gauge.see {}

variable {log past later : List Sight} {x : Sight} {g : Gauge}

@[simp] theorem gauge_nil : gauge [] = {} := rfl

@[simp] theorem gauge_snoc (log : List Sight) (x : Sight) :
    gauge (log ++ [x]) = (gauge log).see x :=
  List.foldl_append

theorem Gauge.failed_see (h : g.failed = true) (x : Sight) : (g.see x).failed = true := by
  unfold see
  split <;> first | exact h | rfl | (split_ifs <;> exact h)

theorem Gauge.closed_see (h : g.closed = true) (x : Sight) : (g.see x).closed = true := by
  unfold see
  split <;> first | exact h | rfl | (split_ifs <;> exact h)

/-- A poll that failed shows ever after. -/
theorem failed_of_mem {n : Nat} {f : Feed.Fault} (h : .called .poll n (some f) ∈ log) :
    (gauge log).failed = true := by
  induction log using List.reverseRecOn with
  | nil => exact absurd h (by simp)
  | append_singleton log x ih =>
    rw [gauge_snoc]
    rcases List.mem_append.1 h with h | h
    · exact Gauge.failed_see (ih h) x
    · obtain rfl := List.mem_singleton.1 h
      rfl

/-- That the bus was closed shows ever after. -/
theorem closed_of_mem {n : Nat} {fault : Option Feed.Fault} (h : .called .close n fault ∈ log) :
    (gauge log).closed = true := by
  induction log using List.reverseRecOn with
  | nil => exact absurd h (by simp)
  | append_singleton log x ih =>
    rw [gauge_snoc]
    rcases List.mem_append.1 h with h | h
    · exact Gauge.closed_see (ih h) x
    · obtain rfl := List.mem_singleton.1 h
      rfl

/-- Only a call to close the bus closes it. -/
theorem exists_close (h : (gauge log).closed = true) :
    ∃ n fault, .called .close n fault ∈ log := by
  induction log using List.reverseRecOn with
  | nil => exact absurd h (by simp)
  | append_singleton log x ih =>
    rw [gauge_snoc] at h
    by_cases hold : (gauge log).closed = true
    · obtain ⟨n, fault, hmem⟩ := ih hold
      exact ⟨n, fault, List.mem_append_left _ hmem⟩
    · unfold Gauge.see at h
      split at h <;> first | exact absurd h hold | (split_ifs at h <;> exact absurd h hold) | skip
      exact ⟨_, _, List.mem_append_right _ (List.mem_singleton_self _)⟩

/-! ## Order -/

/-- Entries of the work on a message: it is taken up, statements for it are run, or its request is
handed over. -/
def Entry.isHandling : Entry → Bool
  | .taken _ _ | .asked _ _ | .executed _ | .ended _ _ _ | .dispatch (.pushed _) => true
  | _ => false

/-- What may be seen next. -/
def Allowed (past : List Sight) : Sight → Prop
  | .called c _ fault =>
    (gauge past).closed = false ∧
      match c with
      | .poll => (gauge past).paused = false ∧ (gauge past).failed = false
      | .heartbeat => (gauge past).paused = true
      | .subscribe => fault = none → past.getLast? = some (.called .commit 0 none)
      | _ => True
  | .noted e => e.isHandling = true → (gauge past).paused = true
  | _ => True

/-- Everything that was seen was allowed when it was. -/
def Orderly (log : List Sight) : Prop :=
  ∀ past x later, log = past ++ x :: later → Allowed past x

theorem Orderly.nil : Orderly [] := by
  intro past x later hlog
  exact absurd hlog (by simp)

theorem Orderly.snoc (h : Orderly log) (hx : Allowed log x) : Orderly (log ++ [x]) := by
  intro past y later hlog
  rcases split_snoc hlog with ⟨later', hold⟩ | ⟨rfl, rfl⟩
  · exact h past y later' hold
  · exact hx

/-- No poll follows one that failed. -/
theorem Orderly.no_poll (h : Orderly log) {n : Nat} {f : Feed.Fault}
    (hlog : log = past ++ .called .poll n (some f) :: later) (m : Nat)
    (fault : Option Feed.Fault) : .called .poll m fault ∉ later := by
  intro hmem
  obtain ⟨mid, after, rfl⟩ := List.append_of_mem hmem
  have hallowed := h (past ++ .called .poll n (some f) :: mid) (.called .poll m fault) after
    (by simp [hlog])
  have hfailed : (gauge (past ++ .called .poll n (some f) :: mid)).failed = true :=
    failed_of_mem (List.mem_append_right past List.mem_cons_self)
  exact absurd hfailed (by simp [hallowed.2.2])

/-- No call follows that to close the bus. -/
theorem Orderly.no_call (h : Orderly log) {n : Nat} {fault : Option Feed.Fault}
    (hlog : log = past ++ .called .close n fault :: later) (c : Feed.Call) (m : Nat)
    (fault' : Option Feed.Fault) : .called c m fault' ∉ later := by
  intro hmem
  obtain ⟨mid, after, rfl⟩ := List.append_of_mem hmem
  have hallowed := h (past ++ .called .close n fault :: mid) (.called c m fault') after
    (by simp [hlog])
  have hclosed : (gauge (past ++ .called .close n fault :: mid)).closed = true :=
    closed_of_mem (List.mem_append_right past List.mem_cons_self)
  exact absurd hclosed (by simp [hallowed.1])

/-- Sights that no count is about. -/
def Sight.isAside : Sight → Bool
  | .noted _ | .refreshed _ => true
  | _ => false

theorem Gauge.see_aside (hx : x.isAside = true) (g : Gauge) : g.see x = g := by
  cases x with
  | noted e | refreshed rows => rfl
  | _ => exact absurd hx (by simp [Sight.isAside])

theorem Allowed.aside (hx : x.isAside = true)
    (hpaused : ∀ e, x = .noted e → e.isHandling = true → (gauge past).paused = true) :
    Allowed past x := by
  cases x with
  | noted e => exact hpaused e rfl
  | refreshed rows => trivial
  | _ => exact absurd hx (by simp [Sight.isAside])

/-- What no count is about is allowed as long as the bus is paused for the work on messages. -/
theorem Orderly.asides (h : Orderly log) (new : List Sight)
    (hnew : ∀ x ∈ new, x.isAside = true)
    (hpaused : ∀ e, .noted e ∈ new → e.isHandling = true → (gauge log).paused = true) :
    Orderly (log ++ new) ∧ gauge (log ++ new) = gauge log := by
  induction new using List.reverseRecOn with
  | nil =>
    rw [List.append_nil]
    exact ⟨h, rfl⟩
  | append_singleton new x ih =>
    obtain ⟨hold, hgauge⟩ := ih (fun y hy => hnew y (List.mem_append_left _ hy))
      fun e he => hpaused e (List.mem_append_left _ he)
    have hx : x.isAside = true := hnew x (by simp)
    rw [← List.append_assoc, gauge_snoc, Gauge.see_aside hx]
    refine ⟨hold.snoc (.aside hx ?_), hgauge⟩
    rintro e rfl hhandling
    rw [hgauge]
    exact hpaused e (by simp) hhandling

/-! ## The bus -/

/-- A bus that refuses nothing has done what the calls come to. -/
structure Matches (g : Gauge) (b : Feed.Bus) : Prop where
  refusals_eq : b.refusals = []
  paused_eq : b.paused = g.paused
  closed_eq : b.closed = g.closed
  pauses_eq : b.pauses = g.pauses
  resumes_eq : b.resumes = g.resumes

/-- A new bus for one intake. Nothing is done to it from outside but to push batches and to make the
next poll fail. -/
def World.own : World where
  fresh b := ∃ batches fault, b = { batches, pollFault := fault }
  change b b' := (∃ batch, b' = b.push batch) ∨ ∃ f, b' = { b with pollFault := some f }

theorem Matches.fresh {b : Feed.Bus} (h : World.own.fresh b) : Matches {} b := by
  obtain ⟨batches, fault, rfl⟩ := h
  exact ⟨rfl, rfl, rfl, rfl, rfl⟩

theorem Matches.change {b b' : Feed.Bus} (hg : Matches g b) (h : World.own.change b b') :
    Matches g b' := by
  obtain ⟨batch, rfl⟩ | ⟨f, rfl⟩ := h
  · exact ⟨hg.refusals_eq, hg.paused_eq, hg.closed_eq, hg.pauses_eq, hg.resumes_eq⟩
  · exact ⟨hg.refusals_eq, hg.paused_eq, hg.closed_eq, hg.pauses_eq, hg.resumes_eq⟩

end Intake

end BmpFeed
