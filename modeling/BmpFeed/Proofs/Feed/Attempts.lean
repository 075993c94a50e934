import BmpFeed.Proofs.Feed.Delivery
import BmpFeed.Proofs.Feed.Staging
import Mathlib.Data.List.Chain

/-!
# Attempts at stages

A stage may fail: the bus may refuse the commit or the subscription, or the pattern may not be well
formed. `Subscription.step_outcome` says in which ways a stage can go, and `Attempts.Reached`
follows a subscription through any attempts at stages, while the bus changes between them as it
likes. A stage that fails leaves no trace in the subscription, so that what is subscribed is always
the alternation of the first patterns (`Attempts.stages_in_order`).
-/

namespace BmpFeed.Feed

open Subscription (alternation)

/-! ## Calls -/

/-- The fault of an answer. -/
def faultOf {α : Type} : Except Fault α → Option Fault
  | .ok _ => none
  | .error f => some f

namespace Bus

theorem note_order (c : Call) (f : Bus → Except Fault Unit × Bus) (b : Bus) :
    (b.order c f).note = .busCalled c 0 (faultOf (b.order c f).result) := by
  unfold order call
  dsimp only
  split_ifs
  · rfl
  · split <;> rfl

/-- A commit leaves the subscription alone. -/
theorem subscription_commit (b : Bus) :
    b.commit.bus.subscription = b.subscription ∧ b.commit.bus.subscriptions = b.subscriptions := by
  unfold commit order
  rcases call_cases .commit _ _ b with ⟨-, -, hbus⟩ | ⟨-, -, hbus⟩ <;> rw [hbus] <;>
    exact ⟨rfl, rfl⟩

/-- A pattern is accepted, or the subscription stays what it was. -/
theorem subscribe_cases (p : Pattern) (b : Bus) :
    ((∃ f, (b.subscribe p).result = .error f) ∧
        (b.subscribe p).bus.subscription = b.subscription ∧
        (b.subscribe p).bus.subscriptions = b.subscriptions) ∨
      ((b.subscribe p).result = .ok () ∧ (b.subscribe p).bus.subscription = some p ∧
        (b.subscribe p).bus.subscriptions = b.subscriptions ++ [p.text]) := by
  unfold subscribe order
  rcases call_cases .subscribe _ _ b with ⟨-, hresult, hbus⟩ | ⟨-, hresult, hbus⟩
  · rw [hresult, hbus]
    exact .inl ⟨⟨_, rfl⟩, rfl, rfl⟩
  · rw [hresult, hbus]
    split_ifs
    · exact .inl ⟨⟨_, rfl⟩, rfl, rfl⟩
    · exact .inr ⟨rfl, rfl, rfl⟩

end Bus

/-! ## Stages -/

namespace Stage

/-- The calls on the bus, in their order, each with its fault. -/
def calls (stage : Stage) : List (Call × Option Fault) :=
  stage.notes.filterMap fun | .busCalled c _ fault => some (c, fault) | _ => none

/-- The bus has accepted a subscription. -/
def accepting (stage : Stage) : Bool := (Call.subscribe, none) ∈ stage.calls

/-- The texts of the patterns that were added. -/
def added (stage : Stage) : List String :=
  stage.notes.filterMap fun | .subscribed text => some text | _ => none

end Stage

namespace Subscription

variable {s : Subscription} {now : Nat} {b : Bus}

/-- How a stage can go. -/
inductive Outcome (s : Subscription) (now : Nat) (b : Bus) (stage : Stage) : Prop
  /-- It is not time for one. -/
  | idle (due : ¬s.Due now) (stage_eq : stage = ⟨.ok false, s, b, []⟩)
  /-- Nothing is added. -/
  | failed (due : s.Due now) (f : Fault) (result : stage.result = .error f)
    (kept : stage.subscription = s) (accepting : stage.accepting = false) (added : stage.added = [])
    (subscription : stage.bus.subscription = b.subscription)
    (subscriptions : stage.bus.subscriptions = b.subscriptions)
    (reason : b.commit.result = .error f ∨ (s.next? = none ∧ f = malformed) ∨
      ∃ p, s.next? = some p ∧ (b.commit.bus.subscribe p).result = .error f)
  /-- The next pattern is added. -/
  | subscribed (due : s.Due now) (next : Pattern) (p : Pattern)
    (next_eq : s.patterns[s.count]? = some next)
    (text : p.text = alternation (s.patterns.take (s.count + 1)))
    (result : stage.result = .ok true)
    (subscription : stage.subscription = { s with count := s.count + 1, last := some now })
    (commit : b.commit.result = .ok ())
    (subscribe : (b.commit.bus.subscribe p).result = .ok ())
    (bus : stage.bus = (b.commit.bus.subscribe p).bus)
    (calls : stage.calls = [(.commit, none), (.subscribe, none)])
    (added : stage.added = [next.text])
    (accepted : stage.bus.subscription = some p)
    (subscriptions : stage.bus.subscriptions = b.subscriptions ++ [p.text])

theorem step_of_refused {f : Fault} (hdue : s.Due now) (hcommit : b.commit.result = .error f) :
    s.step now b = ⟨.error f, s, b.commit.bus, [b.commit.note]⟩ := by
  unfold step
  rw [List.getElem?_eq_getElem (isComplete_iff.1 hdue.1)]
  dsimp only
  rw [if_neg (by simp [hdue.2]), hcommit]

theorem step_of_committed {next : Pattern} (hdue : s.Due now)
    (hnext : s.patterns[s.count]? = some next) (hcommit : b.commit.result = .ok ()) :
    s.step now b =
      { s.extend now next b.commit.bus with
        notes := b.commit.note :: (s.extend now next b.commit.bus).notes } := by
  unfold step
  rw [hnext]
  dsimp only
  rw [if_neg (by simp [hdue.2]), hcommit]

theorem step_outcome (s : Subscription) (now : Nat) (b : Bus) : Outcome s now b (s.step now b) := by
  by_cases hdue : s.Due now
  swap
  · exact .idle hdue (step_idle hdue)
  have hlt := isComplete_iff.1 hdue.1
  obtain ⟨hsubscription, hsubscriptions⟩ := b.subscription_commit
  have hnote : b.commit.note = .busCalled .commit 0 (faultOf b.commit.result) :=
    b.note_order .commit _
  cases hcommit : b.commit.result with
  | error f =>
    rw [step_of_refused hdue hcommit, hnote, hcommit]
    exact .failed hdue f rfl rfl rfl rfl hsubscription hsubscriptions (.inl hcommit)
  | ok u =>
    rw [step_of_committed hdue (List.getElem?_eq_getElem hlt) hcommit, hnote, hcommit]
    unfold extend
    dsimp only
    cases hnext : Pattern.ofText? (alternation (s.patterns.take (s.count + 1))) with
    | none =>
      exact .failed hdue malformed rfl rfl rfl rfl hsubscription hsubscriptions
        (.inr (.inl ⟨hnext, rfl⟩))
    | some p =>
      have hnote' : (b.commit.bus.subscribe p).note =
          .busCalled .subscribe 0 (faultOf (b.commit.bus.subscribe p).result) :=
        b.commit.bus.note_order .subscribe _
      dsimp only
      rw [hnote']
      rcases b.commit.bus.subscribe_cases p with
        ⟨⟨f, hf⟩, hsame, hsames⟩ | ⟨hok, haccepted, hrecorded⟩
      · rw [hf]
        exact .failed hdue f rfl rfl rfl rfl (hsame.trans hsubscription)
          (hsames.trans hsubscriptions) (.inr (.inr ⟨p, hnext, hf⟩))
      · rw [hok]
        exact .subscribed hdue _ p (List.getElem?_eq_getElem hlt) (Pattern.text_ofText? hnext) rfl
          rfl hcommit hok rfl rfl rfl haccepted (by rw [hrecorded, hsubscriptions])

/-- A stage is made as a whole or not at all. -/
structure Atomic (s : Subscription) : Prop where
  idle : ∀ now b, ¬s.Due now → s.step now b = ⟨.ok false, s, b, []⟩
  finished : s.patterns.length ≤ s.count → ∀ now b, s.step now b = ⟨.ok false, s, b, []⟩
  kept : ∀ now b f, (s.step now b).result = .error f → (s.step now b).subscription = s
  again : ∀ now b f, (s.step now b).result = .error f →
    ∀ later b', (s.step now b).subscription.step later b' = s.step later b'
  /-- A stage that is due is made, unless the bus refuses it or its pattern is not well formed. -/
  made : ∀ now b p, s.Due now → b.commit.result = .ok () → s.next? = some p →
    (b.commit.bus.subscribe p).result = .ok () →
    (s.step now b).result = .ok true ∧
      (s.step now b).subscription = { s with count := s.count + 1, last := some now }

theorem subscription_step_error {f : Fault} (h : (s.step now b).result = .error f) :
    (s.step now b).subscription = s := by
  cases s.step_outcome now b with
  | idle _ hstage => rw [hstage]
  | failed _ _ _ hkept => exact hkept
  | subscribed _ _ _ _ _ hresult => exact absurd (h.symm.trans hresult) nofun

theorem step_of_willing {p : Pattern} (hdue : s.Due now) (hcommit : b.commit.result = .ok ())
    (hnext : s.next? = some p) (hsubscribe : (b.commit.bus.subscribe p).result = .ok ()) :
    (s.step now b).result = .ok true ∧
      (s.step now b).subscription = { s with count := s.count + 1, last := some now } := by
  cases s.step_outcome now b with
  | idle hnot _ => exact absurd hdue hnot
  | failed _ f _ _ _ _ _ _ hreason =>
    exfalso
    rcases hreason with hrefused | ⟨hnone, -⟩ | ⟨q, hq, hrefused⟩
    · exact absurd (hcommit.symm.trans hrefused) nofun
    · exact absurd (hnext.symm.trans hnone) nofun
    · rw [hnext, Option.some.injEq] at hq
      rw [← hq] at hrefused
      exact absurd (hsubscribe.symm.trans hrefused) nofun
  | subscribed _ _ _ _ _ hresult hsubscription => exact ⟨hresult, hsubscription⟩

theorem not_due_of_finished (h : s.patterns.length ≤ s.count) : ¬s.Due now :=
  fun hdue => absurd (isComplete_iff.1 hdue.1) (Nat.not_lt.2 h)

theorem isAtomic (s : Subscription) : s.Atomic where
  idle _ _ := step_idle
  finished h _ _ := step_idle (not_due_of_finished h)
  kept _ _ _ := subscription_step_error
  again _ _ _ h _ _ := by rw [subscription_step_error h]
  made _ _ _ := step_of_willing

end Subscription

/-! ## Runs -/

/-- An attempt at a stage: when, on which bus, and what it came to. -/
structure Attempt where
  now : Nat
  bus : Bus
  stage : Stage

/-- The bus accepts a subscription right after a commit. -/
structure Attempt.Committed (a : Attempt) : Prop where
  calls : a.stage.calls = [(.commit, none), (.subscribe, none)]
  commit : a.bus.commit.result = .ok ()
  subscribe : ∃ p, (a.bus.commit.bus.subscribe p).result = .ok () ∧
    a.stage.bus = (a.bus.commit.bus.subscribe p).bus

/-- A subscription with the attempts at its stages, in their order. -/
structure Attempts where
  subscription : Subscription
  bus : Bus
  log : List Attempt := []

namespace Attempts

def step (c : Attempts) (now : Nat) : Attempts :=
  let stage := c.subscription.step now c.bus
  ⟨stage.subscription, stage.bus, c.log ++ [⟨now, c.bus, stage⟩]⟩

/-- The attempts with which a subscription was accepted. -/
def accepted (c : Attempts) : List Attempt := c.log.filter fun a => a.stage.accepting

def added (c : Attempts) : List String := c.log.flatMap fun a => a.stage.added

/-- Attempts from the start. Between them other calls, which leave the subscription alone, may
change the bus and what it refuses. -/
inductive Reached (ps : List Pattern) (delay : Nat) : Attempts → Prop
  | start {b : Bus} : b.subscription = none → b.subscriptions = [] →
    Reached ps delay { subscription := { patterns := ps, delay }, bus := b }
  | elsewhere {c : Attempts} {b : Bus} : Reached ps delay c →
    b.subscription = c.bus.subscription → b.subscriptions = c.bus.subscriptions →
    Reached ps delay { c with bus := b }
  | step {c : Attempts} (now : Nat) : Reached ps delay c → Reached ps delay (c.step now)

/-- What was subscribed, and when. -/
structure Ordered (ps : List Pattern) (delay : Nat) (c : Attempts) : Prop where
  patterns_eq : c.subscription.patterns = ps
  delay_eq : c.subscription.delay = delay
  last_eq : c.subscription.last = (c.accepted.map Attempt.now).getLast?
  count_eq : c.subscription.count = c.accepted.length
  count_le : c.subscription.count ≤ ps.length
  /-- The latest subscription is the alternation of the first patterns. -/
  latest : c.bus.subscription.map Pattern.text =
    if c.subscription.count = 0 then none
    else some (alternation (ps.take c.subscription.count))
  subscriptions : c.bus.subscriptions =
    (List.range c.subscription.count).map fun k => alternation (ps.take (k + 1))
  added : c.added = (ps.take c.subscription.count).map Pattern.text
  committed : ∀ a ∈ c.accepted, a.Committed
  spaced : (c.accepted.map Attempt.now).IsChain fun earlier later => earlier + delay ≤ later

section Steps

variable {ps : List Pattern} {delay : Nat} {c : Attempts} {now : Nat}

theorem accepted_step : (c.step now).accepted = c.accepted ++
    if (c.subscription.step now c.bus).accepting then
      [⟨now, c.bus, c.subscription.step now c.bus⟩]
    else [] := by
  unfold accepted step
  rw [List.filter_append, List.filter_singleton, Bool.cond_eq_ite]

theorem added_step :
    (c.step now).added = c.added ++ (c.subscription.step now c.bus).added := by
  unfold added step
  rw [List.flatMap_append, List.flatMap_singleton]

/-- Where nothing is added, everything stays. -/
theorem Ordered.kept (h : Ordered ps delay c)
    (hkept : (c.subscription.step now c.bus).subscription = c.subscription)
    (haccepting : (c.subscription.step now c.bus).accepting = false)
    (hadded : (c.subscription.step now c.bus).added = [])
    (hsubscription : (c.subscription.step now c.bus).bus.subscription = c.bus.subscription)
    (hsubscriptions : (c.subscription.step now c.bus).bus.subscriptions = c.bus.subscriptions) :
    Ordered ps delay (c.step now) := by
  have haccepted : (c.step now).accepted = c.accepted := by
    rw [accepted_step, if_neg (by simp [haccepting]), List.append_nil]
  have hs : (c.step now).subscription = c.subscription := hkept
  have hall : (c.step now).added = c.added := by rw [added_step, hadded, List.append_nil]
  constructor
  · rw [hs, h.patterns_eq]
  · rw [hs, h.delay_eq]
  · rw [hs, haccepted, h.last_eq]
  · rw [hs, haccepted, h.count_eq]
  · rw [hs]
    exact h.count_le
  · rw [hs]
    exact hsubscription ▸ h.latest
  · rw [hs]
    exact hsubscriptions ▸ h.subscriptions
  · rw [hs, hall, h.added]
  · rw [haccepted]
    exact h.committed
  · rw [haccepted]
    exact h.spaced

/-- It is time for a stage only when the delay has passed since the latest. -/
theorem Ordered.spaced_snoc (h : Ordered ps delay c) (hdue : c.subscription.Due now) :
    (c.accepted.map Attempt.now ++ [now]).IsChain fun earlier later => earlier + delay ≤ later := by
  rw [List.isChain_append]
  refine ⟨h.spaced, .singleton _, fun earlier hearlier later hlater => ?_⟩
  have hlast : c.subscription.last = some earlier := h.last_eq.trans hearlier
  have hwaiting := hdue.2
  unfold Subscription.isWaiting at hwaiting
  rw [hlast, h.delay_eq] at hwaiting
  simp only [Option.any_some, decide_eq_false_iff_not, Nat.not_lt] at hwaiting
  rw [List.head?_singleton, Option.mem_some_iff] at hlater
  exact hlater ▸ hwaiting

theorem Ordered.step (h : Ordered ps delay c) (now : Nat) : Ordered ps delay (c.step now) := by
  cases c.subscription.step_outcome now c.bus with
  | idle _ hstage =>
    exact h.kept (by rw [hstage]) (by rw [hstage]; rfl) (by rw [hstage]; rfl) (by rw [hstage])
      (by rw [hstage])
  | failed _ _ _ hkept haccepting hadded hsubscription hsubscriptions =>
    exact h.kept hkept haccepting hadded hsubscription hsubscriptions
  | subscribed hdue next p hnext htext _ hsubscription hcommit hsubscribe hbus hcalls hadded
      haccept hsubscriptions =>
    have haccepting : (c.subscription.step now c.bus).accepting = true := by
      unfold Stage.accepting
      rw [hcalls]
      rfl
    have haccepted : (c.step now).accepted =
        c.accepted ++ [⟨now, c.bus, c.subscription.step now c.bus⟩] := by
      rw [accepted_step, if_pos haccepting]
    have hs : (c.step now).subscription =
        { c.subscription with count := c.subscription.count + 1, last := some now } := hsubscription
    have hlt : c.subscription.count < ps.length :=
      h.patterns_eq ▸ Subscription.isComplete_iff.1 hdue.1
    rw [h.patterns_eq] at hnext htext
    constructor
    · rw [hs, ← h.patterns_eq]
    · rw [hs, ← h.delay_eq]
    · rw [hs, haccepted, List.map_append, List.map_singleton, List.getLast?_concat]
    · rw [hs, haccepted, List.length_append, ← h.count_eq]
      rfl
    · rw [hs]
      exact hlt
    · rw [hs, if_neg (Nat.succ_ne_zero _), ← htext]
      exact congrArg (Option.map Pattern.text) haccept
    · rw [hs, List.range_succ, List.map_append, List.map_singleton, ← htext, ← h.subscriptions]
      exact hsubscriptions
    · rw [hs, added_step, hadded, h.added, List.take_add_one, hnext, List.map_append]
      rfl
    · rw [haccepted]
      intro a ha
      rcases List.mem_append.1 ha with hearlier | hnew
      · exact h.committed a hearlier
      · rw [List.mem_singleton.1 hnew]
        exact ⟨hcalls, hcommit, p, hsubscribe, hbus⟩
    · rw [haccepted, List.map_append, List.map_singleton]
      exact h.spaced_snoc hdue

theorem Reached.ordered (h : Reached ps delay c) : Ordered ps delay c := by
  induction h with
  | start hnone hnil =>
    exact ⟨rfl, rfl, rfl, rfl, Nat.zero_le _, by rw [if_pos rfl, hnone, Option.map_none], hnil, rfl,
      List.forall_mem_nil _, .nil⟩
  | elsewhere _ hsame hsames ih =>
    exact { ih with latest := hsame ▸ ih.latest, subscriptions := hsames ▸ ih.subscriptions }
  | step now _ ih => exact ih.step now

/-- After any attempts the patterns that are subscribed are the first ones, each added once and
after its delay, and the next attempt is made as a whole or not at all. -/
theorem stages_in_order (h : Reached ps delay c) :
    Ordered ps delay c ∧ c.subscription.Atomic :=
  ⟨h.ordered, c.subscription.isAtomic⟩

end Steps

/-- Of the attempts at these times the first finds the commit refused, and the fourth the
subscription. -/
def faulty : Attempts :=
  [0, 0, 3, 5, 6].foldl step
    { subscription := { patterns := shadowing, delay := 5 }
      bus := { refusals := [(.commit, 1), (.subscribe, 2)] } }

theorem stages_in_order_sample :
    Reached shadowing 5 faulty ∧ faulty.subscription.count = 2 ∧
      Ordered shadowing 5 faulty ∧ faulty.subscription.Atomic := by
  have hreached : Reached shadowing 5 faulty :=
    .step 6 (.step 5 (.step 3 (.step 0 (.step 0 (.start rfl rfl)))))
  exact ⟨hreached, by decide +kernel, stages_in_order hreached⟩

end Attempts

end BmpFeed.Feed
