import BmpFeed.Proofs.Feed.Combining
import BmpFeed.Proofs.Intake.Gauge

/-!
# Staged subscription

What a subscription that grows by one pattern at a time delivers (`Staged.delivers_iff`): the topics
of a subscribed pattern before which none begins to match. A later pattern can so be shadowed by an
earlier one that matches only the beginning of a topic.
-/

namespace BmpFeed.Feed

/-! ## Deliveries -/

/-- A poll brings a message on the topic that waits, when nothing is wrong with the bus. -/
def Bus.Delivers (b : Bus) (topic : String) : Prop :=
  ∀ m : Message, m.topic = topic →
    ({ b with
        batches := [[m]], paused := false, closed := false, pollFault := none, refusals := [] } :
      Bus).poll.result = .ok [m]

theorem Bus.delivers_iff_accepts (b : Bus) (topic : String) :
    b.Delivers topic ↔ ∃ p, b.subscription = some p ∧ p.accepts topic = true := by
  have hpoll : ∀ m : Message, m.topic = topic →
      (({ b with
          batches := [[m]], paused := false, closed := false, pollFault := none, refusals := [] } :
        Bus).poll.result = .ok [m] ↔ ∃ p, b.subscription = some p ∧ p.accepts topic = true) := by
    intro m hm
    unfold poll
    rw [call_of_willing rfl]
    cases b.subscription with
    | none => simp [deliver]
    | some p =>
      cases haccepts : p.accepts topic <;>
        simp [deliver, takeAccepted, List.partition_eq_filter_filter, hm, haccepts]
  constructor
  · intro h
    exact (hpoll ⟨topic, "", "", none⟩ rfl).1 (h _ rfl)
  · exact fun h m hm => (hpoll m hm).2 h

theorem Bus.delivers_of_subscription {b : Bus} {p : Pattern} (h : b.subscription = some p)
    (topic : String) : b.Delivers topic ↔ p.accepts topic = true := by
  rw [b.delivers_iff_accepts, h]
  constructor
  · rintro ⟨q, hq, haccepts⟩
    rwa [Option.some.inj hq]
  · exact fun haccepts => ⟨p, rfl, haccepts⟩

theorem Bus.subscription_subscribe {b : Bus} {p : Pattern}
    (h : (b.subscribe p).result = .ok ()) : (b.subscribe p).bus.subscription = some p := by
  unfold subscribe order call at h ⊢
  dsimp only at h ⊢
  split_ifs at h ⊢ with hrefused hclosed
  rfl

/-! ## Stages -/

/-- Stages of the subscription of these patterns that did not fail, at these times, the latest
first. Between them other calls, which leave the subscription alone, may change the bus. -/
inductive Staged (ps : List Pattern) (delay : Nat) : List Nat → Subscription → Bus → Prop
  | start {b : Bus} : b.subscription = none → Staged ps delay [] { patterns := ps, delay } b
  | elsewhere {times : List Nat} {s : Subscription} {b b' : Bus} :
    Staged ps delay times s b → b'.subscription = b.subscription → Staged ps delay times s b'
  | step {times : List Nat} {s : Subscription} {b : Bus} (now : Nat) {changed : Bool} :
    Staged ps delay times s b → (s.step now b).result = .ok changed →
    Staged ps delay (now :: times) (s.step now b).subscription (s.step now b).bus

namespace Subscription

/-- It is time for the next pattern. -/
def Due (s : Subscription) (now : Nat) : Prop := s.isComplete = false ∧ s.isWaiting now = false

instance (s : Subscription) (now : Nat) : Decidable (s.Due now) :=
  inferInstanceAs (Decidable (_ ∧ _))

variable {s : Subscription} {now : Nat} {b : Bus}

theorem isComplete_iff : s.isComplete = false ↔ s.count < s.patterns.length := by
  unfold isComplete
  simp

theorem step_idle (h : ¬s.Due now) : s.step now b = ⟨.ok false, s, b, []⟩ := by
  unfold step
  cases hnext : s.patterns[s.count]? with
  | none => rfl
  | some next =>
    have hcount : s.isComplete = false :=
      isComplete_iff.2 (List.getElem?_eq_some_iff.1 hnext).1
    have hwaiting : s.isWaiting now = true := by
      by_contra hnot
      exact h ⟨hcount, by simpa using hnot⟩
    dsimp only
    rw [if_pos hwaiting]

/-- The pattern of the stage to come. -/
def next? (s : Subscription) : Option Pattern :=
  Pattern.ofText? (alternation (s.patterns.take (s.count + 1)))

theorem extend_ok {next : Pattern} {changed : Bool}
    (hok : (s.extend now next b).result = .ok changed) :
    changed = true ∧ ∃ p, s.next? = some p ∧ (s.extend now next b).bus.subscription = some p ∧
      (s.extend now next b).subscription = { s with count := s.count + 1, last := some now } := by
  unfold extend at hok ⊢
  unfold next?
  dsimp only at hok ⊢
  cases hp : Pattern.ofText? (alternation (s.patterns.take (s.count + 1))) with
  | none =>
    rw [hp] at hok
    exact absurd hok nofun
  | some p =>
    rw [hp] at hok
    dsimp only at hok ⊢
    cases hsub : (b.subscribe p).result with
    | error f =>
      rw [hsub] at hok
      exact absurd hok nofun
    | ok u =>
      rw [hsub] at hok
      exact ⟨(Except.ok.inj hok).symm, p, rfl, Bus.subscription_subscribe hsub, rfl⟩

/-- A stage that does not fail subscribes what it is to. -/
theorem step_ok (h : s.Due now) {changed : Bool} (hok : (s.step now b).result = .ok changed) :
    changed = true ∧ ∃ p, s.next? = some p ∧ (s.step now b).bus.subscription = some p ∧
      (s.step now b).subscription = { s with count := s.count + 1, last := some now } := by
  unfold step at hok ⊢
  rw [List.getElem?_eq_getElem (isComplete_iff.1 h.1)] at hok ⊢
  dsimp only at hok ⊢
  rw [if_neg (by simp [h.2])] at hok ⊢
  cases hcommit : b.commit.result with
  | error f =>
    rw [hcommit] at hok
    exact absurd hok nofun
  | ok u =>
    rw [hcommit] at hok
    exact extend_ok hok

end Subscription

/-- How far the stages have come. -/
structure Underway (ps : List Pattern) (delay : Nat) (s : Subscription) (b : Bus) : Prop where
  patterns : s.patterns = ps
  delay : s.delay = delay
  count_le : s.count ≤ ps.length
  combinable : Combinable (ps.take s.count)
  subscription : b.subscription = if s.count = 0 then none else some (joined (ps.take s.count))

section Runs

variable {ps : List Pattern} {delay : Nat} {times : List Nat} {s : Subscription} {b : Bus}

/-- The next stage is well formed when its patterns combine. -/
theorem Underway.next?_eq (h : Underway ps delay s b) (hwf : ∀ p ∈ ps, p.WellFormed)
    (hlt : s.count < ps.length) :
    s.next? =
      if Combinable (ps.take (s.count + 1)) then some (joined (ps.take (s.count + 1)))
      else none := by
  have hne : ps.take (s.count + 1) ≠ [] := by
    intro hnil
    have := congrArg List.length hnil
    rw [List.length_take] at this
    simp only [List.length_nil] at this
    omega
  have hearlier : (ps.take (s.count + 1)).dropLast = ps.take s.count := by
    rcases Nat.lt_or_ge (s.count + 1) ps.length with hmore | hlast
    · rw [List.dropLast_take hmore, Nat.add_sub_cancel]
    · rw [List.take_of_length_le hlast, List.dropLast_eq_take]
      congr 1
      omega
  unfold Subscription.next?
  rw [h.patterns]
  refine ofText?_alternation hne (fun p hp => hwf p (List.mem_of_mem_take hp)) ?_
  rw [hearlier]
  exact h.combinable.grouped

theorem Staged.underway (h : Staged ps delay times s b) (hwf : ∀ p ∈ ps, p.WellFormed) :
    Underway ps delay s b := by
  induction h with
  | start hnone => exact ⟨rfl, rfl, Nat.zero_le _, .nil, hnone⟩
  | elsewhere _ hsame ih =>
    exact ⟨ih.patterns, ih.delay, ih.count_le, ih.combinable, hsame ▸ ih.subscription⟩
  | @step times s b now changed _ hok ih =>
    by_cases hdue : s.Due now
    · obtain ⟨-, p, hnext, hbus, hstage⟩ := Subscription.step_ok hdue hok
      have hlt : s.count < ps.length := ih.patterns ▸ Subscription.isComplete_iff.1 hdue.1
      rw [ih.next?_eq hwf hlt] at hnext
      split_ifs at hnext with hcombine
      rw [hstage]
      exact ⟨ih.patterns, ih.delay, hlt, hcombine, hbus.trans hnext.symm⟩
    · rw [Subscription.step_idle hdue]
      exact ih

theorem delivers_grouped {p : Pattern} (hwf : p.WellFormed) (hgrouped : p.grouped?.isSome = true)
    (topic : String) :
    ({ subscription := p.grouped? } : Bus).Delivers topic ↔ p.accepts topic = true := by
  obtain ⟨q, hq, hregex⟩ := exists_grouped hwf hgrouped
  rw [Bus.delivers_of_subscription hq, Pattern.accepts, Pattern.accepts, hregex]

/-- After any stages a topic is delivered when a subscribed pattern delivers it alone before which
none begins to match it. -/
theorem Staged.delivers_iff (h : Staged ps delay times s b) (hwf : ∀ p ∈ ps, p.WellFormed)
    (topic : String) :
    b.Delivers topic ↔
      ∃ before p after, ps.take s.count = before ++ p :: after ∧
        ({ subscription := p.grouped? } : Bus).Delivers topic ∧
        ∀ q ∈ before, q.regex.ends (.ofText topic) = [] := by
  have hu := h.underway hwf
  have hgrouped : ∀ before p after, ps.take s.count = before ++ p :: after →
      (({ subscription := p.grouped? } : Bus).Delivers topic ↔ p.accepts topic = true) := by
    intro before p after heq
    have hp : p ∈ ps.take s.count := heq ▸ List.mem_append_right _ List.mem_cons_self
    exact delivers_grouped (hwf p (List.mem_of_mem_take hp)) (hu.combinable.grouped p hp) topic
  have hsubscription := hu.subscription
  by_cases hzero : s.count = 0
  · rw [if_pos hzero] at hsubscription
    rw [Bus.delivers_iff_accepts, hsubscription, hzero, List.take_zero]
    simp
  · have hne : ps.take s.count ≠ [] := by
      intro hnil
      have := congrArg List.length hnil
      have := hu.count_le
      rw [List.length_take, List.length_nil] at *
      omega
    rw [if_neg hzero] at hsubscription
    rw [Bus.delivers_of_subscription hsubscription, accepts_joined hne]
    constructor
    · rintro ⟨before, p, after, heq, hp, hbefore⟩
      exact ⟨before, p, after, heq, (hgrouped before p after heq).2 hp, hbefore⟩
    · rintro ⟨before, p, after, heq, hp, hbefore⟩
      exact ⟨before, p, after, heq, (hgrouped before p after heq).1 hp, hbefore⟩

end Runs

/-! ## Two stages -/

/-- The first stage of a subscription without a delay. -/
def firstStage (ps : List Pattern) : Stage :=
  ({ patterns := ps, delay := 0 } : Subscription).step 0 {}

def secondStage (ps : List Pattern) : Stage :=
  (firstStage ps).subscription.step 0 (firstStage ps).bus

theorem Staged.first {ps : List Pattern} (h : (firstStage ps).result = .ok true) :
    Staged ps 0 [0] (firstStage ps).subscription (firstStage ps).bus := .step 0 (.start rfl) h

theorem Staged.second {ps : List Pattern} (h : (firstStage ps).result = .ok true)
    (h' : (secondStage ps).result = .ok true) :
    Staged ps 0 [0, 0] (secondStage ps).subscription (secondStage ps).bus := .step 0 (.first h) h'

def longer : Pattern := ⟨"ab", .seq (.chars (.single 'a')) (.chars (.single 'b'))⟩

/-- Patterns of which the first matches the beginning of what the second is for. -/
def shadowing : List Pattern := [⟨"a", .chars (.single 'a')⟩, longer]

theorem deliveries_sample :
    Staged shadowing 0 [0, 0] (secondStage shadowing).subscription (secondStage shadowing).bus ∧
      (∀ p ∈ shadowing, p.WellFormed) ∧
      ((secondStage shadowing).bus.Delivers "ab" ↔
        ∃ before p after,
          shadowing.take (secondStage shadowing).subscription.count = before ++ p :: after ∧
          ({ subscription := p.grouped? } : Bus).Delivers "ab" ∧
          ∀ q ∈ before, q.regex.ends (.ofText "ab") = []) := by
  have hwf : ∀ p ∈ shadowing, p.WellFormed := by decide +kernel
  have hstaged : Staged shadowing 0 [0, 0] (secondStage shadowing).subscription
      (secondStage shadowing).bus := .second (by decide +kernel) (by decide +kernel)
  exact ⟨hstaged, hwf, hstaged.delivers_iff hwf "ab"⟩

/-- A pattern may stop delivering a topic that it delivers alone, for an earlier one that matches
the beginning of the topic. -/
theorem shadowed :
    ¬∀ ps delay times s b, (∀ p ∈ ps, p.WellFormed) → Staged ps delay times s b →
      ∀ p ∈ ps.take s.count, ∀ topic,
        ({ subscription := p.grouped? } : Bus).Delivers topic → b.Delivers topic := by
  intro h
  have hwf : ∀ p ∈ shadowing, p.WellFormed := by decide +kernel
  have hstaged : Staged shadowing 0 [0, 0] (secondStage shadowing).subscription
      (secondStage shadowing).bus := .second (by decide +kernel) (by decide +kernel)
  have hmem : longer ∈ shadowing.take (secondStage shadowing).subscription.count := by
    decide +kernel
  have halone : ({ subscription := longer.grouped? } : Bus).Delivers "ab" :=
    (delivers_grouped (by decide +kernel) (by decide +kernel) "ab").2 (by decide +kernel)
  have hsubscription : (secondStage shadowing).bus.subscription = some (joined shadowing) := by
    decide +kernel
  have hno : ¬(secondStage shadowing).bus.Delivers "ab" := by
    rw [Bus.delivers_of_subscription hsubscription]
    decide +kernel
  exact hno (h _ _ _ _ _ hwf hstaged _ hmem "ab" halone)

end BmpFeed.Feed
