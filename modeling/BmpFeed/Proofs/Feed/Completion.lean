import BmpFeed.Proofs.Feed.Staging
import BmpFeed.Settings.Check
import Mathlib.Data.List.Chain

/-!
# Completing a subscription

Settings are checked pattern by pattern, but subscribed as alternations. The stages of settings
that passed the check all succeed if and only if their patterns combine (`Settings.subscribing`):
patterns that share a group name, that end in an open comment or that are too large together pass
the check, and the stage that first needs them together fails again and again.
-/

namespace BmpFeed

namespace Feed

namespace Subscription

variable {s : Subscription} {now : Nat} {b : Bus}

/-- A stage that is due on a bus that is open and refuses nothing fails only for its text. -/
theorem step_due (hdue : s.Due now) (hb : b.refusals = []) (hopen : b.closed = false) :
    (s.next? = none ∧ (s.step now b).result = .error malformed ∧
        (s.step now b).subscription = s) ∨
      ∃ p, s.next? = some p ∧ (s.step now b).result = .ok true ∧
        (s.step now b).subscription = { s with count := s.count + 1, last := some now } := by
  unfold step next?
  rw [List.getElem?_eq_getElem (isComplete_iff.1 hdue.1)]
  dsimp only
  rw [if_neg (by simp [hdue.2]), Bus.commit_of_willing hb]
  unfold extend
  dsimp only
  cases Pattern.ofText? (alternation (s.patterns.take (s.count + 1))) with
  | none => exact .inl ⟨rfl, rfl, rfl⟩
  | some p =>
    dsimp only
    rw [Bus.subscribe_of_willing (b := { b with commits := b.commits + 1 }) hb hopen]
    exact .inr ⟨p, rfl, rfl, rfl⟩

end Subscription

/-- Stages at these times, the latest first, are at least a delay apart. -/
def Spaced (delay : Nat) (times : List Nat) : Prop :=
  times.IsChain fun later earlier => earlier + delay ≤ later

/-- Each of the stages that are a delay apart subscribes one pattern, until none is left. -/
theorem Staged.count_eq {ps : List Pattern} {delay : Nat} {times : List Nat} {s : Subscription}
    {b : Bus} (h : Staged ps delay times s b) (hwf : ∀ p ∈ ps, p.WellFormed)
    (hspaced : Spaced delay times) :
    s.count = min times.length ps.length ∧ (times.length ≤ ps.length → s.last = times.head?) := by
  induction h with
  | start => exact ⟨by simp, fun _ => rfl⟩
  | elsewhere _ _ ih => exact ih hspaced
  | @step times s b now changed h hok ih =>
    obtain ⟨hnear, hspaced⟩ := List.isChain_cons.1 hspaced
    obtain ⟨hcount, hlast⟩ := ih hspaced
    have hu := h.underway hwf
    rw [List.length_cons]
    by_cases hdue : s.Due now
    · have hlt : s.count < ps.length := hu.patterns ▸ Subscription.isComplete_iff.1 hdue.1
      obtain ⟨-, -, -, -, hstage⟩ := Subscription.step_ok hdue hok
      rw [hstage]
      exact ⟨by dsimp only; omega, fun _ => rfl⟩
    · rw [Subscription.step_idle hdue]
      -- nothing is left, for a stage that has patterns left is due after the delay
      have hall : ps.length ≤ times.length := by
        by_contra hless
        refine hdue ⟨Subscription.isComplete_iff.2 (by rw [hu.patterns]; omega), ?_⟩
        unfold Subscription.isWaiting
        rw [hlast (by omega), hu.delay]
        cases times with
        | nil => rfl
        | cons earlier times =>
          have := hnear earlier rfl
          simpa using this
      exact ⟨by dsimp only; omega, fun hle => by omega⟩

/-- How the next stage goes, after stages that did not fail. -/
structure Subscribing (ps : List Pattern) (delay : Nat) (times : List Nat) (s : Subscription)
    (b : Bus) (now : Nat) : Prop where
  fails : (∃ f, (s.step now b).result = .error f) ↔
    s.Due now ∧ ¬Combinable (ps.take (s.count + 1))
  fault : ∀ f, (s.step now b).result = .error f →
    f = Subscription.malformed ∧ (s.step now b).subscription = s
  waits : ¬s.Due now → (s.step now b).result = .ok false ∧ (s.step now b).subscription = s
  advances : s.Due now → Combinable (ps.take (s.count + 1)) →
    (s.step now b).result = .ok true ∧ (s.step now b).subscription.count = s.count + 1
  /-- No stage of patterns that combine fails. -/
  never : Combinable ps → ∃ changed, (s.step now b).result = .ok changed
  count : Spaced delay times → s.count = min times.length ps.length
  incomplete : ¬Combinable ps → s.isComplete = false

section Stage

variable {ps : List Pattern} {delay : Nat} {s : Subscription} {b : Bus} {now : Nat}
  (hu : Underway ps delay s b) (hwf : ∀ p ∈ ps, p.WellFormed) (hb : b.refusals = [])
  (hopen : b.closed = false)

include hu hwf hb hopen

theorem Underway.step_due (hdue : s.Due now) :
    (¬Combinable (ps.take (s.count + 1)) ∧ (s.step now b).result = .error Subscription.malformed ∧
        (s.step now b).subscription = s) ∨
      (Combinable (ps.take (s.count + 1)) ∧ (s.step now b).result = .ok true ∧
        (s.step now b).subscription.count = s.count + 1) := by
  have hnext := hu.next?_eq hwf (hu.patterns ▸ Subscription.isComplete_iff.1 hdue.1)
  rcases Subscription.step_due hdue hb hopen with ⟨hnone, hstage⟩ | ⟨p, hsome, hresult, hstage⟩
  · rw [hnone] at hnext
    split_ifs at hnext with hcombine
    exact .inl ⟨hcombine, hstage⟩
  · rw [hsome] at hnext
    split_ifs at hnext with hcombine
    exact .inr ⟨hcombine, hresult, by rw [hstage]⟩

theorem Underway.step_error {f : Fault} (hf : (s.step now b).result = .error f) :
    s.Due now ∧ ¬Combinable (ps.take (s.count + 1)) ∧ f = Subscription.malformed ∧
      (s.step now b).subscription = s := by
  have hdue : s.Due now := by
    by_contra hnot
    rw [Subscription.step_idle hnot] at hf
    exact absurd hf nofun
  rcases hu.step_due hwf hb hopen hdue with ⟨hnot, hresult, hsame⟩ | ⟨-, hresult, -⟩
  · rw [hresult] at hf
    exact ⟨hdue, hnot, (Except.error.inj hf).symm, hsame⟩
  · rw [hresult] at hf
    exact absurd hf nofun

end Stage

theorem Underway.isComplete_of_not_combinable {ps : List Pattern} {delay : Nat} {s : Subscription}
    {b : Bus} (hu : Underway ps delay s b) (hnot : ¬Combinable ps) : s.isComplete = false := by
  rw [Subscription.isComplete_iff, hu.patterns]
  refine Nat.lt_of_le_of_ne hu.count_le fun hall => hnot ?_
  have := hu.combinable
  rwa [hall, List.take_length] at this

theorem Staged.next_stage {ps : List Pattern} {delay : Nat} {times : List Nat}
    {s : Subscription} {b : Bus} (h : Staged ps delay times s b) (hwf : ∀ p ∈ ps, p.WellFormed)
    (hb : b.refusals = []) (hopen : b.closed = false) (now : Nat) :
    Subscribing ps delay times s b now := by
  have hu := h.underway hwf
  have hdue := fun hnow : s.Due now => hu.step_due hwf hb hopen hnow
  have herror := fun f (hf : (s.step now b).result = .error f) => hu.step_error hwf hb hopen hf
  refine ⟨⟨?_, ?_⟩, fun f hf => (herror f hf).2.2, ?_, ?_, ?_,
    fun hspaced => (h.count_eq hwf hspaced).1, hu.isComplete_of_not_combinable⟩
  · rintro ⟨f, hf⟩
    exact ⟨(herror f hf).1, (herror f hf).2.1⟩
  · rintro ⟨hnow, hnot⟩
    rcases hdue hnow with ⟨-, hresult, -⟩ | ⟨hcombine, -⟩
    · exact ⟨_, hresult⟩
    · exact absurd hcombine hnot
  · intro hnot
    rw [Subscription.step_idle hnot]
    exact ⟨rfl, rfl⟩
  · intro hnow hcombine
    rcases hdue hnow with ⟨hnot, -⟩ | ⟨-, hstage⟩
    · exact absurd hcombine hnot
    · exact hstage
  · intro hcombine
    cases hresult : (s.step now b).result with
    | ok changed => exact ⟨changed, rfl⟩
    | error f => exact absurd (hcombine.take _) (herror f hresult).2.1

end Feed

open Feed (Pattern)

theorem Settings.Kafka.wellFormed_compiled (k : Kafka) : ∀ p ∈ k.compiled, p.WellFormed := by
  intro p hp
  obtain ⟨text, -, hp⟩ := List.mem_filterMap.1 hp
  unfold Pattern.WellFormed
  rwa [Pattern.text_ofText? hp]

/-- All patterns of settings that pass the check are compiled. -/
theorem Settings.text_compiled {s : Settings} (h : s.defect? = none) :
    s.kafka.compiled.map Pattern.text = s.kafka.patterns := by
  have hkafka : s.kafka.defect? = none := by
    unfold defect? at h
    simp only [Option.or_eq_none_iff] at h
    exact h.2.2.1
  unfold Kafka.defect? at hkafka
  split_ifs at hkafka with hempty
  have hall := List.find?_eq_none.1 (Option.map_eq_none_iff.1 hkafka)
  unfold Kafka.compiled
  rw [List.map_filterMap]
  refine (List.filterMap_congr fun text htext => ?_).trans List.filterMap_some
  obtain ⟨p, hp⟩ : ∃ p, Pattern.ofText? text = some p := by
    have := hall text htext
    rw [Option.isNone_iff_eq_none] at this
    exact Option.ne_none_iff_exists'.1 this
  rw [hp, Option.map_some, Pattern.text_ofText? hp]

/-- How the stages of settings go that passed the check. -/
theorem Settings.subscribing {settings : Settings} (hsettings : settings.defect? = none)
    {times : List Nat} {s : Feed.Subscription} {b : Feed.Bus}
    (h : Feed.Staged settings.kafka.compiled settings.kafka.subscribeDelay times s b)
    (hopen : b.closed = false) (hwilling : b.refusals = []) (now : Nat) :
    settings.kafka.compiled.map Pattern.text = settings.kafka.patterns ∧
      Feed.Subscribing settings.kafka.compiled settings.kafka.subscribeDelay times s b now :=
  ⟨text_compiled hsettings,
    h.next_stage settings.kafka.wellFormed_compiled hwilling hopen now⟩

/-- Two patterns, each well formed, with a group of the same name. -/
def clashing : Settings :=
  { kafka := { subscribeDelay := 0, patterns := ["(?P<x>a)", "(?P<x>b)"] } }

theorem clashing_sample :
    clashing.defect? = none ∧
      Feed.Staged clashing.kafka.compiled clashing.kafka.subscribeDelay [0]
        (Feed.firstStage clashing.kafka.compiled).subscription
        (Feed.firstStage clashing.kafka.compiled).bus ∧
      (Feed.firstStage clashing.kafka.compiled).bus.closed = false ∧
      (Feed.firstStage clashing.kafka.compiled).bus.refusals = [] ∧
      clashing.kafka.compiled.map Pattern.text = clashing.kafka.patterns ∧
      Feed.Subscribing clashing.kafka.compiled clashing.kafka.subscribeDelay [0]
        (Feed.firstStage clashing.kafka.compiled).subscription
        (Feed.firstStage clashing.kafka.compiled).bus 0 := by
  have hcheck : clashing.defect? = none := by decide +kernel
  have hstaged : Feed.Staged clashing.kafka.compiled clashing.kafka.subscribeDelay [0]
      (Feed.firstStage clashing.kafka.compiled).subscription
      (Feed.firstStage clashing.kafka.compiled).bus := .first (by decide +kernel)
  have hopen : (Feed.firstStage clashing.kafka.compiled).bus.closed = false := by decide +kernel
  have hwilling : (Feed.firstStage clashing.kafka.compiled).bus.refusals = [] := by decide +kernel
  exact ⟨hcheck, hstaged, hopen, hwilling, Settings.subscribing hcheck hstaged hopen hwilling 0⟩

/-- Settings may pass the check and fail to be subscribed. -/
theorem clashing_names :
    ¬∀ settings : Settings, settings.defect? = none → ∀ times s b now,
      Feed.Staged settings.kafka.compiled settings.kafka.subscribeDelay times s b →
      b.closed = false → b.refusals = [] →
      ∀ reason, (s.step now b).result ≠ .error (.subscribe reason) := by
  intro h
  refine h clashing (by decide +kernel) [0] (Feed.firstStage clashing.kafka.compiled).subscription
    (Feed.firstStage clashing.kafka.compiled).bus 0 (.first (by decide +kernel))
    (by decide +kernel) (by decide +kernel) "regex parse error" ?_
  decide +kernel

end BmpFeed
