import BmpFeed.Proofs.Fleet.Log
import Mathlib.Algebra.GroupWithZero.Nat

/-!
# Signs of life

A drain asks for a sign of life whenever it has rested often enough, and every drain counts its
rests from zero. So the rests between two signs of life are bounded for one drain, but what several
drains rest one after another adds up (`Paced.pulsed`).
-/

namespace BmpFeed.Fleet

inductive Tick
  /-- A drain begins. -/
  | begun
  /-- A drain finds requests in the queue and rests for a millisecond. -/
  | rest
  /-- A sign of life is asked for. -/
  | pulse
  deriving DecidableEq, Repr

namespace Chore

/-- What a step of a chore shows. -/
def ticks (turn : Turn) : Chore → List Tick
  | reset _ _ => turn.chores.map fun _ => .begun
  | drain _ _ _ _ => (if turn.pulse then [.pulse] else []) ++ turn.chores.map fun _ => .rest
  | _ => if turn.pulse then [.pulse] else []

def isDrain : Chore → Bool
  | drain _ _ _ _ => true
  | _ => false

/-- What a step of a chore can show, and the chores that follow. -/
inductive Beat (now : Nat) : Chore → List Tick → List Chore → Prop
  | begin (c : Category) (place : Nat) : Beat now (.reset c place) [.begun] [.drain c place 0 now]
  | rest {steps : Nat} (c : Category) (place due : Nat) (h : steps + 1 < pulseSteps) :
      Beat now (.drain c place steps due) [.rest] [.drain c place (steps + 1) (now + 1)]
  | pulse (c : Category) (place steps due : Nat) :
      Beat now (.drain c place steps due) [.pulse, .rest] [.drain c place 0 (now + 1)]
  | other {chore : Chore} {chores : List Chore} (h : ∀ chore' ∈ chores, chore'.isDrain = false) :
      Beat now chore [] chores

end Chore

/-- The owner of a fleet does chores while the writers work and time passes. -/
inductive Paced (now : Nat) (f : Fleet) (chores : List Chore) :
    List Tick → Nat → Fleet → List Chore → Prop
  | start : Paced now f chores [] now f chores
  | wait {ticks : List Tick} {n n' : Nat} {g : Fleet} {rest : List Chore} :
      Paced now f chores ticks n g rest → n ≤ n' → Paced now f chores ticks n' g rest
  | write {ticks : List Tick} {n : Nat} {g : Fleet} {rest : List Chore} {t : Store} {w : Writer}
      {turn : Writer.Turn} :
      Paced now f chores ticks n g rest → w ∈ g.writers → w.step? n t = some turn →
        Paced now f chores ticks n (g.replace turn.writer) rest
  | chore {ticks : List Tick} {n : Nat} {g : Fleet} {chore : Chore} {rest : List Chore} {t : Store}
      {turn : Chore.Turn} :
      Paced now f chores ticks n g (chore :: rest) → chore.step? n g t = some turn →
        Paced now f chores (ticks ++ chore.ticks turn) n turn.fleet (turn.chores ++ rest)

variable {now now' : Nat} {f f' : Fleet} {t : Store} {chore : Chore}
  {chores chores' rest : List Chore} {turn : Chore.Turn} {ticks ticks' : List Tick}

namespace Chore

theorem beat_drain (c : Category) (place steps due now : Nat) (f : Fleet) (t : Store) :
    Beat now (.drain c place steps due)
      ((drain c place steps due).ticks (drainStep c place steps now f t))
      (drainStep c place steps now f t).chores := by
  unfold drainStep
  cases f.member? ⟨c, place⟩ with
  | none => exact .other (by simp)
  | some m =>
    dsimp only
    split_ifs with hempty hpulse
    · exact .other (by simp)
    · exact .pulse c place steps due
    · exact .rest c place due (Nat.lt_of_not_le hpulse)

theorem isDrain_ofVerdict (c : Category) (v : Verdict) :
    ∀ chore ∈ (ofVerdict c v).1, chore.isDrain = false := by
  cases v <;> simp [ofVerdict, isDrain]

theorem beat_of_step? (h : chore.step? now f t = some turn) :
    Beat now chore (chore.ticks turn) turn.chores := by
  cases chore <;> simp only [step?] at h
  case inspect c =>
    obtain rfl := Option.some.inj h
    exact .other (isDrain_ofVerdict c _)
  case reset c place =>
    split at h <;> obtain rfl := Option.some.inj h
    · exact .other (by simp)
    · exact .begin c place
  case drain c place steps due =>
    split_ifs at h
    obtain rfl := Option.some.inj h
    exact beat_drain c place steps due now f t
  case grow c | shrink c =>
    split_ifs at h <;> obtain rfl := Option.some.inj h <;> exact .other (by simp [isDrain])
  case release c =>
    obtain rfl := Option.some.inj h
    unfold releaseStep
    dsimp only
    cases (f.crew c).members.getLast? with
    | none =>
      refine .other fun chore' hmem => ?_
      obtain rfl := List.mem_singleton.1 hmem
      rfl
    | some m =>
      refine .other fun chore' hmem => ?_
      simp only [List.mem_cons, List.not_mem_nil, or_false] at hmem
      rcases hmem with rfl | rfl | rfl <;> rfl
  case join id =>
    unfold joinStep? at h
    split at h
    · obtain rfl := Option.some.inj h
      exact .other (by simp)
    · obtain ⟨-, h⟩ := Option.ite_none_right_eq_some.1 h
      obtain rfl := Option.some.inj h
      exact .other (by simp)
  case dismiss c =>
    obtain rfl := Option.some.inj h
    refine .other fun chore' hmem => ?_
    obtain ⟨w, -, hmem⟩ := List.mem_flatMap.1 hmem
    simp only [List.mem_cons, List.not_mem_nil, or_false] at hmem
    rcases hmem with rfl | rfl <;> rfl
  all_goals
    obtain rfl := Option.some.inj h
    exact .other (by simp [isDrain])

end Chore

/-! ## Rests between signs of life -/

/-- Bounds for the rests in the parts that have no sign of life in them, and a sharper one for the
parts at the end. -/
structure Measured (ticks : List Tick) (slack : Nat) : Prop where
  part_le : ∀ part, part <:+: ticks → .pulse ∉ part →
    part.count .rest ≤ (Chore.pulseSteps - 1) * part.count .begun + Chore.pulseSteps
  last_le : ∀ part, part <:+ ticks → .pulse ∉ part →
    part.count .rest ≤ (Chore.pulseSteps - 1) * part.count .begun + slack

namespace Measured

variable {slack slack' : Nat}

theorem nil : Measured [] 0 where
  part_le part h _ := by simp [List.infix_nil.1 h]
  last_le part h _ := by simp [List.suffix_nil.1 h]

theorem mono (h : Measured ticks slack) (hle : slack ≤ slack') : Measured ticks slack' where
  part_le := h.part_le
  last_le part hpart hquiet := by
    have hbound := h.last_le part hpart hquiet
    omega

/-- It is enough to look at the parts that a new tick ends. -/
theorem concat {tick : Tick} (h : Measured ticks slack) (hslack : slack' ≤ Chore.pulseSteps)
    (hlast : ∀ part, part <:+ ticks → .pulse ∉ part ++ [tick] →
      (part ++ [tick]).count .rest ≤
        (Chore.pulseSteps - 1) * (part ++ [tick]).count .begun + slack') :
    Measured (ticks ++ [tick]) slack' := by
  have hlast' : ∀ part, part <:+ ticks ++ [tick] → .pulse ∉ part →
      part.count .rest ≤ (Chore.pulseSteps - 1) * part.count .begun + slack' := by
    intro part hpart hquiet
    rcases List.suffix_concat_iff.1 hpart with rfl | ⟨part, rfl, hsuffix⟩
    · exact Nat.zero_le _
    · exact hlast part hsuffix hquiet
  refine ⟨fun part hpart hquiet => ?_, hlast'⟩
  rcases List.infix_concat_iff.1 hpart with hpart | hpart
  · have hbound := hlast' part hpart hquiet
    omega
  · exact h.part_le part hpart hquiet

theorem started (h : Measured ticks Chore.pulseSteps) : Measured (ticks ++ [.begun]) 1 := by
  refine h.concat (by decide) fun part hpart hquiet => ?_
  have hbound := h.last_le part hpart fun hmem => hquiet (List.mem_append_left _ hmem)
  have hrest : (part ++ [Tick.begun]).count .rest = part.count .rest := by simp
  have hbegun : (part ++ [Tick.begun]).count .begun = part.count .begun + 1 := by simp
  rw [hrest, hbegun]
  unfold Chore.pulseSteps at *
  omega

theorem rested (h : Measured ticks slack) (hslack : slack < Chore.pulseSteps) :
    Measured (ticks ++ [.rest]) (slack + 1) := by
  refine h.concat hslack fun part hpart hquiet => ?_
  have hbound := h.last_le part hpart fun hmem => hquiet (List.mem_append_left _ hmem)
  have hrest : (part ++ [Tick.rest]).count .rest = part.count .rest + 1 := by simp
  have hbegun : (part ++ [Tick.rest]).count .begun = part.count .begun := by simp
  rw [hrest, hbegun]
  omega

/-- No part that a sign of life ends is without one. -/
theorem renewed (h : Measured ticks slack) : Measured (ticks ++ [.pulse]) 0 :=
  h.concat (Nat.zero_le _) fun part _ hquiet =>
    absurd (List.mem_append_right part (List.mem_singleton_self _)) hquiet

end Measured

/-- The rests since the last sign of life that the first chore accounts for, or may yet make. -/
def slack : List Chore → Nat
  | .drain _ _ steps _ :: _ => steps + 1
  | _ => Chore.pulseSteps

theorem slack_of_isDrain (h : ∀ chore ∈ chores, chore.isDrain = false) :
    slack chores = Chore.pulseSteps := by
  cases chores with
  | nil => rfl
  | cons chore rest =>
    have hchore := h chore List.mem_cons_self
    cases chore <;> first | rfl | contradiction

/-- What is kept while chores are done: only the first of them is a drain, and its count has not
reached the bound. -/
structure Beating (ticks : List Tick) (chores : List Chore) : Prop where
  measured : Measured ticks (slack chores)
  slack_le : slack chores ≤ Chore.pulseSteps
  tail : ∀ chore ∈ chores.tail, chore.isDrain = false

namespace Beating

theorem start (h : ∀ chore ∈ chores, chore.isDrain = false) : Beating [] chores where
  measured := Measured.nil.mono (Nat.zero_le _)
  slack_le := Nat.le_of_eq (slack_of_isDrain h)
  tail chore hmem := h chore (List.mem_of_mem_tail hmem)

theorem step (h : Beating ticks (chore :: rest)) (hbeat : Chore.Beat now chore ticks' chores') :
    Beating (ticks ++ ticks') (chores' ++ rest) := by
  have hrest : ∀ chore ∈ rest, chore.isDrain = false := h.tail
  have hone : 1 ≤ Chore.pulseSteps := by decide
  cases hbeat with
  | begin c place => exact ⟨h.measured.started, hone, hrest⟩
  | rest c place due hlt => exact ⟨h.measured.rested hlt, hlt, hrest⟩
  | pulse c place steps due =>
    rw [List.append_cons]
    exact ⟨h.measured.renewed.rested (by decide), hone, hrest⟩
  | other hnone =>
    have hall : ∀ chore ∈ chores' ++ rest, chore.isDrain = false :=
      List.forall_mem_append.2 ⟨hnone, hrest⟩
    have hslack := slack_of_isDrain hall
    rw [List.append_nil]
    exact ⟨h.measured.mono (hslack ▸ h.slack_le), Nat.le_of_eq hslack,
      fun chore hmem => hall chore (List.mem_of_mem_tail hmem)⟩

end Beating

theorem Paced.beating (h : Paced now f chores ticks now' f' rest)
    (hchores : ∀ chore ∈ chores, chore.isDrain = false) : Beating ticks rest := by
  induction h with
  | start => exact .start hchores
  | wait _ _ ih => exact ih
  | write _ _ _ ih => exact ih
  | chore _ hstep ih => exact ih.step (Chore.beat_of_step? hstep)

/-! ## Drains -/

namespace Chore

/-- The chore may change the size of a crew, or lead to a chore that does. -/
def manages (c : Category) : Chore → Bool
  | .inspect c' | .grow c' | .enlist c' | .shrink c' | .release c' | .dismiss c' => c' = c
  | _ => false

/-- The drains that may come of the chore and have not begun. -/
def weight (f : Fleet) : Chore → Nat
  | inspect c | grow c | resetAll c => (f.crew c).size
  | reset _ _ | shrink _ => 1
  | _ => 0

/-- After a chore that may change the size of a crew nothing is to be done about that crew. -/
def Settled (chores : List Chore) : Prop :=
  chores.Pairwise fun x y => ∀ c, x.manages c = true → y.concerns c = false

variable {log : List Entry} {c : Category} {chore' : Chore}

theorem weight_eq (h : ∀ c, chore.concerns c = true → (f'.crew c).size = (f.crew c).size) :
    chore.weight f' = chore.weight f := by
  cases chore with
  | inspect c | grow c | resetAll c => exact h c (by simp [concerns])
  | _ => rfl

theorem manages_of_isAside (h : chore.isAside = true) : chore.manages c = false := by
  cases chore <;> simp_all [isAside, manages]

theorem weight_of_isAside (h : chore.isAside = true) : chore.weight f = 0 := by
  cases chore <;> simp_all [isAside, weight]

theorem sum_weight_reset (f : Fleet) (c : Category) (places : List Nat) :
    ((places.map (reset c)).map (weight f)).sum = places.length := by
  induction places with
  | nil => rfl
  | cons place places ih =>
    rw [List.map_cons, List.map_cons, List.sum_cons, ih, List.length_cons, Nat.add_comm]
    rfl

namespace Deed

theorem manages (d : Deed now f t chore log chores' f') (hmem : chore' ∈ chores')
    (h : chore'.manages c = true) : chore.manages c = true := by
  cases d with
  | @inspect c' ms' f' hfinds hposts ha =>
    generalize (finding c' now f t).verdict = v at hmem
    cases v <;> simp [ofVerdict] at hmem
    · obtain ⟨place, -, rfl⟩ := hmem
      exact absurd h (by simp [Chore.manages])
    all_goals
      rw [hmem] at h
      exact h
  | resetAll c' =>
    obtain ⟨place, -, rfl⟩ := List.mem_map.1 hmem
    exact absurd h (by simp [Chore.manages])
  | grow | shrink =>
    simp only [List.mem_cons, List.not_mem_nil, or_false] at hmem
    rcases hmem with rfl | rfl
    · exact absurd h (by simp [Chore.manages])
    · exact h
  | reset | wait =>
    obtain rfl := List.mem_singleton.1 hmem
    exact absurd h (by simp [Chore.manages])
  | release hchores | dismiss hchores =>
    exact absurd h (by simp [manages_of_isAside (hchores chore' hmem)])
  | _ => exact absurd hmem List.not_mem_nil

theorem settled (d : Deed now f t chore log chores' f') : Settled chores' := by
  have hresets : ∀ (c : Category) (places : List Nat), Settled (places.map (Chore.reset c)) := by
    intro c places
    refine List.pairwise_map.2 (List.pairwise_of_forall fun _ _ c h => ?_)
    exact absurd h (by simp [Chore.manages])
  have hasides : (∀ chore ∈ chores', chore.isAside = true) → Settled chores' := by
    refine fun h => List.pairwise_of_forall_mem_list fun x hx y _ c hc => ?_
    exact absurd hc (by simp [manages_of_isAside (h x hx)])
  cases d with
  | @inspect c' ms' f' hfinds hposts ha =>
    generalize (finding c' now f t).verdict = v
    cases v with
    | rebalance places => exact hresets c' places
    | hold => exact .nil
    | _ => exact List.pairwise_singleton _ _
  | resetAll c' => exact hresets c' _
  | grow | shrink => simp [Settled, Chore.manages]
  | reset | wait => exact List.pairwise_singleton _ _
  | release hchores | dismiss hchores => exact hasides hchores
  | _ => exact .nil

/-- A chore leads to no more drains than its weight says. -/
theorem weight_le (d : Deed now f t chore log chores' f')
    (hsize : ∀ c, chore = .inspect c → (f'.crew c).size = (f.crew c).size) :
    (chores'.map (weight f')).sum ≤ chore.weight f := by
  have hasides : (∀ chore ∈ chores', chore.isAside = true) → (chores'.map (weight f')).sum = 0 := by
    intro h
    have hzero : chores'.map (weight f') = chores'.map fun _ => 0 :=
      List.map_congr_left fun x hx => weight_of_isAside (h x hx)
    simp [hzero]
  cases d with
  | @inspect c' ms' f' hfinds hposts ha =>
    have hlen : (manned c' now f t).1.length = (f.crew c').size :=
      (found_replaceDead c' now (f.crew c').members (f, t)).1
    have hsame := hsize c' rfl
    generalize (finding c' now f t).verdict = v at hfinds
    cases hfinds with
    | rebalance hdue hhot =>
      have hplaces : (f.policy.hotPlaces (manned c' now f t).1).length ≤
          (manned c' now f t).1.length := by
        unfold Policy.hotPlaces
        rw [List.length_map]
        exact Nat.le_trans (List.length_filter_le ..) (Nat.le_of_eq List.length_zipIdx)
      rw [hlen] at hplaces
      exact Nat.le_trans (Nat.le_of_eq (sum_weight_reset f' c' _)) hplaces
    | grow hgrows =>
      simp [ofVerdict, weight, hsame]
    | calm hnone hv htallies =>
      rcases hv with rfl | ⟨rfl, -, hmany, -⟩
      · exact Nat.zero_le _
      · rw [hlen] at hmany
        exact Nat.le_of_lt hmany
  | resetAll c' =>
    rw [sum_weight_reset, List.length_range, length_tallies]
    exact Nat.le_refl _
  | grow | shrink | reset | wait => simp [weight]
  | release hchores | dismiss hchores =>
    rw [hasides hchores]
    exact Nat.zero_le _
  | _ => exact Nat.zero_le _

end Deed

theorem Beat.count_begun (h : Beat now chore ticks chores') (f f' : Fleet) :
    ticks.count .begun = 0 ∨ ticks.count .begun = 1 ∧ chore.weight f = 1 ∧
      (chores'.map (weight f')).sum = 0 := by
  cases h with
  | begin c place => exact .inr ⟨rfl, rfl, rfl⟩
  | _ => exact .inl rfl

end Chore

/-- What is kept while chores are done: the drains begun and those that may come are no more than
the writers of the crews at first. -/
structure Weighed (writers : Nat) (ticks : List Tick) (f : Fleet) (chores : List Chore) : Prop where
  le : ticks.count .begun + (chores.map (Chore.weight f)).sum ≤ writers
  settled : Chore.Settled chores

theorem Weighed.step {writers : Nat} (h : Weighed writers ticks f (chore :: rest))
    (hstep : chore.step? now f t = some turn) :
    Weighed writers (ticks ++ chore.ticks turn) turn.fleet (turn.chores ++ rest) := by
  have hdeed := Chore.deed_of_step? hstep
  have hmove := Chore.move_of_step? hstep
  obtain ⟨hhead, hrest⟩ := List.pairwise_cons.1 h.settled
  have hsize : ∀ c, chore ≠ .enlist c → chore ≠ .release c → chore ≠ .dismiss c →
      (turn.fleet.crew c).size = (f.crew c).size := by
    intro c henlist hrelease hdismiss
    have hlen := hmove.length_eq c henlist hrelease hdismiss
    rwa [length_posts, length_posts] at hlen
  -- a chore that changes the size of a crew comes last of those about the crew
  have hweights : rest.map (Chore.weight turn.fleet) = rest.map (Chore.weight f) := by
    refine List.map_congr_left fun x hx => Chore.weight_eq fun c hc => hsize c ?_ ?_ ?_
    all_goals
      rintro rfl
      have hnot := hhead x hx c (by simp [Chore.manages])
      simp [hc] at hnot
  have hweight := hdeed.weight_le fun c he => hsize c (by simp [he]) (by simp [he]) (by simp [he])
  have hle := h.le
  constructor
  · rw [List.map_append, List.sum_append, hweights, List.count_append]
    rw [List.map_cons, List.sum_cons] at hle
    rcases (Chore.beat_of_step? hstep).count_begun f turn.fleet with
      hbegun | ⟨hbegun, hone, hnone⟩ <;> omega
  · refine List.pairwise_append.2 ⟨hdeed.settled, hrest, fun x hx y hy c hc => ?_⟩
    exact hhead y hy c (hdeed.manages hx hc)

theorem Paced.weighed {writers : Nat} (h : Paced now f chores ticks now' f' rest)
    (hchores : Weighed writers [] f chores) : Weighed writers ticks f' rest := by
  induction h with
  | start => exact hchores
  | wait _ _ ih => exact ih
  | @write ticks n g rest t w turn _ _ _ ih =>
    have hsize : ∀ c, ((g.replace turn.writer).crew c).size = (g.crew c).size := by
      intro c
      rw [← length_tallies, ← length_tallies, sheet_replace]
    refine ⟨?_, ih.settled⟩
    have hweights : rest.map (Chore.weight (g.replace turn.writer)) = rest.map (Chore.weight g) :=
      List.map_congr_left fun x _ => Chore.weight_eq fun c _ => hsize c
    rw [hweights]
    exact ih.le
  | chore _ hstep ih => exact ih.step hstep

/-! ## Checks and dismissals -/

/-- How a check or a dismissal of a fleet keeps its owner alive. -/
structure Pulsed (f : Fleet) (ticks : List Tick) : Prop where
  /-- Without a sign of life one drain makes `pulseSteps` rests at most, and every further drain
  fewer than that. -/
  gap : ∀ part, part <:+: ticks → .pulse ∉ part →
    part.count .rest ≤ (Chore.pulseSteps - 1) * part.count .begun + Chore.pulseSteps
  /-- Every writer is drained once at most. -/
  drains : ticks.count .begun ≤ (f.crew .general).size + (f.crew .bulk).size

theorem weighed_assigned (f : Fleet) (h : chores = checkChores ∨ chores = shutdownChores) :
    Weighed ((f.crew .general).size + (f.crew .bulk).size) [] f chores := by
  rcases h with rfl | rfl
  · exact ⟨by simp [checkChores, Category.all, Chore.weight],
      by simp [checkChores, Category.all, Chore.Settled, Chore.manages, Chore.concerns]⟩
  · exact ⟨by simp [shutdownChores, Category.all, Chore.weight],
      by simp [shutdownChores, Category.all, Chore.Settled, Chore.manages, Chore.concerns]⟩

theorem Paced.pulsed (h : Paced now f chores ticks now' f' rest)
    (hchores : chores = checkChores ∨ chores = shutdownChores) : Pulsed f ticks where
  gap := by
    refine (h.beating ?_).measured.part_le
    rcases hchores with rfl | rfl <;> decide
  drains := by
    have hle := (h.weighed (weighed_assigned f hchores)).le
    omega

/-! ## Two drains -/

/-- There is a writer at the place, which is still working, and requests in its queue. -/
def isBusy (f : Fleet) (c : Category) (place : Nat) : Bool :=
  (f.member? ⟨c, place⟩).any fun m => m.depth ≠ 0 ∧ m.writer.isClosed = false

theorem Chore.drainStep_of_isBusy {place steps : Nat} (h : f.isBusy c place = true)
    (hsteps : steps + 1 < pulseSteps) (now : Nat) (t : Store) :
    drainStep c place steps now f t =
      { chores := [drain c place (steps + 1) (now + 1)], fleet := f, store := t } := by
  obtain ⟨m, hm, hbusy⟩ := (Option.any_eq_true ..).1 h
  obtain ⟨hdepth, hopen⟩ := of_decide_eq_true hbusy
  unfold drainStep
  rw [hm]
  dsimp only
  rw [if_neg (by simp [hdepth, hopen]), if_neg (Nat.not_le.2 hsteps)]

namespace Paced

variable {place steps : Nat}

/-- A drain rests as long as its writer is busy. -/
theorem stall (h : Paced now f chores ticks now' f' (.drain c place steps now' :: rest))
    (hbusy : f'.isBusy c place = true) (k : Nat) (hsteps : steps + k < Chore.pulseSteps) :
    Paced now f chores (ticks ++ List.replicate k .rest) (now' + k) f'
      (.drain c place (steps + k) (now' + k) :: rest) := by
  induction k with
  | zero => rwa [List.replicate_zero, List.append_nil]
  | succ k ih =>
    have hstep : Chore.step? (now' + k) f' {} (.drain c place (steps + k) (now' + k)) =
        some
          { chores := [.drain c place (steps + k + 1) (now' + k + 1)], fleet := f'
            store := {} } := by
      have hlt : steps + k + 1 < Chore.pulseSteps := hsteps
      rw [Chore.step?, if_pos (Nat.le_refl _), Chore.drainStep_of_isBusy hbusy hlt]
    rw [List.replicate_succ', ← List.append_assoc]
    exact ((ih (by omega)).chore hstep).wait (Nat.le_succ (now' + k))

/-- A writer that is busy is drained. -/
theorem drain (h : Paced now f chores ticks now' f' (.reset c place :: rest))
    (hbusy : f'.isBusy c place = true) :
    Paced now f chores (ticks ++ [.begun]) now' f' (.drain c place 0 now' :: rest) := by
  obtain ⟨m, hm, -⟩ := (Option.any_eq_true ..).1 hbusy
  have hstep : Chore.step? now' f' {} (.reset c place) =
      some
        { chores := [.drain c place 0 now'], fleet := f', store := {}
          notes := [.writerResetting c m.writer.id m.depth] } := by
    rw [Chore.step?, hm]
  exact h.chore hstep

/-- A drain that leaves nothing to be done is over. -/
theorem clear {due : Nat} (h : Paced now f chores ticks now' f' (.drain c place steps due :: rest))
    (hdue : due ≤ now') (hdone : (Chore.drainStep c place steps now' f' {}).chores = []) :
    Paced now f chores ticks now' (Chore.drainStep c place steps now' f' {}).fleet rest := by
  have hstep : Chore.step? now' f' {} (.drain c place steps due) =
      some (Chore.drainStep c place steps now' f' {}) := by
    rw [Chore.step?, if_pos hdue]
  have hover : (Chore.drain c place steps due).ticks (Chore.drainStep c place steps now' f' {}) =
      [] := by
    have hbeat := Chore.beat_drain c place steps due now' f' {}
    rw [hdone] at hbeat
    generalize (Chore.drain c place steps due).ticks _ = shown at hbeat ⊢
    cases hbeat
    rfl
  have hrun := h.chore hstep
  rwa [hover, hdone, List.append_nil, List.nil_append] at hrun

/-- All writers go on until they wait. -/
theorem settle {b : Dispatch.Bench} (h : Paced now f chores ticks b.now b.dispatch.fleet rest)
    (htasks : b.tasks = []) (fuel : Nat) :
    Paced now f chores ticks (Timed.settle fuel b).now (Timed.settle fuel b).dispatch.fleet
      rest := by
  induction fuel generalizing b with
  | zero => exact h
  | succ fuel ih =>
    unfold Timed.settle
    cases hs : Timed.step? b with
    | none => exact h
    | some b' =>
      have hnone : b.tasks = ([] : List Chore).map .chore := htasks
      rcases bench_step_cases hnone hs with
        ⟨chore, rest', turn, hnil, -⟩ | ⟨w, turn, hw, hstep, hnow, hfleet, htasks'⟩
      · contradiction
      · have hrun := h.write hw hstep
        rw [← hnow, ← hfleet] at hrun
        exact ih hrun htasks'

end Paced

/-- Statements take three seconds. The first writer has one to come after the one it is at, the
second one two. -/
def slowBench : Dispatch.Bench :=
  let p : Policy := { samplePolicy with writer := { samplePolicy.writer with window := 10000 } }
  let (f, store) := Fleet.start p 0 { latency := 3000 }
  Timed.settle 40
    { store
      dispatch :=
        { fleet := (f.deliver .general "a" 2).deliver .general "b" 3
          backlog := { capacity := 1 } } }

def slowFleet : Fleet := slowBench.dispatch.fleet

/-- Three seconds later the two writers have turned to their next statements. -/
def laterFleet : Fleet := (Timed.settle 40 { slowBench with now := 3000 }).dispatch.fleet

/-- Then the first writer is reset. -/
def clearedFleet : Fleet := (Chore.drainStep .general 0 3000 3000 laterFleet {}).fleet

/-- The fleet is dismissed: the writers are drained for three seconds each. -/
theorem paced_slowFleet :
    Paced 0 slowFleet shutdownChores
      ([.begun] ++ List.replicate 3000 .rest ++ [.begun] ++ List.replicate 3000 .rest) 6000
      clearedFleet
      [.drain .general 1 3000 6000, .dismiss .general, .resetAll .bulk, .dismiss .bulk] := by
  have hresets : Chore.step? 0 slowFleet {} (.resetAll .general) =
      some
        { chores := [.reset .general 0, .reset .general 1], fleet := slowFleet, store := {}
          notes := [.drainingAll .general] } := by
    have hsize : (slowFleet.crew .general).size = 2 := by decide +kernel
    rw [Chore.step?, hsize]
    rfl
  have hstart : Paced 0 slowFleet shutdownChores [] 0 slowFleet
      [.resetAll .general, .dismiss .general, .resetAll .bulk, .dismiss .bulk] := .start
  have hfirst := ((hstart.chore hresets).drain (by decide +kernel)).stall
    (by decide +kernel) 3000 (by decide)
  have hlater : Paced 0 slowFleet shutdownChores ([.begun] ++ List.replicate 3000 .rest) 3000
      laterFleet [.drain .general 0 3000 3000, .reset .general 1, .dismiss .general,
        .resetAll .bulk, .dismiss .bulk] := by
    have hnow : (Timed.settle 40 { slowBench with now := 3000 }).now = 3000 := by decide +kernel
    have hsettled :=
      Paced.settle (b := { slowBench with now := 3000 }) hfirst (by decide +kernel) 40
    rwa [hnow] at hsettled
  have hcleared := hlater.clear (Nat.le_refl 3000) (by decide +kernel)
  exact (hcleared.drain (by decide +kernel)).stall (by decide +kernel) 3000 (by decide)

theorem pulsed_sample :
    ∃ ticks now f rest, Paced 0 slowFleet shutdownChores ticks now f rest ∧
      ticks.count .begun = 2 ∧ Pulsed slowFleet ticks := by
  refine ⟨_, _, _, _, paced_slowFleet, ?_, Paced.pulsed paced_slowFleet (.inr rfl)⟩
  simp only [List.count_append, List.count_replicate]
  rfl

/-- The rests of both drains together are more than `pulseSteps`, with no sign of life between. -/
theorem drains_outlast_pulses :
    ∃ ticks now f rest, Paced 0 slowFleet shutdownChores ticks now f rest ∧ .pulse ∉ ticks ∧
      Chore.pulseSteps < ticks.count .rest := by
  refine ⟨_, _, _, _, paced_slowFleet, ?_, ?_⟩
  · simp only [List.mem_append, List.mem_singleton, List.mem_replicate, reduceCtorEq, and_false,
      or_self, not_false_eq_true]
  · simp only [List.count_append, List.count_replicate_self]
    decide

end BmpFeed.Fleet
