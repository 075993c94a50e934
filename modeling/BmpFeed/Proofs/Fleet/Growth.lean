import BmpFeed.Proofs.Fleet.Log

/-!
# Growth takes sustained load

The count that a crew keeps of a writer is what the record says of it: how often a check found the
queue above the high watermark since one found it below the low watermark, up to one more than is
tolerated. Checks that rebalance are left out, and a reset begins anew. A check that does not
rebalance makes a crew grow when there is room for a writer and one whose count is used up is above
the watermark once more; then all are reset, also those that the check did not come to.
-/

namespace BmpFeed.Fleet

/-! ## What the record says of a writer -/

namespace Entry

/-- The writer was reset. -/
def clears (id : Nat) : Entry → Bool
  | cleared _ w => w.id = id
  | _ => false

/-- The requests in the queue of the writer at a check that did not rebalance. -/
def depth? (id : Nat) : Entry → Option Nat
  | inspected _ _ _ (.rebalance _) => none
  | inspected _ _ ms _ => (ms.find? fun m => m.writer.id = id).map Member.depth
  | _ => none

end Entry

/-- The requests in the queue of a writer at the checks since its last reset, the latest first. -/
def depths (id : Nat) (log : List Entry) : List Nat :=
  (log.takeWhile fun e => !e.clears id).filterMap (Entry.depth? id)

/-- How often a queue was above the high watermark since it was below the low one. -/
def Policy.sustained (p : Policy) (depths : List Nat) : Nat :=
  (depths.takeWhile fun d => ¬d * 5 < p.queueSize).countP fun d => p.queueSize * 3 < d * 4

variable {p : Policy} {es es' : List Event} {log log' : List Entry} {now now' : Nat}
  {f f' : Fleet} {t : Store} {c c' : Category} {place place' : Nat} {chore : Chore}
  {chores chores' rest : List Chore} {e : Entry} {id : Nat} {ms : List Member} {m : Member}
  {a a' : Tally}

theorem depths_cons (h : e.clears id = false) (log : List Entry) :
    depths id (e :: log) = (e.depth? id).toList ++ depths id log := by
  unfold depths
  rw [List.takeWhile_cons_of_pos (by simp [h]), List.filterMap_cons]
  cases e.depth? id <;> rfl

theorem depths_of_clears (h : e.clears id = true) (log : List Entry) :
    depths id (e :: log) = [] := by
  unfold depths
  rw [List.takeWhile_cons_of_neg (by simp [h])]
  rfl

theorem depths_of_none (hclears : e.clears id = false) (hdepth : e.depth? id = none)
    (log : List Entry) : depths id (e :: log) = depths id log := by
  rw [depths_cons hclears, hdepth]
  rfl

/-- A writer that a check did not find. -/
theorem depths_of_not_mem (h : ∀ m ∈ ms, m.writer.id ≠ id) (v : Verdict) (log : List Entry) :
    depths id (.inspected c now ms v :: log) = depths id log := by
  refine depths_of_none rfl ?_ log
  have hnone : (ms.find? fun m => m.writer.id = id) = none :=
    List.find?_eq_none.2 fun m hm => by simpa using h m hm
  cases v <;> simp [Entry.depth?, hnone]

/-- A writer that a check found. -/
theorem depths_of_mem (hnodup : (ms.map fun m => m.writer.id).Nodup) (hm : m ∈ ms) {v : Verdict}
    (hv : ∀ places, v ≠ .rebalance places) (log : List Entry) :
    depths m.writer.id (.inspected c now ms v :: log) =
      m.depth :: depths m.writer.id log := by
  have hfind : (ms.find? fun u => u.writer.id = m.writer.id) = some m := by
    cases hu : ms.find? fun u => u.writer.id = m.writer.id with
    | none => simpa using List.find?_eq_none.1 hu m hm
    | some u =>
      have hid : u.writer.id = m.writer.id := by simpa using List.find?_some hu
      rw [List.inj_on_of_nodup_map hnodup (List.mem_of_find?_eq_some hu) hm hid]
  have hdepth : (Entry.inspected c now ms v).depth? m.writer.id = some m.depth := by
    cases v with
    | rebalance places => exact absurd rfl (hv places)
    | _ => simp [Entry.depth?, hfind]
  rw [depths_cons rfl, hdepth]
  rfl

namespace Policy

theorem sustained_cons (d : Nat) (ds : List Nat) :
    p.sustained (d :: ds) = if d * 5 < p.queueSize then 0
      else p.sustained ds + if p.queueSize * 3 < d * 4 then 1 else 0 := by
  unfold sustained
  split_ifs with hlow hhigh
  · rw [List.takeWhile_cons_of_neg (by simpa using hlow)]
    rfl
  · rw [List.takeWhile_cons_of_pos (by simpa using hlow),
      List.countP_cons_of_pos (by simpa using hhigh)]
  · rw [List.takeWhile_cons_of_pos (by simpa using hlow),
      List.countP_cons_of_neg (by simpa using hhigh)]
    rfl

/-- A check that does not rebalance makes a crew grow because of a member whose count is used up. -/
theorem Finds.grow_iff {rebalanceDue shrinkDue : Bool} {ms' : List Member} {v : Verdict}
    (h : p.Finds rebalanceDue shrinkDue ms v ms') (hverdict : ∀ places, v ≠ .rebalance places)
    (hmost : ∀ m ∈ ms, m.above ≤ p.allowedOver + 1) :
    v = .grow ↔ ms.length < p.maxWriters ∧
      ∃ m ∈ ms, p.queueSize * 3 < m.depth * 4 ∧ m.above = p.allowedOver + 1 := by
  constructor
  · rintro rfl
    cases h with
    | grow hpress =>
      obtain ⟨m, hm, hu⟩ := List.any_eq_true.1 hpress
      obtain ⟨hhigh, hover, hroom⟩ := p.isPressing_iff.1 hu
      have hle := hmost m hm
      exact ⟨hroom, m, hm, hhigh, by omega⟩
    | calm _ hv => simp at hv
  · rintro ⟨hroom, m, hm, hhigh, hover⟩
    cases h with
    | rebalance => exact absurd rfl (hverdict _)
    | grow => rfl
    | calm hnone =>
      have hpress : p.isPressing ms.length m = true :=
        p.isPressing_iff.2 ⟨hhigh, by omega, hroom⟩
      exact absurd hpress (by simp [List.any_eq_false.1 hnone m hm])

/-- A check that weighs a member counts what the record says. -/
theorem counted_eq {ds : List Nat} (h : m.above = min (p.allowedOver + 1) (p.sustained ds)) :
    p.counted m = min (p.allowedOver + 1) (p.sustained (m.depth :: ds)) := by
  rw [sustained_cons]
  unfold counted
  simp only [isHigh_iff, isLow_iff, isOverdue_iff]
  split_ifs <;> omega

end Policy

/-! ## The count of a writer -/

/-- The count is what the record says of the writer. -/
def Tally.Counts (p : Policy) (log : List Entry) (a : Tally) : Prop :=
  a.above = min (p.allowedOver + 1) (p.sustained (depths a.id log))

theorem Tally.Counts.cons (h : a.Counts p log) (hclears : e.clears a.id = false)
    (hdepth : e.depth? a.id = none) : a.Counts p (e :: log) := by
  unfold Counts
  rw [depths_of_none hclears hdepth]
  exact h

/-- A writer of which nothing is on record. -/
theorem Tally.Counts.of_nil (habove : a.above = 0) (hnil : depths a.id log = []) :
    a.Counts p log := by
  unfold Counts
  rw [habove, hnil]
  rfl

/-- The chore is there to reset the writer at the place, perhaps with others. -/
def Chore.Awaits (c : Category) (place : Nat) : Chore → Prop
  | .reset c' place' | .drain c' place' _ _ => c' = c ∧ place' = place
  | .resetAll c' | .grow c' => c' = c
  | _ => False

/-- None of the chores is there to reset the writer at the place. -/
def Unawaited (c : Category) (place : Nat) (chores : List Chore) : Prop :=
  ∀ chore ∈ chores, ¬chore.Awaits c place

/-- How the counts of a fleet stand to its record. -/
structure Gauged (p : Policy) (log : List Entry) (f : Fleet) (chores : List Chore) : Prop where
  /-- The count is right unless the writer is to be reset. -/
  counts : ∀ c place a, (f.sheet c).tallies[place]? = some a → Unawaited c place chores →
    a.Counts p log
  /-- Nothing is on record of a writer that is still to be hired. -/
  fresh : ∀ id, f.nextId ≤ id → depths id log = []
  /-- Before a crew grows there is room for a writer. -/
  room : ∀ c, .grow c ∈ chores → (f.sheet c).tallies.length < p.maxWriters

/-- Nothing has been counted of the first writers. -/
theorem recruit_above (c : Category) (now n : Nat) (s : Fleet × Store) (c' : Category) :
    ∀ a ∈ ((recruit c now n s).1.sheet c').tallies, a ∈ (s.1.sheet c').tallies ∨ a.above = 0 := by
  induction n generalizing s with
  | zero => exact fun a ha => .inl ha
  | succ n ih =>
    intro a ha
    unfold recruit at ha
    rcases ih _ a ha with ha | habove
    · by_cases hc : c' = c
      · subst hc
        simp only [sheet, setMembers, crew_setCrew, List.map_append, List.mem_append] at ha
        rcases ha with ha | ha
        · exact .inl (by cases c' <;> exact ha)
        · obtain rfl := List.mem_singleton.1 ha
          exact .inr rfl
      · rw [sheet, setMembers, crew_setCrew_of_ne _ _ hc] at ha
        exact .inl (by cases c' <;> exact ha)
    · exact .inr habove

namespace Gauged

/-- The members that a check finds are counted by the record. -/
theorem counts_manned (h : Gauged p log f chores) (now : Nat) (t : Store)
    (hm : (Chore.manned c now f t).1[place]? = some m) (hfree : Unawaited c place chores) :
    m.tally.Counts p log := by
  obtain ⟨old, hold, hfound⟩ :=
    (Chore.found_replaceDead c now (f.crew c).members (f, t)).2 place m hm
  rcases hfound with ⟨-, rfl⟩ | ⟨-, hid, htally, -⟩
  · refine h.counts c place m.tally ?_ hfree
    rw [sheet, List.getElem?_map, hold, Option.map_some]
  · exact .of_nil (congrArg Tally.above htally) (h.fresh _ hid)

/-- A check leaves the right counts, unless the crew is to grow. -/
theorem counts_finds (hp : f.policy = p) (hnodup : (ms.map fun m => m.writer.id).Nodup)
    (hcounts : ∀ m, ms[place]? = some m → m.tally.Counts p log) {v : Verdict}
    {rebalanceDue shrinkDue : Bool} {ms' : List Member} (hgrow : v ≠ .grow)
    (hfinds : f.policy.Finds rebalanceDue shrinkDue ms v ms')
    (ha : (ms'.map Member.tally)[place]? = some a) :
    a.Counts p (.inspected c now ms v :: log) := by
  cases hfinds with
  | rebalance hdue hhot =>
    unfold Policy.rebalanced at ha
    rw [List.map_map, List.getElem?_map] at ha
    obtain ⟨m, hm, rfl⟩ := Option.map_eq_some_iff.1 ha
    have hsame : ((Member.tally ∘ fun m => if f.policy.isHot m then m else
        { m with running := m.depth }) m).score = m.tally.score := by
      simp only [Function.comp_apply]
      split_ifs <;> rfl
    obtain ⟨hid, habove⟩ := Prod.mk.inj hsame
    unfold Tally.Counts
    rw [depths_of_none rfl rfl, hid, habove]
    exact hcounts m hm
  | grow hpress => exact absurd rfl hgrow
  | calm hpress hv htallies =>
    have hverdict : ∀ places, v ≠ .rebalance places := by
      rcases hv with rfl | ⟨rfl, -⟩ <;> simp
    rw [htallies, List.getElem?_map] at ha
    obtain ⟨m, hm, rfl⟩ := Option.map_eq_some_iff.1 ha
    unfold Tally.Counts
    dsimp only
    rw [depths_of_mem hnodup (List.mem_of_getElem? hm) hverdict, hp]
    exact Policy.counted_eq (hcounts m hm)

theorem inspect_step {ms' : List Member} (h : Gauged p log f (.inspect c' :: chores))
    (hp : f.policy = p) (hrun' : Run p es' now f' (chores' ++ chores))
    (hfinds : f.policy.Finds (Chore.rebalanceDue c' now f) (Chore.shrinkDue c' now f)
      (Chore.manned c' now f t).1 (Chore.finding c' now f t).verdict ms')
    (hposts : ms'.map Member.post = (Chore.manned c' now f t).1.map Member.post)
    (htallies : (f'.sheet c').tallies = ms'.map Member.tally)
    (hother : ∀ c, c ≠ c' → f'.sheet c = f.sheet c)
    (hchores' : (Chore.ofVerdict c' (Chore.finding c' now f t).verdict).1 = chores')
    (ha : (f'.sheet c).tallies[place]? = some a) (hfree : Unawaited c place (chores' ++ chores)) :
    a.Counts p (.inspected c' now (Chore.manned c' now f t).1
      (Chore.finding c' now f t).verdict :: log) := by
  have hids : (f'.sheet c').tallies.map Tally.id =
      (Chore.manned c' now f t).1.map fun m => m.writer.id := by
    rw [htallies]
    exact ids_of_posts hposts
  have hfree' : Unawaited c place (.inspect c' :: chores) := by
    intro chore hmem
    rcases List.mem_cons.1 hmem with rfl | hmem
    · exact id
    · exact hfree chore (List.mem_append_right _ hmem)
  by_cases hc : c = c'
  · subst hc
    rw [htallies] at ha
    refine counts_finds hp (hids ▸ hrun'.nodup_tally_ids c)
      (fun m hm => h.counts_manned now t hm hfree') (fun hgrow => ?_) hfinds ha
    exact hfree (.grow c) (by simp [← hchores', hgrow, Chore.ofVerdict]) rfl
  · -- numbers of another crew are not found in this one
    have hnot : ∀ m ∈ (Chore.manned c' now f t).1, m.writer.id ≠ a.id := by
      intro m hm hid
      have hmem : m.writer.id ∈ (f'.sheet c').tallies.map Tally.id := by
        rw [hids]
        exact List.mem_map_of_mem hm
      obtain ⟨b, hb, hbid⟩ := List.mem_map.1 hmem
      obtain ⟨j, hj⟩ := List.mem_iff_getElem?.1 hb
      exact hc (hrun'.tally_inj hj ha (hbid.trans hid)).1
    rw [hother c hc] at ha
    unfold Tally.Counts
    rw [depths_of_not_mem hnot]
    exact h.counts c place a ha hfree'

theorem clear_step {steps due : Nat} (h : Gauged p log f (.drain c' place' steps due :: chores))
    (hrun : Run p es now f (.drain c' place' steps due :: chores))
    (hm : f.member? ⟨c', place'⟩ = some m)
    (htallies : (f'.sheet c').tallies = (f.sheet c').tallies.modify place' Tally.cleared)
    (hother : ∀ c, c ≠ c' → f'.sheet c = f.sheet c)
    (ha : (f'.sheet c).tallies[place]? = some a) (hfree : Unawaited c place chores) :
    a.Counts p (.cleared c' m.writer :: log) := by
  have hat := tally_of_member? hm
  by_cases hc : c = c' ∧ place = place'
  · obtain ⟨rfl, rfl⟩ := hc
    rw [htallies, List.getElem?_modify_eq, hat] at ha
    obtain rfl := Option.some.inj ha
    exact .of_nil rfl (depths_of_clears (by simp [Entry.clears, Tally.cleared, Tally.fresh]) log)
  · have ha' : (f.sheet c).tallies[place]? = some a := by
      by_cases hc' : c = c'
      · subst hc'
        have hplace : place' ≠ place := fun he => hc ⟨rfl, he.symm⟩
        rwa [htallies, List.getElem?_modify_ne _ _ hplace] at ha
      · rwa [hother c hc'] at ha
    have hne : m.writer.id ≠ a.id := fun hid => hc (hrun.tally_inj hat ha' hid)
    refine (h.counts c place a ha' fun chore hmem => ?_).cons
      (by simpa [Entry.clears] using hne) rfl
    rcases List.mem_cons.1 hmem with rfl | hmem
    · exact fun hwaits => hc ⟨hwaits.1.symm, hwaits.2.symm⟩
    · exact hfree chore hmem

theorem enlist_step (h : Gauged p log f (.enlist c' :: chores))
    (htallies : (f'.sheet c').tallies = (f.sheet c').tallies ++ [.fresh f.nextId])
    (hother : ∀ c, c ≠ c' → f'.sheet c = f.sheet c)
    (ha : (f'.sheet c).tallies[place]? = some a)
    (hfree : Unawaited c place (.enlist c' :: chores)) :
    a.Counts p (.resized c' now :: log) := by
  by_cases hc : c = c'
  · subst hc
    rw [htallies] at ha
    rcases Nat.lt_or_ge place (f.sheet c).tallies.length with hlt | hge
    · rw [List.getElem?_append_left hlt] at ha
      exact (h.counts c place a ha hfree).cons rfl rfl
    · rw [List.getElem?_append_right hge] at ha
      obtain rfl := List.mem_singleton.1 (List.mem_of_getElem? ha)
      exact (Tally.Counts.of_nil rfl (h.fresh _ (Nat.le_refl _))).cons rfl rfl
  · rw [hother c hc] at ha
    exact (h.counts c place a ha hfree).cons rfl rfl

/-- A step of a chore keeps the counts right. -/
theorem counts_step (h : Gauged p log f (chore :: chores)) (hp : f.policy = p)
    (hrun : Run p es now f (chore :: chores)) (hrun' : Run p es' now f' (chores' ++ chores))
    (d : Chore.Deed now f t chore log' chores' f') (ha : (f'.sheet c).tallies[place]? = some a)
    (hfree : Unawaited c place (chores' ++ chores)) : a.Counts p (log' ++ log) := by
  -- the counts were right before, unless the chore was there to reset the writer
  have hold : ∀ {a}, (f.sheet c).tallies[place]? = some a → ¬chore.Awaits c place →
      a.Counts p log := by
    intro a ha hchore
    refine h.counts c place a ha fun chore' hmem => ?_
    rcases List.mem_cons.1 hmem with rfl | hmem
    · exact hchore
    · exact hfree chore' (List.mem_append_right _ hmem)
  cases d with
  | aside haside hsheet =>
    rw [hsheet] at ha
    exact hold ha (by cases chore <;> simp_all [Chore.isAside, Chore.Awaits])
  | @absent _ c' place' hattends hplace =>
    refine hold ha fun hwaits => ?_
    have hlt := (List.getElem?_eq_some_iff.1 ha).1
    cases chore <;> simp only [Chore.Attends] at hattends
    all_goals
      obtain ⟨rfl, rfl⟩ := hattends
      obtain ⟨rfl, rfl⟩ := hwaits
      omega
  | inspect hfinds hposts hamends =>
    exact h.inspect_step hp hrun' hfinds hposts (by rw [hamends.sheet_eq]) hamends.other_eq rfl ha
      hfree
  | @reset c' place' hplace =>
    exact hold ha fun hwaits => hfree (.drain c' place' 0 now) (by simp) hwaits
  | wait c' place' steps due steps' =>
    exact hold ha fun hwaits => hfree (.drain c' place' steps' (now + 1)) (by simp) hwaits
  | clear steps due hm hqueue hamends =>
    exact h.clear_step hrun hm (by rw [hamends.sheet_eq]) hamends.other_eq ha hfree
  | resetAll c' =>
    refine hold ha fun hwaits => ?_
    obtain rfl : c' = c := hwaits
    have hlt := (List.getElem?_eq_some_iff.1 ha).1
    exact hfree (.reset c' place) (List.mem_append_left _ (List.mem_map_of_mem
      (List.mem_range.2 hlt))) ⟨rfl, rfl⟩
  | @full c' hfull =>
    have hroom := h.room c' List.mem_cons_self
    rw [hp] at hfull
    omega
  | @grow c' hroom => exact hold ha fun hwaits => hfree (.resetAll c') (by simp) hwaits
  | enlist hamends =>
    refine h.enlist_step (by rw [hamends.sheet_eq]) hamends.other_eq ha fun chore hmem => ?_
    rcases List.mem_cons.1 hmem with rfl | hmem
    · exact id
    · exact hfree chore hmem
  | small | shrink => exact hold ha id
  | @release c' chores' f' hchores hamends =>
    refine (hold ?_ id).cons rfl rfl
    by_cases hc : c = c'
    · subst hc
      rw [hamends.sheet_eq, List.getElem?_dropLast] at ha
      split_ifs at ha
      exact ha
    · rwa [hamends.other_eq c hc] at ha
  | @dismiss c' chores' f' hchores hamends =>
    by_cases hc : c = c'
    · subst hc
      rw [hamends.sheet_eq] at ha
      exact absurd ha (by simp)
    · rw [hamends.other_eq c hc] at ha
      exact hold ha id

theorem fresh_step (h : Gauged p log f (chore :: chores)) (hle : f.nextId ≤ f'.nextId)
    (hrun' : Run p es' now f' (chores' ++ chores))
    (d : Chore.Deed now f t chore log' chores' f') (hid : f'.nextId ≤ id) :
    depths id (log' ++ log) = [] := by
  have hold := h.fresh id (Nat.le_trans hle hid)
  cases d with
  | @inspect c ms' f' hfinds hposts hamends =>
    refine (depths_of_not_mem (fun m hm he => ?_) _ log).trans hold
    have hmem : m.writer.id ∈ (f'.sheet c).tallies.map Tally.id := by
      rw [hamends.sheet_eq, ids_of_posts hposts]
      exact List.mem_map_of_mem hm
    obtain ⟨b, hb, hbid⟩ := List.mem_map.1 hmem
    have hlt := hrun'.tally_lt hb
    omega
  | @clear c place m f' steps due hm hqueue hamends =>
    by_cases hclears : (Entry.cleared c m.writer).clears id = true
    · exact depths_of_clears hclears log
    · exact (depths_of_none (by simpa using hclears) rfl log).trans hold
  | enlist | release => exact (depths_of_none rfl rfl log).trans hold
  | _ => exact hold

/-- The crew of a category is to grow only if there is room. -/
theorem room_step (h : Gauged p log f (chore :: chores)) (hp : f.policy = p)
    (hrun : Run p es now f (chore :: chores)) (m : Chore.Move now f chore es' chores' f')
    (d : Chore.Deed now f t chore log' chores' f') (hmem : .grow c ∈ chores' ++ chores) :
    (f'.sheet c).tallies.length < p.maxWriters := by
  rcases List.mem_append.1 hmem with hmem | hmem
  · cases d with
    | @inspect c' ms' f' hfinds hposts hamends =>
      generalize (Chore.finding c' now f t).verdict = v at hfinds hmem
      have hlen := congrArg List.length hposts
      rw [List.length_map, List.length_map] at hlen
      cases hfinds with
      | grow hpress =>
        obtain rfl : c = c' := by simpa [Chore.ofVerdict] using hmem
        obtain ⟨u, -, hu⟩ := List.any_eq_true.1 hpress
        rw [hamends.sheet_eq, List.length_map, hlen, ← hp]
        exact (f.policy.isPressing_iff.1 hu).2.2
      | rebalance => simp [Chore.ofVerdict] at hmem
      | calm _ hv => rcases hv with rfl | ⟨rfl, -⟩ <;> simp [Chore.ofVerdict] at hmem
    | release hchores | dismiss hchores =>
      exact absurd (hchores _ hmem) (by simp [Chore.isAside])
    | resetAll => exact absurd hmem (by simp)
    | _ => exact absurd hmem (by simp)
  · have hne : chore ≠ .enlist c := by
      rintro rfl
      exact not_mem_of_countP_le_one (hrun.bounded.grows c) (by simp [Chore.grows])
        (by simp [Chore.grows]) hmem
    have hle := m.length_le hne
    rw [length_posts, length_posts, ← length_tallies, ← length_tallies] at hle
    exact Nat.lt_of_le_of_lt hle (h.room c (List.mem_cons_of_mem _ hmem))

theorem start (p : Policy) (now : Nat) (t : Store) :
    Gauged p [.founded now] (Fleet.start p now t).1 [] where
  counts c place a ha _ := by
    refine .of_nil ?_ rfl
    have hmem := List.mem_of_getElem? ha
    rcases recruit_above .bulk now _ _ c a hmem with hmem | habove
    · rcases recruit_above .general now _ _ c a hmem with hmem | habove
      · cases c <;> exact absurd hmem (by simp [sheet, crew])
      · exact habove
    · exact habove
  fresh _ _ := rfl
  room := by simp

theorem serve (h : Gauged p log f chores) (hs : f.Serves f') : Gauged p log f' chores where
  counts c place a ha hfree := by
    have hscore := congrArg (·[place]?) (hs.scores_eq c)
    simp only [List.getElem?_map, ha, Option.map_some] at hscore
    obtain ⟨b, hb, hscore⟩ := Option.map_eq_some_iff.1 hscore.symm
    obtain ⟨hid, habove⟩ := Prod.mk.inj hscore
    have hcounts := h.counts c place b hb hfree
    unfold Tally.Counts at hcounts ⊢
    rwa [← hid, ← habove]
  fresh id hid := h.fresh id (hs.nextId_eq ▸ hid)
  room c hmem := by
    have hlen := congrArg List.length (hs.scores_eq c)
    rw [List.length_map, List.length_map] at hlen
    rw [hlen]
    exact h.room c hmem

end Gauged

/-- The counts of a fleet are those of its record. -/
theorem Logged.gauged (h : Logged p es log now f chores) : Gauged p log f chores := by
  refine Logged.invariant (P := fun log _ f chores => Gauged p log f chores) (.start p)
    (fun h _ => h) .serve ?_ ?_ h
  · rintro log now f chores h (rfl | rfl)
    · exact ⟨fun c place a ha _ => h.counts c place a ha (by simp [Unawaited]), h.fresh,
        by simp [checkChores]⟩
    · exact ⟨fun c place a ha _ => h.counts c place a ha (by simp [Unawaited]), h.fresh,
        by simp [shutdownChores]⟩
  · intro es es' log now f chore chores t turn hrun hrun' hstep h
    have hdeed := Chore.deed_of_step? hstep
    have hmove := Chore.move_of_step? hstep
    have hp := hrun.staff.policy_eq
    exact ⟨fun c place a ha hfree => h.counts_step hp hrun hrun' hdeed ha hfree,
      fun id hid => h.fresh_step hmove.nextId_le hrun' hdeed hid,
      fun c hmem => h.room_step hp hrun hmove hdeed hmem⟩

/-! ## Growth -/

/-- How the counts of a category, and whether it grows, follow from its checks. -/
structure Growth (p : Policy) (c : Category) (log : List Entry) (now : Nat) (f : Fleet)
    (chores : List Chore) : Prop where
  /-- When a check of the category is done, the count of each writer is the number of checks, up to
  one more than are tolerated, that found it above the high watermark since one found it below the
  low watermark. -/
  counts : (∀ chore ∈ chores, chore.concerns c = true → chore = .inspect c) →
    ∀ m ∈ (f.crew c).members,
      m.above = min (p.allowedOver + 1) (p.sustained (depths m.writer.id log))
  /-- A check that does not rebalance makes the crew grow just when there is room for a writer and
  one whose count is used up is above the high watermark. -/
  grows : ∀ rest t, chores = .inspect c :: rest →
    (∀ places, (Chore.finding c now f t).verdict ≠ .rebalance places) →
      ((Chore.finding c now f t).verdict = .grow ↔
        (f.crew c).size < p.maxWriters ∧ ∃ m ∈ (Chore.manned c now f t).1,
          p.queueSize * 3 < m.depth * 4 ∧ m.above = p.allowedOver + 1)
  /-- With this check it was so two times more than are tolerated, or more often. -/
  times : ∀ rest t, chores = .inspect c :: rest →
    (∀ places, (Chore.finding c now f t).verdict ≠ .rebalance places) →
      ∀ m ∈ (Chore.manned c now f t).1, p.queueSize * 3 < m.depth * 4 →
        (m.above = p.allowedOver + 1 ↔ p.allowedOver + 2 ≤
          p.sustained (depths m.writer.id ((Chore.inspect c).entries now f t ++ log)))

theorem Chore.concerns_of_awaits (h : chore.Awaits c place) : chore.concerns c = true := by
  cases chore <;> simp_all [Awaits, concerns]

namespace Logged

theorem counts_manned (h : Logged p es log now f (.inspect c :: rest)) (t : Store)
    (hm : m ∈ (Chore.manned c now f t).1) :
    m.above = min (p.allowedOver + 1) (p.sustained (depths m.writer.id log)) := by
  obtain ⟨place, hplace⟩ := List.mem_iff_getElem?.1 hm
  refine h.gauged.counts_manned now t hplace fun chore hmem hwaits => ?_
  rcases List.mem_cons.1 hmem with rfl | hmem
  · exact hwaits
  · exact absurd (Chore.concerns_of_awaits hwaits) (by simp [h.not_concerns chore hmem])

theorem nodup_manned (h : Logged p es log now f (.inspect c :: rest)) (t : Store) :
    ((Chore.manned c now f t).1.map fun m => m.writer.id).Nodup := by
  have hnodup := (h.inspect t).run.nodup_tally_ids c
  cases Chore.deed_inspect c now f t with
  | inspect hfinds hposts hamends =>
    rwa [hamends.sheet_eq, ids_of_posts hposts] at hnodup

theorem growth (h : Logged p es log now f chores) (c : Category) :
    Growth p c log now f chores := by
  have hp := h.run.staff.policy_eq
  constructor
  · intro hfree m hm
    obtain ⟨place, hplace⟩ := List.mem_iff_getElem?.1 hm
    refine h.gauged.counts c place m.tally ?_ fun chore hmem hwaits => ?_
    · rw [sheet, List.getElem?_map, hplace, Option.map_some]
    · obtain rfl := hfree chore hmem (Chore.concerns_of_awaits hwaits)
      exact hwaits
  · rintro rest t rfl hverdict
    have hlen : (Chore.manned c now f t).1.length = (f.crew c).size :=
      (Chore.found_replaceDead c now (f.crew c).members (f, t)).1
    have hfinds := Chore.finds_finding c now f t
    rw [hp] at hfinds
    rw [← hlen]
    refine hfinds.grow_iff hverdict fun m hm => ?_
    rw [h.counts_manned t hm]
    exact Nat.min_le_left _ _
  · rintro rest t rfl hverdict m hm hhigh
    have hcount := h.counts_manned t hm
    have hlow : ¬m.depth * 5 < p.queueSize := by omega
    show _ ↔ _ ≤ p.sustained (depths _ (_ :: log))
    rw [depths_of_mem (h.nodup_manned t) hm hverdict, Policy.sustained_cons, if_neg hlow,
      if_pos hhigh]
    omega

end Logged

/-! ## A crew that is about to grow -/

/-- The first check has taken one writer out of each crew. -/
def shrunkBench : Dispatch.Bench :=
  recheck
    { store := {}
      dispatch :=
        { fleet := (Fleet.start samplePolicy 0 {}).1, backlog := { capacity := 1 } } }

/-- Then a queue was filled, and two checks found it full. -/
def pressedBench : Dispatch.Bench :=
  recheck (recheck
    { shrunkBench with
      dispatch :=
        { shrunkBench.dispatch with
          fleet := shrunkBench.dispatch.fleet.offer .general "delete from t" 4 } })

theorem managed_pressedBench :
    ∃ hired, Managed samplePolicy hired false pressedBench.now pressedBench.dispatch.fleet [] := by
  obtain ⟨hired, hshrunk⟩ : ∃ hired,
      Managed samplePolicy hired false shrunkBench.now shrunkBench.dispatch.fleet [] :=
    Managed.recheck (.start 0 {}) (by decide +kernel)
  have hfilled := hshrunk.offer .general "delete from t" 4
  obtain ⟨hired, hfirst⟩ := Managed.recheck
    (b := { shrunkBench with
            dispatch :=
              { shrunkBench.dispatch with
                fleet := shrunkBench.dispatch.fleet.offer .general "delete from t" 4 } })
    hfilled (by decide +kernel)
  exact hfirst.recheck (by decide +kernel)

theorem growth_sample :
    ∃ es log now f, Logged samplePolicy es log now f checkChores ∧
      (f.crew .general).members.map (fun m => (m.depth, m.above)) = [(4, 2)] ∧
      (Chore.finding .general now f {}).verdict = .grow ∧
      Growth samplePolicy .general log now f checkChores := by
  obtain ⟨hired, h⟩ := managed_pressedBench
  obtain ⟨es, hrun, hd⟩ := h.run
  obtain ⟨log, hlogged⟩ := (hrun.check (by simp [hd])).logged
  exact ⟨es, log, _, _, hlogged, by decide +kernel, by decide +kernel, hlogged.growth .general⟩

end BmpFeed.Fleet
