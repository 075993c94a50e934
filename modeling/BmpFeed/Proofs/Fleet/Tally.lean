import BmpFeed.Proofs.Fleet.Staffing

/-!
# Tallies

A tally is what a crew knows of a writer apart from its queue, and a sheet is a crew in which the
writers are only tallied. `Policy.Finds` lists what a health check can find of some members, with
the tallies that it leaves; `Chore.Deed` lists what one step of a chore does to the sheets.
-/

namespace BmpFeed.Fleet

structure Tally where
  id : Nat
  keys : List String
  above : Nat
  running : Nat
  deriving DecidableEq, Repr

namespace Tally

/-- The tally of a writer that was just hired. -/
def fresh (id : Nat) : Tally := ⟨id, [], 0, 0⟩

/-- The tally of a writer that was just reset. -/
def cleared (a : Tally) : Tally := fresh a.id

/-- The part of a tally that only checks and resets change. -/
def score (a : Tally) : Nat × Nat := (a.id, a.above)

end Tally

def Member.tally (m : Member) : Tally := ⟨m.writer.id, m.keys, m.above, m.running⟩

@[simp] theorem Member.tally_id (m : Member) : m.tally.id = m.writer.id := rfl

/-! ## What a check finds -/

namespace Policy

variable (p : Policy) {c : Category} {size place : Nat} {m : Member} {ms : List Member}

theorem isHigh_iff : p.isHigh m = true ↔ p.queueSize * 3 < m.depth * 4 := decide_eq_true_iff

theorem isLow_iff : p.isLow m = true ↔ m.depth * 5 < p.queueSize := decide_eq_true_iff

theorem isOverdue_iff : p.isOverdue m = true ↔ p.allowedOver < m.above := decide_eq_true_iff

theorem isHot_iff : p.isHot m = true ↔ p.allowedOver < m.above ∧ 1 < m.keys.length := by
  simp [isHot, isOverdue]

/-- A crew of this size grows because of the member. -/
def isPressing (p : Policy) (size : Nat) (m : Member) : Bool :=
  p.isHigh m && p.isOverdue m && size < p.maxWriters

theorem isPressing_iff : p.isPressing size m = true ↔
    p.queueSize * 3 < m.depth * 4 ∧ p.allowedOver < m.above ∧ size < p.maxWriters := by
  simp [isPressing, isHigh, isOverdue, and_assoc]

/-- The checks in a row above the high watermark, with this one. -/
def counted (p : Policy) (m : Member) : Nat :=
  if p.isHigh m then if p.isOverdue m then m.above else m.above + 1
  else if p.isLow m then 0 else m.above

theorem weigh_fst (c : Category) (size place : Nat) (m : Member) :
    (p.weigh c size place m).1 = p.isPressing size m := by
  unfold weigh isPressing
  dsimp only
  split_ifs <;> simp_all

theorem weigh_member (c : Category) (place : Nat) (h : p.isPressing size m = false) :
    (p.weigh c size place m).2.1 = { m with above := p.counted m } := by
  unfold isPressing at h
  unfold weigh counted
  dsimp only
  split_ifs <;> simp_all

theorem weighAll_spec (c : Category) (size place : Nat) (ms : List Member) :
    (p.weighAll c size place ms).1 = ms.any (p.isPressing size) ∧
      (ms.any (p.isPressing size) = false →
        (p.weighAll c size place ms).2.1 = ms.map fun m => { m with above := p.counted m }) := by
  induction ms generalizing place with
  | nil => exact ⟨rfl, fun _ => rfl⟩
  | cons m ms ih =>
    obtain ⟨hgrows, hweighed⟩ := ih (place + 1)
    have hfst := p.weigh_fst c size place m
    unfold weighAll
    cases hm : p.isPressing size m with
    | true => simp [hfst, hm]
    | false =>
      have hmember := p.weigh_member c place hm
      refine ⟨by simp [hfst, hm, hgrows], fun hnone => ?_⟩
      rw [List.any_cons, hm, Bool.false_or] at hnone
      simp [hfst, hm, hmember, hweighed hnone]

/-- What a check of some members can find, and the members that it leaves. -/
inductive Finds (p : Policy) (rebalanceDue shrinkDue : Bool) (ms : List Member) :
    Verdict → List Member → Prop
  /-- Some members have been above for too long and have keys to lose. -/
  | rebalance (hdue : rebalanceDue = true) (hhot : p.hotPlaces ms ≠ []) :
      Finds p rebalanceDue shrinkDue ms (.rebalance (p.hotPlaces ms)) (p.rebalanced ms)
  /-- The crew grows because of a member. -/
  | grow {ms' : List Member} (h : ms.any (p.isPressing ms.length) = true) :
      Finds p rebalanceDue shrinkDue ms .grow ms'
  /-- The crew shrinks, or stays as it is. -/
  | calm {v : Verdict} {ms' : List Member} (h : ms.any (p.isPressing ms.length) = false)
      (hv : v = .hold ∨ v = .shrink ∧ (∀ m ∈ ms, p.isLow m = true) ∧ 1 < ms.length ∧
        shrinkDue = true)
      (htallies : ms'.map Member.tally = ms.map fun m =>
        ⟨m.writer.id, m.keys, p.counted m, if rebalanceDue then m.depth else m.running⟩) :
      Finds p rebalanceDue shrinkDue ms v ms'

theorem mem_hotPlaces {place : Nat} :
    place ∈ p.hotPlaces ms ↔ ∃ m, ms[place]? = some m ∧ p.isHot m = true := by
  simp [hotPlaces, List.mem_zipIdx_iff_getElem?]

/-- Without a member to reset, a check that may rebalance has all count from their depth on. -/
theorem rebalanced_eq (h : p.hotPlaces ms = []) :
    p.rebalanced ms = ms.map fun m => { m with running := m.depth } := by
  unfold rebalanced
  apply List.map_congr_left
  intro m hm
  obtain ⟨place, hplace⟩ := List.mem_iff_getElem?.1 hm
  rw [if_neg fun hhot => ?_]
  have hmem : place ∈ p.hotPlaces ms := p.mem_hotPlaces.2 ⟨m, hplace, hhot⟩
  simp [h] at hmem

/-- A check finds one of these, and nothing else. -/
theorem finds_assess (c : Category) (rebalanceDue shrinkDue : Bool) (ms : List Member) :
    Finds p rebalanceDue shrinkDue ms (p.assess c rebalanceDue shrinkDue ms).verdict
      (p.assess c rebalanceDue shrinkDue ms).members := by
  unfold assess
  by_cases hhot : (if rebalanceDue then p.hotPlaces ms else []) = []
  swap
  · cases rebalanceDue with
    | false => simp at hhot
    | true =>
      simp only [if_true] at hhot ⊢
      rw [if_pos hhot]
      exact .rebalance rfl hhot
  simp only [hhot, ne_eq, not_true_eq_false, if_false]
  -- what runs through a member has no bearing on how it is weighed
  have hstarted : (if rebalanceDue then p.rebalanced ms else ms) =
      ms.map fun m => { m with running := if rebalanceDue then m.depth else m.running } := by
    cases rebalanceDue with
    | false => simp
    | true => simpa using p.rebalanced_eq (by simpa using hhot)
  rw [hstarted]
  generalize hms' : (ms.map fun m : Member =>
    { m with running := if rebalanceDue then m.depth else m.running }) = ms'
  have hlen : ms'.length = ms.length := by rw [← hms', List.length_map]
  have hany : ms'.any (p.isPressing ms'.length) = ms.any (p.isPressing ms.length) := by
    rw [hlen, ← hms', List.any_map]
    rfl
  have hall : ms'.all p.isLow = ms.all p.isLow := by
    rw [← hms', List.all_map]
    rfl
  obtain ⟨hgrows, hweighed⟩ := p.weighAll_spec c ms'.length 0 ms'
  rw [hgrows, hany, hall, hlen]
  rw [hany, hlen] at hweighed
  cases hpress : ms.any (p.isPressing ms.length) with
  | true => exact .grow hpress
  | false =>
    refine .calm hpress ?_ ?_
    · simp only [Bool.false_eq_true, if_false]
      split_ifs with hshrink
      · obtain ⟨hlow, hsize, hdue⟩ := hshrink
        exact .inr ⟨rfl, List.all_eq_true.1 hlow, hsize, hdue⟩
      · exact .inl rfl
    · rw [hweighed hpress, ← hms', List.map_map, List.map_map]
      rfl

end Policy

/-! ## Sheets -/

/-- A crew with tallies in place of its members. -/
structure Sheet where
  tallies : List Tally
  resized : Nat
  rebalanced : Nat

def sheet (f : Fleet) (c : Category) : Sheet :=
  ⟨(f.crew c).members.map Member.tally, (f.crew c).resized, (f.crew c).rebalanced⟩

/-- `f'` is `f` with this sheet of a category. -/
structure Amends (f : Fleet) (c : Category) (s : Sheet) (f' : Fleet) : Prop where
  sheet_eq : f'.sheet c = s
  other_eq : ∀ c', c' ≠ c → f'.sheet c' = f.sheet c'

variable {p : Policy} {es : List Event} {now : Nat} {f f' : Fleet} {t : Store}
  {c c' : Category} {place place' : Nat} {chores : List Chore} {m : Member} {ms : List Member}
  {a a' : Tally}

theorem length_tallies (f : Fleet) (c : Category) :
    (f.sheet c).tallies.length = (f.crew c).size := List.length_map _

theorem tally_of_member? (hm : f.member? ⟨c, place⟩ = some m) :
    (f.sheet c).tallies[place]? = some m.tally := by
  unfold member? at hm
  simp [sheet, hm]

theorem amends_setCrew (f : Fleet) (c : Category) (crew : Crew) :
    f.Amends c ⟨crew.members.map Member.tally, crew.resized, crew.rebalanced⟩
      (f.setCrew c crew) where
  sheet_eq := by rw [sheet, crew_setCrew]
  other_eq c' hc := by rw [sheet, crew_setCrew_of_ne f crew hc, sheet]

/-- Whatever is done to the writers, each by itself. -/
theorem sheet_mapWriters {g : Writer → Writer} (hid : ∀ w, (g w).id = w.id) (f : Fleet)
    (c : Category) : (f.mapWriters g).sheet c = f.sheet c := by
  cases c <;> simp [sheet, mapWriters, crew, Function.comp_def, Member.tally, hid]

theorem sheet_replace (f : Fleet) (w : Writer) (c : Category) :
    (f.replace w).sheet c = f.sheet c := by
  apply sheet_mapWriters
  intro v
  split_ifs with he
  · exact he.symm
  · rfl

theorem sheet_closeQueue (f : Fleet) (id : Nat) (c : Category) :
    (f.closeQueue id).sheet c = f.sheet c := by
  apply sheet_mapWriters
  intro w
  split_ifs <;> rfl

theorem sheet_setLeaving (f : Fleet) (ws : List Writer) (c : Category) :
    ({ f with leaving := ws } : Fleet).sheet c = f.sheet c := by
  cases c <;> rfl

theorem Amends.setLeaving {s : Sheet} (h : f.Amends c s f') (ws : List Writer) :
    f.Amends c s { f' with leaving := ws } where
  sheet_eq := (sheet_setLeaving f' ws c).trans h.sheet_eq
  other_eq c' hc := (sheet_setLeaving f' ws c').trans (h.other_eq c' hc)

theorem sheet_hire (f : Fleet) (now : Nat) (t : Store) (c : Category) :
    (f.hire now t).2.1.sheet c = f.sheet c := by
  cases c <;> rfl

theorem tally_ids (f : Fleet) (c : Category) :
    (f.sheet c).tallies.map Tally.id = ((f.posts c).map Post.writer).map Writer.id := by
  simp [sheet, posts, Function.comp_def, Member.post]

namespace Run

theorem tally_lt (h : Run p es now f chores) (ha : a ∈ (f.sheet c).tallies) :
    a.id < f.nextId := by
  have hmem := List.mem_map_of_mem (f := Tally.id) ha
  rw [tally_ids, List.map_map] at hmem
  obtain ⟨post, hpost, he⟩ := List.mem_map.1 hmem
  rw [← he]
  exact h.staff.roster.lt _ (mem_writers_of_post hpost)

/-- No two tallies have the same number. -/
theorem tally_inj (h : Run p es now f chores) (ha : (f.sheet c).tallies[place]? = some a)
    (ha' : (f.sheet c').tallies[place']? = some a') (hid : a.id = a'.id) :
    c' = c ∧ place' = place := by
  have hnodup := ((f.writers_perm c).map Writer.id).nodup_iff.1 h.staff.roster.nodup
  rw [List.map_append, List.map_append, ← tally_ids, ← tally_ids] at hnodup
  obtain rfl | rfl := c.eq_or_eq_other c'
  · refine ⟨rfl, (List.getElem?_inj ?_ hnodup.of_append_left).1 ?_⟩
    · rw [List.length_map]
      exact (List.getElem?_eq_some_iff.1 ha').1
    · rw [List.getElem?_map, List.getElem?_map, ha, ha', Option.map_some, Option.map_some, hid]
  · refine absurd (List.mem_append_left _ ?_) (List.disjoint_of_nodup_append hnodup
      (List.mem_map_of_mem (List.mem_of_getElem? ha)))
    rw [hid]
    exact List.mem_map_of_mem (List.mem_of_getElem? ha')

end Run

theorem Run.nodup_tally_ids (h : Run p es now f chores) (c : Category) :
    ((f.sheet c).tallies.map Tally.id).Nodup := by
  have hnodup := ((f.writers_perm c).map Writer.id).nodup_iff.1 h.staff.roster.nodup
  rw [List.map_append, ← tally_ids] at hnodup
  exact hnodup.of_append_left

/-- Members of the same posts have the same numbers. -/
theorem ids_of_posts {ms' : List Member} (h : ms'.map Member.post = ms.map Member.post) :
    (ms'.map Member.tally).map Tally.id = ms.map fun m => m.writer.id := by
  have hwriters := congrArg (List.map fun post : Post => post.writer.id) h
  rw [List.map_map, List.map_map] at hwriters
  rw [List.map_map]
  exact hwriters

/-- The writers of the crews and their counts are the same, and so are all times. -/
structure Serves (f f' : Fleet) : Prop where
  nextId_eq : f'.nextId = f.nextId
  resized_eq : ∀ c, (f'.sheet c).resized = (f.sheet c).resized
  rebalanced_eq : ∀ c, (f'.sheet c).rebalanced = (f.sheet c).rebalanced
  scores_eq : ∀ c,
    (f'.sheet c).tallies.map Tally.score = (f.sheet c).tallies.map Tally.score

theorem serves_replace (f : Fleet) (w : Writer) : Serves f (f.replace w) where
  nextId_eq := rfl
  resized_eq c := by rw [sheet_replace]
  rebalanced_eq c := by rw [sheet_replace]
  scores_eq c := by rw [sheet_replace]

theorem serves_setCrew (f : Fleet) (c : Category) {crew : Crew}
    (hresized : crew.resized = (f.crew c).resized)
    (hrebalanced : crew.rebalanced = (f.crew c).rebalanced)
    (hscores : crew.members.map (fun m => m.tally.score) =
      (f.crew c).members.map fun m => m.tally.score) : Serves f (f.setCrew c crew) := by
  have hamends := f.amends_setCrew c crew
  have hsame : ∀ {α : Type} (g : Sheet → α), g ((f.setCrew c crew).sheet c) = g (f.sheet c) →
      ∀ c', g ((f.setCrew c crew).sheet c') = g (f.sheet c') := by
    intro α g hg c'
    by_cases hc : c' = c
    · rw [hc, hg]
    · rw [hamends.other_eq c' hc]
  rw [hamends.sheet_eq] at hsame
  refine ⟨by cases c <;> rfl, hsame Sheet.resized hresized, hsame Sheet.rebalanced hrebalanced,
    hsame (fun s => s.tallies.map Tally.score) ?_⟩
  simpa [sheet, Function.comp_def] using hscores

theorem serves_send {s : Slot} {r : Request} {note : Note} (h : f.send? s r = some (f', note)) :
    Serves f f' := by
  unfold send? at h
  simp only [Option.bind_eq_bind, Option.bind_eq_some_iff, Option.some.injEq, Prod.mk.injEq] at h
  obtain ⟨m, hm, w, hw, rfl, -⟩ := h
  refine f.serves_setCrew s.category rfl rfl ?_
  have hscore : ({ m with writer := w } : Member).tally.score = m.tally.score := by
    rw [Member.tally, (Writer.send?_frame hw).1]
    rfl
  obtain ⟨hlt, rfl⟩ := List.getElem?_eq_some_iff.1 hm
  rw [List.map_set, hscore, ← List.map_set, List.set_getElem_self]

theorem serves_route (f : Fleet) (c : Category) (key : String) :
    Serves f (f.route c key).2 := by
  have hcrew : ((f.crew c).route f.mid key).2.resized = (f.crew c).resized ∧
      ((f.crew c).route f.mid key).2.rebalanced = (f.crew c).rebalanced ∧
      ((f.crew c).route f.mid key).2.members.map (fun m => m.tally.score) =
        (f.crew c).members.map fun m => m.tally.score := by
    unfold Crew.route
    split
    · exact ⟨rfl, rfl, map_modify_same (h := Member.count) (fun _ => rfl) _ _⟩
    · refine ⟨rfl, rfl, ?_⟩
      dsimp only
      rw [map_modify_same (h := fun m : Member => (m.assign key).count) (fun _ => rfl),
        List.map_map]
      refine List.map_congr_left fun m _ => ?_
      simp only [Function.comp_apply, Member.refreshed]
      split_ifs <;> rfl
  obtain ⟨hresized, hrebalanced, hscores⟩ := hcrew
  exact f.serves_setCrew c hresized hrebalanced hscores

/-! ## What is on record -/

inductive Entry
  /-- The crews were made. -/
  | founded (now : Nat)
  /-- A check found these members of the category, with the crashed writers replaced. -/
  | inspected (c : Category) (now : Nat) (ms : List Member) (v : Verdict)
  /-- The writer was reset, as it was then. -/
  | cleared (c : Category) (w : Writer)
  /-- The category got a writer, or lost one. -/
  | resized (c : Category) (now : Nat)

namespace Chore

/-- What the next step of a chore puts on record. -/
def entries (now : Nat) (f : Fleet) (t : Store) : Chore → List Entry
  | inspect c => [.inspected c now (manned c now f t).1 (finding c now f t).verdict]
  | drain c place _ _ =>
    (((f.member? ⟨c, place⟩).filter fun m => m.depth = 0 ∨ m.writer.isClosed).map fun m =>
      .cleared c m.writer).toList
  | enlist c | release c => [.resized c now]
  | _ => []

/-- A member as a check finds it: it is as it was, or new in the place of one that crashed. -/
def Found (n : Nat) (old new : Member) : Prop :=
  old.writer.isClosed = false ∧ new = old ∨
    old.writer.isClosed = true ∧ n ≤ new.writer.id ∧ new.tally = .fresh new.writer.id ∧
      new.writer.isClosed = false

theorem Found.mono {n n' : Nat} {old new : Member} (h : Found n old new) (hle : n' ≤ n) :
    Found n' old new := by
  rcases h with h | ⟨hclosed, hid, h⟩
  · exact .inl h
  · exact .inr ⟨hclosed, Nat.le_trans hle hid, h⟩

theorem found_replaceDead (c : Category) (now : Nat) (ms : List Member) (s : Fleet × Store) :
    (replaceDead c now ms s).1.length = ms.length ∧
      ∀ (place : Nat) (new : Member), (replaceDead c now ms s).1[place]? = some new →
        ∃ old, ms[place]? = some old ∧ Found s.1.nextId old new := by
  induction ms generalizing s with
  | nil => simp [replaceDead]
  | cons m ms ih =>
    obtain ⟨f, t⟩ := s
    unfold replaceDead
    cases hm : m.writer.isClosed with
    | true =>
      obtain ⟨hlen, hfound⟩ := ih (f.hire now t).2
      refine ⟨congrArg (· + 1) hlen, fun place new hnew => ?_⟩
      cases place with
      | zero =>
        obtain rfl : (f.hire now t).1 = new := Option.some.inj hnew
        exact ⟨m, rfl, .inr ⟨hm, Nat.le_refl _, rfl, rfl⟩⟩
      | succ place =>
        obtain ⟨old, hold, hrest⟩ := hfound place new hnew
        exact ⟨old, hold, hrest.mono (Nat.le_succ _)⟩
    | false =>
      obtain ⟨hlen, hfound⟩ := ih (f, t)
      refine ⟨congrArg (· + 1) hlen, fun place new hnew => ?_⟩
      cases place with
      | zero =>
        obtain rfl : m = new := Option.some.inj hnew
        exact ⟨m, rfl, .inl ⟨hm, rfl⟩⟩
      | succ place => exact hfound place new hnew

/-- A check finds a writer as it was unless it had crashed. -/
theorem manned_of_open (now : Nat) (t : Store) (hm : (f.crew c).members[place]? = some m)
    (hopen : m.writer.isClosed = false) : (manned c now f t).1[place]? = some m := by
  obtain ⟨hlen, hfound⟩ := found_replaceDead c now (f.crew c).members (f, t)
  have hlt : place < (manned c now f t).1.length := by
    rw [manned, hlen]
    exact (List.getElem?_eq_some_iff.1 hm).1
  obtain ⟨old, hold, hnew⟩ := hfound place _ (List.getElem?_eq_getElem hlt)
  obtain rfl := Option.some.inj (hold.symm.trans hm)
  rcases hnew with ⟨-, he⟩ | ⟨hclosed, -⟩
  · rw [List.getElem?_eq_getElem hlt, ← he]
  · simp [hopen] at hclosed

/-- Nobody whom a check finds has crashed. -/
theorem open_of_manned (hm : m ∈ (manned c now f t).1) : m.writer.isClosed = false := by
  obtain ⟨place, hplace⟩ := List.mem_iff_getElem?.1 hm
  obtain ⟨old, -, hfound⟩ := (found_replaceDead c now (f.crew c).members (f, t)).2 place m hplace
  rcases hfound with ⟨hopen, rfl⟩ | ⟨-, -, -, hopen⟩ <;> exact hopen

/-- Whether a rebalance of the category is due. -/
def rebalanceDue (c : Category) (now : Nat) (f : Fleet) : Bool :=
  (f.sheet c).rebalanced + f.policy.rebalancePause ≤ now

/-- Whether the category may shrink. -/
def shrinkDue (c : Category) (now : Nat) (f : Fleet) : Bool :=
  (f.sheet c).resized + f.policy.resizePause ≤ now

/-- The chore resets the writer at the place. -/
def Attends (c : Category) (place : Nat) : Chore → Prop
  | reset c' place' | drain c' place' _ _ => c' = c ∧ place' = place
  | _ => False

/-- The chore is about the writers outside the crews, or only notes something. -/
def isAside : Chore → Bool
  | close _ | join _ | removed _ => true
  | _ => false

/-- What a step of a chore can do to the sheets, with what it puts on record and the chores that
follow. -/
inductive Deed (now : Nat) (f : Fleet) (t : Store) :
    Chore → List Entry → List Chore → Fleet → Prop
  | aside {chore : Chore} {f' : Fleet} (h : chore.isAside = true)
      (hsheet : ∀ c, f'.sheet c = f.sheet c) : Deed now f t chore [] [] f'
  /-- Finds nobody at the place. -/
  | absent {chore : Chore} {c : Category} {place : Nat} (h : chore.Attends c place)
      (hplace : (f.sheet c).tallies.length ≤ place) : Deed now f t chore [] [] f
  | inspect {c : Category} {ms' : List Member} {f' : Fleet}
      (hfinds : f.policy.Finds (rebalanceDue c now f) (shrinkDue c now f) (manned c now f t).1
        (finding c now f t).verdict ms')
      (hposts : ms'.map Member.post = (manned c now f t).1.map Member.post)
      (h : f.Amends c ⟨ms'.map Member.tally, (f.sheet c).resized,
        if rebalanceDue c now f then now else (f.sheet c).rebalanced⟩ f') :
      Deed now f t (.inspect c)
        [.inspected c now (manned c now f t).1 (finding c now f t).verdict]
        (ofVerdict c (finding c now f t).verdict).1 f'
  | reset {c : Category} {place : Nat} (h : place < (f.sheet c).tallies.length) :
      Deed now f t (.reset c place) [] [.drain c place 0 now] f
  /-- Waits for the queue to become empty. -/
  | wait (c : Category) (place steps due steps' : Nat) :
      Deed now f t (.drain c place steps due) [] [.drain c place steps' (now + 1)] f
  /-- Finds the queue empty, or nobody who reads it. -/
  | clear {c : Category} {place : Nat} {m : Member} {f' : Fleet} (steps due : Nat)
      (hm : f.member? ⟨c, place⟩ = some m)
      (hqueue : m.writer.queue = [] ∨ m.writer.isClosed = true)
      (h : f.Amends c ⟨(f.sheet c).tallies.modify place Tally.cleared, (f.sheet c).resized,
        (f.sheet c).rebalanced⟩ f') :
      Deed now f t (.drain c place steps due) [.cleared c m.writer] [] f'
  | resetAll (c : Category) :
      Deed now f t (.resetAll c) []
        ((List.range (f.sheet c).tallies.length).map (.reset c)) f
  /-- Has no room for a writer. -/
  | full {c : Category} (h : f.policy.maxWriters ≤ (f.sheet c).tallies.length) :
      Deed now f t (.grow c) [] [] f
  | grow {c : Category} (h : (f.sheet c).tallies.length < f.policy.maxWriters) :
      Deed now f t (.grow c) [] [.resetAll c, .enlist c] f
  | enlist {c : Category} {f' : Fleet}
      (h : f.Amends c ⟨(f.sheet c).tallies ++ [.fresh f.nextId], now,
        (f.sheet c).rebalanced⟩ f') :
      Deed now f t (.enlist c) [.resized c now] [] f'
  /-- Has no writer to spare. -/
  | small {c : Category} (h : (f.sheet c).tallies.length ≤ 1) :
      Deed now f t (.shrink c) [] [] f
  | shrink {c : Category} (h : 1 < (f.sheet c).tallies.length) :
      Deed now f t (.shrink c) [] [.reset c ((f.sheet c).tallies.length - 1), .release c] f
  | release {c : Category} {chores : List Chore} {f' : Fleet}
      (hchores : ∀ chore ∈ chores, chore.isAside = true)
      (h : f.Amends c ⟨(f.sheet c).tallies.dropLast, now, (f.sheet c).rebalanced⟩ f') :
      Deed now f t (.release c) [.resized c now] chores f'
  | dismiss {c : Category} {chores : List Chore} {f' : Fleet}
      (hchores : ∀ chore ∈ chores, chore.isAside = true)
      (h : f.Amends c ⟨[], (f.sheet c).resized, (f.sheet c).rebalanced⟩ f') :
      Deed now f t (.dismiss c) [] chores f'

variable {turn : Turn}

/-- Replacing the crashed writers of a category leaves the fleet itself as it is. -/
theorem manned_fleet (c : Category) (now : Nat) (f : Fleet) (t : Store) :
    (manned c now f t).2.policy = f.policy ∧
      ∀ c', (manned c now f t).2.sheet c' = f.sheet c' := by
  obtain ⟨-, hsame⟩ := manned_replaceDead c now (f.crew c).members f t
  unfold manned
  rw [hsame]
  exact ⟨rfl, fun c' => by cases c' <;> rfl⟩

theorem finds_finding (c : Category) (now : Nat) (f : Fleet) (t : Store) :
    f.policy.Finds (rebalanceDue c now f) (shrinkDue c now f) (manned c now f t).1
      (finding c now f t).verdict (finding c now f t).members := by
  obtain ⟨hpolicy, hsheet⟩ := manned_fleet c now f t
  have hrebalance : rebalanceDue c now (manned c now f t).2 = rebalanceDue c now f := by
    rw [rebalanceDue, hpolicy, hsheet, rebalanceDue]
  have hshrink : shrinkDue c now (manned c now f t).2 = shrinkDue c now f := by
    rw [shrinkDue, hpolicy, hsheet, shrinkDue]
  rw [← hrebalance, ← hshrink, ← hpolicy]
  exact Policy.finds_assess ..

theorem chores_inspectStep (c : Category) (now : Nat) (f : Fleet) (t : Store) :
    (inspectStep c now f t).chores = (ofVerdict c (finding c now f t).verdict).1 := rfl

theorem deed_inspect (c : Category) (now : Nat) (f : Fleet) (t : Store) :
    Deed now f t (.inspect c) ((inspect c).entries now f t) (inspectStep c now f t).chores
      (inspectStep c now f t).fleet := by
  obtain ⟨hpolicy, hsheet⟩ := manned_fleet c now f t
  have hdue : rebalanceDue c now (manned c now f t).2 = rebalanceDue c now f := by
    rw [rebalanceDue, hpolicy, hsheet, rebalanceDue]
  have hamends := (manned c now f t).2.amends_setCrew c
    { (manned c now f t).2.crew c with
      members := (finding c now f t).members
      rebalanced := if rebalanceDue c now (manned c now f t).2 then now
        else ((manned c now f t).2.sheet c).rebalanced }
  refine .inspect (finds_finding c now f t) (Policy.posts_assess ..)
    ⟨hamends.sheet_eq.trans ?_, fun c' hc => ?_⟩
  · have hresized : ((manned c now f t).2.sheet c).resized = (f.sheet c).resized := by rw [hsheet]
    rw [hdue, hsheet]
    exact congrArg (Sheet.mk _ · _) hresized
  · exact (hamends.other_eq c' hc).trans (hsheet c')

theorem deed_drain (c : Category) (place steps due now : Nat) (f : Fleet) (t : Store) :
    Deed now f t (.drain c place steps due) ((drain c place steps due).entries now f t)
      (drainStep c place steps now f t).chores (drainStep c place steps now f t).fleet := by
  have hentries : (drain c place steps due).entries now f t =
      (((f.member? ⟨c, place⟩).filter fun m => m.depth = 0 ∨ m.writer.isClosed).map fun m =>
        .cleared c m.writer).toList := rfl
  rw [hentries]
  unfold drainStep
  cases hm : f.member? ⟨c, place⟩ with
  | none =>
    have hattends : (drain c place steps due).Attends c place := ⟨rfl, rfl⟩
    refine .absent hattends ?_
    rw [length_tallies]
    exact List.getElem?_eq_none_iff.1 hm
  | some m =>
    dsimp only
    by_cases hempty : m.depth = 0 ∨ m.writer.isClosed
    · have hcleared : ((f.crew c).members.modify place Member.reset).map Member.tally =
          (f.sheet c).tallies.modify place Tally.cleared :=
        map_modify (g := Member.tally) (h := Member.reset) (fun _ => rfl) _ _
      have hamends := f.amends_setCrew c
        { f.crew c with members := (f.crew c).members.modify place Member.reset }
      rw [hcleared] at hamends
      rw [if_pos hempty, Option.filter_some_pos (by simpa using hempty)]
      exact .clear steps due hm (hempty.imp_left List.eq_nil_of_length_eq_zero) hamends
    · rw [if_neg hempty, Option.filter_some_neg (by simpa using hempty)]
      split_ifs <;> exact .wait ..

theorem deed_release (c : Category) (now : Nat) (f : Fleet) (t : Store) :
    Deed now f t (.release c) [.resized c now] (releaseStep c now f t).chores
      (releaseStep c now f t).fleet := by
  have hamends := f.amends_setCrew c
    { f.crew c with members := (f.crew c).members.dropLast, resized := now }
  rw [List.map_dropLast] at hamends
  unfold releaseStep
  dsimp only
  split
  · exact .release (by simp [isAside]) hamends
  · exact .release (by simp [isAside]) (hamends.setLeaving _)

theorem deed_join {id : Nat} (h : joinStep? id f t = some turn) :
    Deed now f t (.join id) [] turn.chores turn.fleet := by
  unfold joinStep? at h
  split at h
  · obtain rfl := Option.some.inj h
    exact .aside rfl fun _ => rfl
  · simp only [Option.ite_none_right_eq_some, Option.some.injEq] at h
    obtain ⟨-, rfl⟩ := h
    exact .aside rfl (sheet_setLeaving f _)

/-- Every step of a chore is a deed. -/
theorem deed_of_step? {chore : Chore} {turn : Turn} (h : chore.step? now f t = some turn) :
    Deed now f t chore (chore.entries now f t) turn.chores turn.fleet := by
  cases chore <;> simp only [step?] at h
  case inspect c =>
    obtain rfl := Option.some.inj h
    exact deed_inspect c now f t
  case reset c place =>
    split at h <;> obtain rfl := Option.some.inj h
    · rename_i hm
      have hattends : (reset c place).Attends c place := ⟨rfl, rfl⟩
      refine .absent hattends ?_
      rw [length_tallies]
      exact List.getElem?_eq_none_iff.1 hm
    · rename_i m hm
      exact .reset (List.getElem?_eq_some_iff.1 (tally_of_member? hm)).1
  case drain c place steps due =>
    split_ifs at h
    obtain rfl := Option.some.inj h
    exact deed_drain c place steps due now f t
  case resetAll c =>
    obtain rfl := Option.some.inj h
    rw [← length_tallies]
    exact .resetAll c
  case grow c =>
    rw [← length_tallies] at h
    split_ifs at h with hfull <;> obtain rfl := Option.some.inj h
    · exact .full hfull
    · exact .grow (Nat.lt_of_not_le hfull)
  case enlist c =>
    obtain rfl := Option.some.inj h
    have hamends := (f.hire now t).2.1.amends_setCrew c
      { (f.hire now t).2.1.crew c with
        members := ((f.hire now t).2.1.crew c).members ++ [(f.hire now t).1], resized := now }
    refine .enlist ⟨hamends.sheet_eq.trans ?_, fun c' hc => ?_⟩
    · cases c <;> exact congrArg (Sheet.mk · _ _) (List.map_append ..)
    · exact (hamends.other_eq c' hc).trans (sheet_hire f now t c')
  case shrink c =>
    rw [← length_tallies] at h
    split_ifs at h with hsmall <;> obtain rfl := Option.some.inj h
    · exact .small hsmall
    · exact .shrink (Nat.lt_of_not_le hsmall)
  case release c =>
    obtain rfl := Option.some.inj h
    exact deed_release c now f t
  case close id =>
    obtain rfl := Option.some.inj h
    exact .aside rfl (sheet_closeQueue f id)
  case join id => exact deed_join h
  case removed c =>
    obtain rfl := Option.some.inj h
    exact .aside rfl fun _ => rfl
  case dismiss c =>
    obtain rfl := Option.some.inj h
    refine .dismiss (fun chore hmem => ?_) ?_
    · obtain ⟨w, -, hmem⟩ := List.mem_flatMap.1 hmem
      simp only [List.mem_cons, List.not_mem_nil, or_false] at hmem
      rcases hmem with rfl | rfl <;> rfl
    · exact (f.amends_setCrew c { f.crew c with members := [] }).setLeaving _

end Chore

end BmpFeed.Fleet
