import BmpFeed.Proofs.Fleet.Log

/-!
# What a rebalance changes

A check that rebalances a category resets, one after the other, the writers that have been above the
high watermark for too long and have keys to lose. The places of these writers are worked off while
all writers go on, so `Rebalancing` says at which of them the course has come, and what the crew is
then. Nobody else is touched, and the next rebalance is a pause away.
-/

namespace BmpFeed.Fleet

variable {p : Policy} {es es' : List Event} {log log' : List Entry} {now now' : Nat}
  {f f' : Fleet} {t : Store} {c : Category} {place steps due : Nat}
  {places past todo : List Nat} {chore : Chore} {chores chores' rest : List Chore}
  {as : List Tally} {ws : List Writer} {w : Writer}

/-! ## Places -/

/-- Some tallies, with those at the places cleared. -/
def clearAll (places : List Nat) (as : List Tally) : List Tally :=
  places.foldl (fun as place => as.modify place Tally.cleared) as

theorem clearAll_concat (places : List Nat) (place : Nat) (as : List Tally) :
    clearAll (places ++ [place]) as = (clearAll places as).modify place Tally.cleared := by
  simp [clearAll]

theorem getElem?_clearAll (places : List Nat) (as : List Tally) (i : Nat) :
    (clearAll places as)[i]? = if i ∈ places then as[i]?.map Tally.cleared else as[i]? := by
  induction places using List.reverseRecOn with
  | nil => rfl
  | append_singleton places place ih =>
    rw [clearAll_concat, List.getElem?_modify, ih]
    have hagain : Tally.cleared ∘ Tally.cleared = Tally.cleared := rfl
    by_cases hi : place = i
    · subst hi
      by_cases hmem : place ∈ places <;> simp [hmem, hagain]
    · simp [hi, Ne.symm hi]

theorem length_clearAll (places : List Nat) (as : List Tally) :
    (clearAll places as).length = as.length := by
  induction places using List.reverseRecOn with
  | nil => rfl
  | append_singleton places place ih => rw [clearAll_concat, List.length_modify, ih]

theorem ids_clearAll (places : List Nat) (as : List Tally) :
    (clearAll places as).map Tally.id = as.map Tally.id := by
  apply List.ext_getElem?
  intro i
  rw [List.getElem?_map, List.getElem?_map, getElem?_clearAll]
  split_ifs
  · rw [Option.map_map]
    rfl
  · rfl

namespace Policy

theorem isHot_eq (p : Policy) :
    p.isHot = fun m => decide (p.allowedOver < m.above ∧ 1 < m.keys.length) := by
  funext m
  rw [Bool.eq_iff_iff, isHot_iff, decide_eq_true_iff]

theorem clearAll_hotPlaces (p : Policy) (ms : List Member) :
    clearAll (p.hotPlaces ms) ((p.rebalanced ms).map Member.tally) =
      ms.map fun m => if p.isHot m then .fresh m.writer.id
        else ⟨m.writer.id, m.keys, m.above, m.depth⟩ := by
  apply List.ext_getElem?
  intro i
  simp only [getElem?_clearAll, mem_hotPlaces, rebalanced, List.getElem?_map]
  cases ms[i]? with
  | none => simp
  | some m => by_cases hhot : p.isHot m <;> simp [hhot, Tally.cleared, Member.tally]

theorem filterMap_hotPlaces {α : Type} (p : Policy) (ms : List Member) (g : Member → α) :
    (p.hotPlaces ms).filterMap (fun place => (ms.map g)[place]?) =
      (ms.filter p.isHot).map g := by
  have hplaced : ∀ x ∈ ms.zipIdx.filter (p.isHot ∘ Prod.fst),
      ((fun place => (ms.map g)[place]?) ∘ Prod.snd) x = some (g x.1) := by
    rintro ⟨m, place⟩ hx
    simp [List.mem_zipIdx_iff_getElem?.1 (List.mem_of_mem_filter hx)]
  have hfilter : (ms.zipIdx.filter (p.isHot ∘ Prod.fst)).map Prod.fst = ms.filter p.isHot := by
    rw [← List.filter_map, List.zipIdx_map_fst]
  calc (p.hotPlaces ms).filterMap (fun place => (ms.map g)[place]?)
      = (ms.zipIdx.filter (p.isHot ∘ Prod.fst)).filterMap
          ((fun place => (ms.map g)[place]?) ∘ Prod.snd) := List.filterMap_map ..
    _ = (ms.zipIdx.filter (p.isHot ∘ Prod.fst)).map (g ∘ Prod.fst) := by
      rw [List.filterMap_congr hplaced]
      exact congrFun (List.filterMap_eq_map (f := g ∘ Prod.fst)) _
    _ = (ms.filter p.isHot).map g := by rw [← List.map_map, hfilter]

end Policy

/-! ## The stages of a rebalance -/

/-- The writers `ws` were reset at the places `past` of a crew that had the tallies `as`. -/
structure Cleared (c : Category) (as : List Tally) (past : List Nat) (ws : List Writer)
    (f : Fleet) : Prop where
  tallies_eq : (f.sheet c).tallies = clearAll past as
  ids_eq : ws.map Writer.id = past.filterMap fun place => (as.map Tally.id)[place]?

/-- How far a rebalance of these places has come: which writers were reset, and the chores that are
left. -/
inductive Rebalancing (c : Category) (as : List Tally) (places : List Nat) :
    List Entry → Fleet → List Chore → Prop
  | done {ws : List Writer} {f : Fleet} (h : Cleared c as places ws f) :
      Rebalancing c as places (ws.map (.cleared c)).reverse f []
  | reset {past todo : List Nat} {place : Nat} {ws : List Writer} {f : Fleet}
      (hplaces : past ++ place :: todo = places) (h : Cleared c as past ws f) :
      Rebalancing c as places (ws.map (.cleared c)).reverse f
        (.reset c place :: todo.map (.reset c))
  | drain {past todo : List Nat} {place : Nat} {ws : List Writer} {f : Fleet} (steps due : Nat)
      (hplaces : past ++ place :: todo = places) (h : Cleared c as past ws f) :
      Rebalancing c as places (ws.map (.cleared c)).reverse f
        (.drain c place steps due :: todo.map (.reset c))

namespace Cleared

/-- Nobody is at the place. -/
theorem skip (h : Cleared c as past ws f) (hplace : (f.sheet c).tallies.length ≤ place) :
    Cleared c as (past ++ [place]) ws f where
  tallies_eq := by
    rw [clearAll_concat, ← h.tallies_eq, List.modify_eq_self hplace]
  ids_eq := by
    rw [h.tallies_eq, length_clearAll] at hplace
    simp [h.ids_eq, hplace]

/-- The writer at the place is reset. -/
theorem clear {m : Member} (h : Cleared c as past ws f) (hm : f.member? ⟨c, place⟩ = some m)
    (hsheet : (f'.sheet c).tallies = (f.sheet c).tallies.modify place Tally.cleared) :
    Cleared c as (past ++ [place]) (ws ++ [m.writer]) f' where
  tallies_eq := by rw [hsheet, h.tallies_eq, clearAll_concat]
  ids_eq := by
    have hid : (as.map Tally.id)[place]? = some m.writer.id := by
      rw [← ids_clearAll past, ← h.tallies_eq, List.getElem?_map, tally_of_member? hm]
      rfl
    have hnew : [place].filterMap (fun place => (as.map Tally.id)[place]?) = [m.writer.id] :=
      List.filterMap_cons_some hid
    rw [List.map_append, h.ids_eq, List.filterMap_append, hnew]
    rfl

theorem rebalancing (h : Cleared c as past ws f) (hplaces : past ++ todo = places) :
    Rebalancing c as places (ws.map (.cleared c)).reverse f (todo.map (.reset c)) := by
  cases todo with
  | nil =>
    rw [List.append_nil] at hplaces
    exact .done (hplaces ▸ h)
  | cons place todo => exact .reset hplaces h

end Cleared

namespace Rebalancing

/-- The writers work, and the stage is the same. -/
theorem work (h : Rebalancing c as places log f chores) (hsheet : f'.sheet c = f.sheet c) :
    Rebalancing c as places log f' chores := by
  cases h with
  | done h => exact .done ⟨hsheet ▸ h.tallies_eq, h.ids_eq⟩
  | reset hplaces h => exact .reset hplaces ⟨hsheet ▸ h.tallies_eq, h.ids_eq⟩
  | drain steps due hplaces h => exact .drain steps due hplaces ⟨hsheet ▸ h.tallies_eq, h.ids_eq⟩

theorem step (h : Rebalancing c as places log f (chore :: rest))
    (d : Chore.Deed now f t chore log' chores' f') :
    Rebalancing c as places (log' ++ log) f' (chores' ++ rest) := by
  cases h with
  | @reset past todo place ws _ hplaces h =>
    have hplaces' : (past ++ [place]) ++ todo = places := by simpa using hplaces
    cases d with
    | aside haside => simp [Chore.isAside] at haside
    | absent hattends hplace =>
      obtain ⟨rfl, rfl⟩ := hattends
      exact (h.skip hplace).rebalancing hplaces'
    | reset => exact .drain 0 now hplaces h
  | @drain past todo place ws _ steps due hplaces h =>
    have hplaces' : (past ++ [place]) ++ todo = places := by simpa using hplaces
    cases d with
    | aside haside => simp [Chore.isAside] at haside
    | absent hattends hplace =>
      obtain ⟨rfl, rfl⟩ := hattends
      exact (h.skip hplace).rebalancing hplaces'
    | wait _ _ _ _ steps' => exact .drain steps' (now + 1) hplaces h
    | clear _ _ hm _ ha =>
      have hcleared := h.clear hm (congrArg Sheet.tallies ha.sheet_eq)
      simpa using hcleared.rebalancing hplaces'

/-- The rebalance goes through its stages. -/
theorem course (h : Rebalancing c as places log f chores)
    (hcourse : Course now f chores es' log' now' f' chores') :
    Rebalancing c as places (log' ++ log) f' chores' := by
  induction hcourse with
  | start => exact h
  | wait _ _ ih => exact ih
  | write _ _ _ ih => exact ih.work (sheet_replace _ _ c)
  | chore _ hstep ih =>
    rw [List.append_assoc]
    exact ih.step (Chore.deed_of_step? hstep)

end Rebalancing

/-- A course that has come to the end of a rebalance has reset the hot members, in their order. -/
theorem Course.resets {ms : List Member}
    (h : Course now f ((p.hotPlaces ms).map (.reset c)) es log now' f' [])
    (htallies : (f.sheet c).tallies = (p.rebalanced ms).map Member.tally) :
    ∃ ws : List Writer, log = (ws.map (.cleared c)).reverse ∧
      ws.map Writer.id = (ms.filter p.isHot).map (fun m => m.writer.id) ∧
      (f'.sheet c).tallies = ms.map fun m => if p.isHot m then .fresh m.writer.id
        else ⟨m.writer.id, m.keys, m.above, m.depth⟩ := by
  have hfirst : Cleared c _ [] [] f := ⟨htallies, rfl⟩
  have hlast := (hfirst.rebalancing (List.nil_append _)).course h
  simp only [List.map_nil, List.reverse_nil, List.append_nil] at hlast
  cases hlast with
  | @done ws _ hcleared =>
    refine ⟨ws, rfl, ?_, hcleared.tallies_eq.trans (p.clearAll_hotPlaces ms)⟩
    rw [hcleared.ids_eq, ids_of_posts (p.posts_rebalanced _), p.filterMap_hotPlaces]

/-! ## Rebalances -/

/-- What has become of a fleet with the members `ms` of a category when that was rebalanced. -/
structure Rebalanced (p : Policy) (c : Category) (ms : List Member) (log' : List Entry)
    (f f' : Fleet) : Prop where
  /-- Just those were reset that had been above the high watermark for too long and had more than
  one key, one after the other, and each of them when its queue was empty. -/
  cleared : ∃ ws : List Writer, log' = (ws.map (.cleared c)).reverse ∧
    ws.map Writer.id = (ms.filter fun m => p.allowedOver < m.above ∧ 1 < m.keys.length).map
      (fun m => m.writer.id) ∧ ∀ w ∈ ws, w.queue = []
  /-- They have no keys and count anew. The others are as they were, but for the requests that they
  count, which are now those in their queues at the check. -/
  tallies : (f'.crew c).members.map Member.tally = ms.map fun m =>
    if p.allowedOver < m.above ∧ 1 < m.keys.length then ⟨m.writer.id, [], 0, 0⟩
    else ⟨m.writer.id, m.keys, m.above, m.depth⟩
  other : (f'.crew c.other).members.map Member.tally = (f.crew c.other).members.map Member.tally

/-- What holds of a check that rebalances a category. -/
structure Rebalances (p : Policy) (c : Category) (log : List Entry) (now : Nat) (f : Fleet)
    (t : Store) (places : List Nat) : Prop where
  hot : ∀ place, place ∈ places ↔ ∃ m, (f.crew c).members[place]? = some m ∧
    p.allowedOver < m.above ∧ 1 < m.keys.length
  /-- The pause is over since every earlier check that rebalanced the category. -/
  paused : ∀ n ms places', .inspected c n ms (.rebalance places') ∈ log →
    n + p.rebalancePause ≤ now
  rebalanced : ∀ {es' log' now' f'},
    Course now (Chore.inspectStep c now f t).fleet (Chore.inspectStep c now f t).chores es' log'
      now' f' [] →
    (∀ m ∈ (f.crew c).members, .died ∉ of m.writer.id es') →
    Rebalanced p c (f.crew c).members log' f f'

theorem Chore.manned_of_forall_open (now : Nat) (t : Store)
    (h : ∀ m ∈ (f.crew c).members, m.writer.isClosed = false) :
    (manned c now f t).1 = (f.crew c).members := by
  apply List.ext_getElem?
  intro place
  cases hm : (f.crew c).members[place]? with
  | none =>
    have hlen := (found_replaceDead c now (f.crew c).members (f, t)).1
    rw [List.getElem?_eq_none_iff] at hm ⊢
    exact Nat.le_trans (Nat.le_of_eq hlen) hm
  | some m => exact manned_of_open now t hm (h m (List.mem_of_getElem? hm))

/-- What a check that rebalances a category leaves to be done, and the tallies until then. -/
theorem Chore.inspect_rebalance (hverdict : (finding c now f t).verdict = .rebalance places) :
    rebalanceDue c now f = true ∧ places = f.policy.hotPlaces (manned c now f t).1 ∧
      (inspectStep c now f t).chores = places.map (.reset c) ∧
      ((inspectStep c now f t).fleet.sheet c).tallies =
        (f.policy.rebalanced (manned c now f t).1).map Member.tally := by
  have hchores : (inspectStep c now f t).chores = places.map (.reset c) := by
    rw [chores_inspectStep, hverdict]
    rfl
  have hdeed := deed_inspect c now f t
  generalize (inspectStep c now f t).fleet = g at *
  cases hdeed with
  | inspect hfinds hposts ha =>
    rw [hverdict] at hfinds
    cases hfinds with
    | rebalance hdue hhot => exact ⟨hdue, rfl, hchores, by rw [ha.sheet_eq]⟩
    | calm _ hv => simp at hv

theorem Logged.rebalances (h : Logged p es log now f (.inspect c :: rest)) (t : Store)
    (hverdict : (Chore.finding c now f t).verdict = .rebalance places)
    (hdied : ∀ m ∈ (f.crew c).members, .died ∉ of m.writer.id es) :
    Rebalances p c log now f t places := by
  have hp := h.run.staff.policy_eq
  have hmanned : (Chore.manned c now f t).1 = (f.crew c).members := by
    refine Chore.manned_of_forall_open now t fun m hm => Bool.eq_false_iff.2 fun hclosed => ?_
    exact hdied m hm (h.run.staff.died_of_closed (List.mem_map_of_mem hm) hclosed)
  obtain ⟨hdue, rfl, hchores, htallies⟩ := Chore.inspect_rebalance hverdict
  rw [hmanned, hp] at hchores htallies ⊢
  constructor
  · intro place
    simp [Policy.mem_hotPlaces, Policy.isHot_iff]
  · intro n ms places' hmem
    have hkept : n ≤ (f.sheet c).rebalanced := h.dated.kept _ hmem
    rw [Chore.rebalanceDue, hp, decide_eq_true_iff] at hdue
    omega
  · intro es' log' now' f' hcourse hdied'
    have hqueue := fun {w} => ((h.inspect t).course hcourse).queue_of_cleared (c := c) (w := w)
    have hother := congrArg Sheet.tallies hcourse.inspect_other
    have hevents : ∀ id, of id ((Chore.inspect c).events now f t) = [] :=
      (Chore.move_of_step? rfl).of_eq
    rw [hchores] at hcourse
    obtain ⟨ws, rfl, hids, htallies'⟩ := hcourse.resets htallies
    refine ⟨⟨ws, rfl, ?_, fun w hw => (hqueue ?_).resolve_right fun hmem => ?_⟩, ?_, hother⟩
    · rw [hids, Policy.isHot_eq]
    · simp [hw]
    · obtain ⟨m, hm, hid⟩ := List.mem_map.1 (hids ▸ List.mem_map_of_mem hw)
      rw [← hid, of_append, of_append, hevents, List.append_nil] at hmem
      have hold := List.mem_of_mem_filter hm
      exact (List.mem_append.1 hmem).elim (hdied m hold) (hdied' m hold)
    · refine htallies'.trans ?_
      simp only [Policy.isHot_iff, Tally.fresh]

/-! ## A crew that is rebalanced -/

def evenPolicy : Policy :=
  { maxWriters := 2, queueSize := 4, allowedOver := 0, resizePause := 1000, rebalancePause := 0
    writer := .standard }

/-- Of three keys two went to the same writer, and filled its queue. -/
def unevenFleet : Fleet :=
  (((Fleet.start evenPolicy 0 {}).1.deliver .general "a" 2).deliver .general "b" 3).deliver
    .general "c" 2

/-- A check found that queue full. -/
def unevenBench : Dispatch.Bench :=
  recheck { store := {}, dispatch := { fleet := unevenFleet, backlog := { capacity := 1 } } }

/-- The next check made for a rebalance. -/
def hotBench : Dispatch.Bench :=
  { unevenBench with
    dispatch :=
      { unevenBench.dispatch with
        fleet :=
          (Chore.inspectStep .general unevenBench.now unevenBench.dispatch.fleet {}).fleet } }

theorem rebalances_sample :
    ∃ es log now f, Logged evenPolicy es log now f checkChores ∧
      (Chore.finding .general now f {}).verdict = .rebalance [0] ∧
      (∀ m ∈ (f.crew .general).members, .died ∉ of m.writer.id es) ∧
      Rebalances evenPolicy .general log now f {} [0] ∧
      ∃ es' log' now' f', Course now (Chore.inspectStep .general now f {}).fleet
          (Chore.inspectStep .general now f {}).chores es' log' now' f' [] ∧
        (∀ m ∈ (f.crew .general).members, .died ∉ of m.writer.id es') ∧
        (f.crew .general).members.map Member.tally = [⟨0, ["a", "c"], 1, 4⟩, ⟨1, ["b"], 0, 3⟩] ∧
        (f'.crew .general).members.map Member.tally = [⟨0, [], 0, 0⟩, ⟨1, ["b"], 0, 3⟩] := by
  have huneven : Managed evenPolicy _ false 0 unevenFleet [] :=
    (((Managed.start 0 {}).deliver .general "a" 2).deliver .general "b" 3).deliver .general "c" 2
  obtain ⟨hired, hmanaged⟩ := Managed.recheck
    (b := { store := {}, dispatch := { fleet := unevenFleet, backlog := { capacity := 1 } } })
    huneven (by decide +kernel)
  obtain ⟨es, hrun, hd⟩ := hmanaged.run
  obtain ⟨log, hlogged⟩ := (hrun.check (by simp [hd])).logged
  have hverdict : (Chore.finding .general unevenBench.now unevenBench.dispatch.fleet {}).verdict =
      .rebalance [0] := by decide +kernel
  have hopen : ∀ m ∈ (unevenBench.dispatch.fleet.crew .general).members,
      m.writer.isClosed = false := by decide +kernel
  have hdied : ∀ m ∈ (unevenBench.dispatch.fleet.crew .general).members,
      .died ∉ of m.writer.id es := fun m hm =>
    hrun.staff.not_died (List.mem_map_of_mem hm) (hopen m hm)
  obtain ⟨es', log', hcourse⟩ :=
    Course.bench_perform hotBench [.reset .general 0] 400 (by decide +kernel)
  have hserving : ∀ m ∈ (unevenBench.dispatch.fleet.crew .general).members,
      ∃ m' ∈ ((hotBench.perform 400 ([.reset .general 0].map .chore)).dispatch.fleet.crew
        .general).members, m'.writer.id = m.writer.id ∧ m'.writer.isClosed = false := by
    decide +kernel
  refine ⟨es, log, _, _, hlogged, hverdict, hdied, hlogged.rebalances {} hverdict hdied,
    es', log', _, _, hcourse, fun m hm hmem => ?_, by decide +kernel, by decide +kernel⟩
  obtain ⟨m', hm', hid, hopen'⟩ := hserving m hm
  have hend := ((hlogged.inspect {}).course hcourse).run
  have hpost := List.mem_map_of_mem (f := Member.post) hm'
  refine hend.staff.not_died hpost hopen' ?_
  rw [of_append]
  exact List.mem_append_right _ (hid ▸ hmem)

end BmpFeed.Fleet
