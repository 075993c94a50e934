import BmpFeed.Dispatch.Bench
import BmpFeed.Proofs.Clock
import BmpFeed.Proofs.Fleet.Sticky

/-!
# Routing over whole runs

`Run.sticky_routing` puts together what runs of a fleet keep of its keys: a key has at most one
owner in a category, routing goes to the owner or makes one, and a key that was routed to two
different writers was taken from the former in between.
-/

namespace BmpFeed.Fleet

variable {p : Policy} {es : List Event} {now : Nat} {f : Fleet} {c : Category}
  {chores : List Chore}

theorem owners_length_le_one {posts : List Post} (hnodup : (keysOf posts).Nodup) (key : String) :
    (posts.filter fun post => post.owns key).length ≤ 1 := by
  induction posts with
  | nil => simp
  | cons post posts ih =>
    rw [keysOf, List.flatMap_cons] at hnodup
    have hrest := ih hnodup.of_append_right
    rw [List.filter_cons]
    split_ifs with howns
    · have hnone : (posts.filter fun post => post.owns key) = [] := by
        apply List.filter_eq_nil_iff.2
        intro post' hpost' howns'
        exact List.disjoint_of_nodup_append hnodup (Post.owns_iff.1 howns)
          (mem_keysOf hpost' (Post.owns_iff.1 howns'))
      simp [hnone]
    · exact hrest

/-- Routing in a fleet after some events. -/
structure Sticky (es : List Event) (f : Fleet) : Prop where
  /-- A key belongs to at most one writer of a category. -/
  owner_unique : ∀ c key, ((f.posts c).filter fun post => post.owns key).length ≤ 1
  /-- Routing a key leads to its owner and changes no keys; if it has none, it is assigned to one
  writer and all other keys stay where they are. -/
  route_owner : ∀ c key, ∃ place post,
    (f.route c key).1 = ⟨c, place⟩ ∧ (f.posts c)[place]? = some post ∧
    (f.route c key).2.posts c.other = f.posts c.other ∧
    if ∃ owner ∈ f.posts c, key ∈ owner.keys then
      key ∈ post.keys ∧ (f.route c key).2.posts c = f.posts c
    else (f.route c key).2.posts c = (f.posts c).modify place fun post => post.assign key
  /-- Between two routings of a key to different writers the category was to grow, or a rebalance
  named the former writer, or this one was removed, or it was replaced because it had died. -/
  moved_by : ∀ c key id id' past between later,
    es = past ++ .routed c key id :: (between ++ .routed c key id' :: later) → id ≠ id' →
      .grew c ∈ between ∨ (∃ ids, .rebalanced c ids ∈ between ∧ id ∈ ids) ∨
        .removed c id ∈ between ∨ (.replaced c id ∈ between ∧ .died ∈ of id es)

namespace Run

theorem route_owner (h : Run p es now f chores) (hopen : .dismissed ∉ es) (c : Category)
    (key : String) :
    ∃ place post,
      (f.route c key).1 = ⟨c, place⟩ ∧ (f.posts c)[place]? = some post ∧
      (f.route c key).2.posts c.other = f.posts c.other ∧
      if ∃ owner ∈ f.posts c, key ∈ owner.keys then
        key ∈ post.keys ∧ (f.route c key).2.posts c = f.posts c
      else (f.route c key).2.posts c = (f.posts c).modify place fun post => post.assign key := by
  obtain ⟨place, posts', hslot, hroutes, ha⟩ :=
    route_spec key ((h.crewed hopen).ne_nil c)
  cases hroutes with
  | @owned post hpost hkey =>
    refine ⟨place, post, hslot, hpost, ha.other_eq, ?_⟩
    rw [if_pos ⟨post, List.mem_of_getElem? hpost, hkey⟩]
    exact ⟨hkey, ha.posts_eq⟩
  | new hlt hnew =>
    refine ⟨place, _, hslot, List.getElem?_eq_getElem hlt, ha.other_eq, ?_⟩
    rw [if_neg fun ⟨owner, howner, hkey⟩ => hnew owner howner hkey]
    exact ha.posts_eq

/-- Keys are routed stickily in every run of a fleet that is not dismissed. -/
theorem sticky_routing (h : Run p es now f chores) (hopen : .dismissed ∉ es) : Sticky es f where
  owner_unique c key := owners_length_le_one (h.nodup_keys c) key
  route_owner := h.route_owner hopen
  moved_by := by
    intro c key id id' past between later he hne
    obtain ⟨e, hmem, hfrees⟩ := h.frees_between hopen he hne
    cases hfrees with
    | grew => exact .inl hmem
    | rebalanced hid => exact .inr (.inl ⟨_, hmem, hid⟩)
    | removed => exact .inr (.inr (.inl hmem))
    | replaced =>
      refine .inr (.inr (.inr ⟨hmem, h.staff.replaced c id ?_⟩))
      rw [he]
      exact List.mem_append_right _ (List.mem_cons_of_mem _ (List.mem_append_left _ hmem))

end Run

/-! ## A run in which a key moves -/

section Bench

variable {b b' : Dispatch.Bench}

/-- A bench that does the chores of its fleet makes a step of the first chore or of a writer. -/
theorem bench_step_cases (htasks : b.tasks = chores.map .chore) (hs : b.step? = some b') :
    (∃ chore rest turn, chores = chore :: rest ∧
      chore.step? b.now b.dispatch.fleet b.store = some turn ∧ b'.now = b.now ∧
      b'.dispatch.fleet = turn.fleet ∧ b'.tasks = (turn.chores ++ rest).map .chore) ∨
    ∃ w turn, w ∈ b.dispatch.fleet.writers ∧ w.step? b.now b.store = some turn ∧
      b'.now = b.now ∧ b'.dispatch.fleet = b.dispatch.fleet.replace turn.writer ∧
      b'.tasks = chores.map .chore := by
  unfold Dispatch.Bench.step? at hs
  rcases Option.or_eq_some_iff.1 hs with hs | ⟨-, hs⟩
  · left
    unfold Dispatch.Bench.stepOwner? at hs
    cases chores with
    | nil => simp [htasks] at hs
    | cons chore chores =>
      simp only [htasks, List.map_cons, Option.map_eq_some_iff] at hs
      obtain ⟨turn, hturn, rfl⟩ := hs
      obtain ⟨turn', hstep, rfl⟩ := Option.map_eq_some_iff.1 hturn
      exact ⟨chore, chores, turn', rfl, hstep, rfl, rfl, (List.map_append ..).symm⟩
  · right
    unfold Dispatch.Bench.stepWriter? at hs
    obtain ⟨⟨f', t', notes⟩, hfleet, rfl⟩ := Option.map_eq_some_iff.1 hs
    obtain ⟨w, hw, hwriter⟩ := List.exists_of_findSome?_eq_some hfleet
    obtain ⟨turn, hturn, he⟩ := Option.map_eq_some_iff.1 hwriter
    obtain rfl : _ = f' := congrArg Prod.fst he
    exact ⟨w, turn, hw, hturn, rfl, rfl, htasks⟩

/-- A bench that does the chores of its fleet keeps the fleet in its run. -/
theorem Run.bench_step (h : Run p es b.now b.dispatch.fleet chores)
    (htasks : b.tasks = chores.map .chore) (hopen : .dismissed ∉ es) (hs : b.step? = some b') :
    ∃ es' chores', Run p (es ++ es') b'.now b'.dispatch.fleet chores' ∧
      b'.tasks = chores'.map .chore ∧ .dismissed ∉ es ++ es' := by
  rcases bench_step_cases htasks hs with
    ⟨chore, rest, turn, rfl, hstep, hnow, hfleet, htasks'⟩ |
    ⟨w, turn, hw, hstep, hnow, hfleet, htasks'⟩
  · rw [hnow, hfleet]
    refine ⟨_, _, h.chore hstep, htasks', fun hmem => ?_⟩
    rcases List.mem_append.1 hmem with hmem | hmem
    · exact hopen hmem
    · exact (Chore.move_of_step? hstep).not_mem rfl hmem
  · rw [hnow, hfleet]
    exact ⟨_, _, h.write hw hstep, htasks', by simpa using hopen⟩

theorem Run.bench_finish (h : Run p es b.now b.dispatch.fleet chores)
    (htasks : b.tasks = chores.map .chore) (hopen : .dismissed ∉ es)
    (done : Dispatch.Bench → Bool) (fuel : Nat) :
    ∃ es' chores', Run p (es ++ es') (Timed.finish done fuel b).now
        (Timed.finish done fuel b).dispatch.fleet chores' ∧
      (Timed.finish done fuel b).tasks = chores'.map .chore ∧ .dismissed ∉ es ++ es' := by
  refine Timed.finish_induction
    (P := fun b => ∃ es' chores', Run p (es ++ es') b.now b.dispatch.fleet chores' ∧
      b.tasks = chores'.map .chore ∧ .dismissed ∉ es ++ es') ?_ ?_ done fuel
    ⟨[], chores, by rwa [List.append_nil], htasks, by rwa [List.append_nil]⟩
  · rintro b b' ⟨es', chores', h', htasks', hopen'⟩ hs
    obtain ⟨es'', chores'', h'', htasks'', hopen''⟩ := h'.bench_step htasks' hopen' hs
    rw [List.append_assoc] at h'' hopen''
    exact ⟨es' ++ es'', chores'', h'', htasks'', hopen''⟩
  · rintro b t ⟨es', chores', h', htasks', hopen'⟩
    exact ⟨es', chores', h'.wait (Nat.le_max_right _ _), htasks', hopen'⟩

end Bench

theorem Run.route_id (h : Run p es now f []) (c : Category) (key : String) (id : Nat)
    (hopen : .dismissed ∉ es)
    (hid : ((f.posts c)[(f.route c key).1.place]?).map (fun post => post.writer.id) = some id) :
    Run p (es ++ [.routed c key id]) now (f.route c key).2 [] := by
  obtain ⟨post, hpost, rfl⟩ := Option.map_eq_some_iff.1 hid
  exact h.route c key hopen hpost

/-- At most two writers of a category, and checks that may shrink a crew at any time. -/
def samplePolicy : Policy :=
  { maxWriters := 2, queueSize := 4, allowedOver := 1, resizePause := 0, rebalancePause := 1000
    writer := .standard }

/-- A fleet that has routed two keys of a category to its two writers. -/
def sampleFleet : Fleet :=
  (((Fleet.start samplePolicy 0 {}).1.route .general "a").2.route .general "b").2

/-- The fleet after a check. -/
def checkedBench : Dispatch.Bench :=
  Dispatch.Bench.perform 200 (checkChores.map .chore)
    { store := {}, dispatch := { fleet := sampleFleet, backlog := { capacity := 1 } } }

theorem sticky_routing_sample :
    ∃ es now f, Run samplePolicy es now f [] ∧ .dismissed ∉ es ∧
      (∃ past between, es = past ++ .routed .general "b" 1 ::
        (between ++ [.routed .general "b" 0])) ∧ Sticky es f := by
  have hstart : Run samplePolicy [] 0 (Fleet.start samplePolicy 0 {}).1 [] := .start 0 {}
  have hfirst := hstart.route_id .general "a" 0 (by simp) (by decide +kernel)
  have hsecond := hfirst.route_id .general "b" 1 (by simp) (by decide +kernel)
  obtain ⟨es, chores, hrun, htasks, hopen⟩ := (hsecond.check (by simp)).bench_finish
    (b := { store := {}, dispatch := { fleet := sampleFleet, backlog := { capacity := 1 } }
            tasks := checkChores.map .chore }) rfl (by simp) (fun b => b.tasks.isEmpty) 200
  have hdone : checkedBench.tasks.isEmpty = true := by decide +kernel
  rw [List.isEmpty_iff] at hdone
  obtain rfl : chores = [] := List.map_eq_nil_iff.1 (htasks.symm.trans hdone)
  have hthird := hrun.route_id .general "b" 0 hopen (by decide +kernel)
  refine ⟨_, _, _, hthird, by simpa using hopen, ⟨[.routed .general "a" 0], es, by simp⟩,
    hthird.sticky_routing (by simpa using hopen)⟩

end BmpFeed.Fleet
