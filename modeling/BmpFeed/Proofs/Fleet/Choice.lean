import BmpFeed.Proofs.Fleet.Staffing

/-!
# The writer for a new key

`Chosen` says of a member of a crew that it is where the scan of the crew ends. The scan compares
each member with the best so far. By its queue a member is below, at, or above the half, and one at
the half is compared with both others by what they have counted only. So the scan can go from a
member below the half to one at the half, and from there to one above it.
-/

namespace BmpFeed.Fleet

/-- The scan of some members ends at this one. -/
structure Chosen (mid : Nat) (ms : List Member) (place : Nat) (m : Member) : Prop where
  at_place : ms[place]? = some m
  /-- No member has fewer keys. -/
  fewest : ∀ u ∈ ms, m.keys.length ≤ u.keys.length
  /-- If it is above the half while one with as few keys is below, it stands behind that one, and
  behind one with as few keys that is at the half and has counted more. -/
  loaded : mid < m.depth → ∀ j u, ms[j]? = some u → u.keys.length = m.keys.length → u.depth < mid →
    j < place ∧ ∃ v ∈ ms.take place,
      v.keys.length = m.keys.length ∧ v.depth = mid ∧ m.running < v.running
  /-- If none with as few keys is at the half, it is below the half when one of these is, and it has
  counted the least of those on its side, as the first of them. -/
  best : (∀ u ∈ ms, u.keys.length = m.keys.length → u.depth ≠ mid) →
    ∀ j u, ms[j]? = some u → u.keys.length = m.keys.length →
      (mid < m.depth → mid < u.depth) ∧
        ((mid < m.depth ↔ mid < u.depth) →
          m.running ≤ u.running ∧ (j < place → m.running < u.running))

variable {mid : Nat} {ms : List Member} {place : Nat} {m u : Member}

theorem isBetter_iff : u.isBetter mid m = true ↔
    u.keys.length < m.keys.length ∨ u.keys.length = m.keys.length ∧
      (u.depth < mid ∧ mid < m.depth ∨
        ¬(m.depth < mid ∧ mid < u.depth) ∧ u.running < m.running) := by
  unfold Member.isBetter
  split_ifs <;> simp <;> omega

namespace Chosen

theorem singleton (mid : Nat) (m : Member) : Chosen mid [m] 0 m where
  at_place := rfl
  fewest u hu := Nat.le_of_eq (by rw [List.mem_singleton.1 hu])
  loaded hm j u hu hkeys hlow := by
    obtain ⟨rfl, rfl⟩ : j = 0 ∧ m = u := by simpa [List.getElem?_singleton] using hu
    omega
  best _ j u hu _ := by
    obtain ⟨rfl, rfl⟩ : j = 0 ∧ m = u := by simpa [List.getElem?_singleton] using hu
    exact ⟨id, fun _ => ⟨Nat.le_refl _, fun hj => absurd hj (Nat.lt_irrefl 0)⟩⟩

theorem place_lt (h : Chosen mid ms place m) : place < ms.length :=
  (List.getElem?_eq_some_iff.1 h.at_place).1

theorem getElem?_append_one {j : Nat} {w : Member} (hw : (ms ++ [u])[j]? = some w) :
    ms[j]? = some w ∨ (j = ms.length ∧ w = u) := by
  rcases Nat.lt_or_ge j ms.length with hj | hj
  · exact .inl (by rwa [List.getElem?_append_left hj] at hw)
  · rw [List.getElem?_append_right hj] at hw
    obtain ⟨hj', rfl⟩ : j - ms.length = 0 ∧ u = w := by
      simpa [List.getElem?_singleton] using hw
    exact .inr ⟨by omega, rfl⟩

/-- A member that is better than the best so far takes its place. -/
theorem better (h : Chosen mid ms place m) (hu : u.isBetter mid m = true) :
    Chosen mid (ms ++ [u]) ms.length u := by
  have hm : m ∈ ms := List.mem_of_getElem? h.at_place
  have hle : u.keys.length ≤ m.keys.length := by
    rcases isBetter_iff.1 hu with hlt | ⟨he, -⟩ <;> omega
  -- one with as few keys as `u` is one with as few keys as `m`
  have hsame : ∀ w ∈ ms, w.keys.length = u.keys.length →
      w.keys.length = m.keys.length ∧ (u.depth < mid ∧ mid < m.depth ∨
        ¬(m.depth < mid ∧ mid < u.depth) ∧ u.running < m.running) := by
    intro w hw he
    have hfew := h.fewest w hw
    rcases isBetter_iff.1 hu with hlt | ⟨-, hload⟩
    · omega
    · exact ⟨by omega, hload⟩
  refine ⟨by simp, fun w hw => ?_, fun hhigh j w hw hkeys hlow => ?_,
    fun hnone j w hw hkeys => ?_⟩
  · rcases List.mem_append.1 hw with hw | hw
    · exact Nat.le_trans hle (h.fewest w hw)
    · exact Nat.le_of_eq (by rw [List.mem_singleton.1 hw])
  · rcases getElem?_append_one hw with hw | ⟨-, rfl⟩
    swap
    · omega
    obtain ⟨hkeys', hload⟩ := hsame w (List.mem_of_getElem? hw) hkeys
    refine ⟨(List.getElem?_eq_some_iff.1 hw).1, ?_⟩
    rw [List.take_left]
    rcases Nat.lt_or_ge mid m.depth with hmid | hmid
    · obtain ⟨-, v, hv, hvkeys, hvdepth, hvrun⟩ := h.loaded hmid j w hw hkeys' hlow
      exact ⟨v, List.mem_of_mem_take hv, by omega, hvdepth, by omega⟩
    · exact ⟨m, hm, by omega, by omega, by omega⟩
  · rcases getElem?_append_one hw with hw | ⟨rfl, rfl⟩
    swap
    · exact ⟨id, fun _ => ⟨Nat.le_refl _, fun hj => absurd hj (Nat.lt_irrefl _)⟩⟩
    obtain ⟨hkeys', hload⟩ := hsame w (List.mem_of_getElem? hw) hkeys
    have hbest := h.best
      (fun v hv he => hnone v (List.mem_append_left _ hv) (by omega)) j w hw hkeys'
    have hm' := hnone m (List.mem_append_left _ hm) (by omega)
    have hw' := hnone w (List.mem_append_left _ (List.mem_of_getElem? hw)) hkeys
    have hu' := hnone u (List.mem_append_right _ (List.mem_singleton_self _)) rfl
    exact ⟨by omega, fun hside => ⟨by omega, fun _ => by omega⟩⟩

/-- A member that is not better changes nothing. -/
theorem keep (h : Chosen mid ms place m) (hu : u.isBetter mid m = false) :
    Chosen mid (ms ++ [u]) place m := by
  have hnot : ¬(u.keys.length < m.keys.length ∨ u.keys.length = m.keys.length ∧
      (u.depth < mid ∧ mid < m.depth ∨
        ¬(m.depth < mid ∧ mid < u.depth) ∧ u.running < m.running)) := fun hiff => by
    simp [isBetter_iff.2 hiff] at hu
  have hlt := h.place_lt
  refine ⟨by rw [List.getElem?_append_left hlt]; exact h.at_place, fun w hw => ?_,
    fun hhigh j w hw hkeys hlow => ?_, fun hnone j w hw hkeys => ?_⟩
  · rcases List.mem_append.1 hw with hw | hw
    · exact h.fewest w hw
    · rw [List.mem_singleton.1 hw]
      omega
  · rcases getElem?_append_one hw with hw | ⟨-, rfl⟩
    · rw [List.take_append_of_le_length (Nat.le_of_lt hlt)]
      exact h.loaded hhigh j w hw hkeys hlow
    · omega
  · rcases getElem?_append_one hw with hw | ⟨rfl, rfl⟩
    · exact h.best (fun v hv => hnone v (List.mem_append_left _ hv)) j w hw hkeys
    · have hw' := hnone w (List.mem_append_right _ (List.mem_singleton_self _)) hkeys
      exact ⟨by omega, fun hside => ⟨by omega, fun hj => by omega⟩⟩

end Chosen

/-- The scan goes on from the best of those that it has seen. -/
theorem Crew.scan_chosen (mid : Nat) (later : List Member) {seen : List Member} {place : Nat}
    {best : Member} (h : Chosen mid seen place best) :
    Chosen mid (seen ++ later) (scan mid (place, best) seen.length later).1
      (scan mid (place, best) seen.length later).2 := by
  induction later generalizing seen place best with
  | nil => rwa [List.append_nil]
  | cons u later ih =>
    unfold scan
    rw [← List.singleton_append, ← List.append_assoc]
    have hlen : seen.length + 1 = (seen ++ [u]).length := by simp
    rw [hlen]
    cases hu : u.isBetter mid best with
    | true => exact ih (h.better hu)
    | false => exact ih (h.keep hu)

theorem Crew.choose_chosen (mid : Nat) (hms : ms ≠ []) :
    ∃ m, Chosen mid ms (choose mid ms) m := by
  cases ms with
  | nil => exact absurd rfl hms
  | cons m ms => exact ⟨_, scan_chosen mid ms (Chosen.singleton mid m)⟩

variable {p : Policy} {hired : List Writer} {now : Nat} {f : Fleet} {c : Category} {key : String}

/-- A key that belongs to nobody goes to the writer where the scan of the crew ends. -/
theorem Managed.new_key (h : Managed p hired false now f [])
    (hnew : ∀ m ∈ (f.crew c).members, key ∉ m.keys) :
    ∃ place m, (f.route c key).1 = ⟨c, place⟩ ∧
      Chosen (p.queueSize / 2) ((f.crew c).members.map Member.refreshed) place m := by
  obtain ⟨es, hrun, hd⟩ := h.run
  have hmid : f.mid = p.queueSize / 2 := by rw [mid, hrun.staff.policy_eq]
  have hmembers : (f.crew c).members.map Member.refreshed ≠ [] := by
    intro hnil
    refine (hrun.crewed (by simp [hd])).ne_nil c ?_
    rw [posts, List.map_eq_nil_iff.1 hnil, List.map_nil]
  have hnone : (f.crew c).ownerPlace? key = none := by
    refine List.findIdx?_eq_none_iff.2 fun m hm => ?_
    simpa [Member.owns] using hnew m hm
  obtain ⟨m, hm⟩ := Crew.choose_chosen f.mid hmembers
  rw [← hmid]
  refine ⟨_, m, ?_, hm⟩
  unfold Fleet.route Crew.route
  rw [hnone]

/-! ## A full queue instead of an empty one -/

/-- Three writers of a category with short queues. -/
def tightPolicy : Policy :=
  { maxWriters := 3, queueSize := 2, allowedOver := 1, resizePause := 0, rebalancePause := 1000
    writer := .standard }

/-- A new fleet of three writers, after four requests for one key and two for another. -/
def busyFleet : Fleet :=
  ((Fleet.start tightPolicy 0 {}).1.deliver .general "a" 4).deliver .general "b" 2

/-- The writers go on until all queues are empty. -/
def idleBench : Dispatch.Bench :=
  Timed.finish (fun b => b.dispatch.fleet.depth == 0) 100
    { store := {}, dispatch := { fleet := busyFleet, backlog := { capacity := 1 } } }

/-- Then one more request for the second key came, and two for a third. -/
def tightFleet : Fleet :=
  (idleBench.dispatch.fleet.deliver .general "b" 1).deliver .general "c" 2

theorem managed_tightFleet :
    ∃ hired, Managed tightPolicy hired false idleBench.now tightFleet [] := by
  have hbusy : Managed tightPolicy _ false 0 busyFleet [] :=
    ((Managed.start 0 {}).deliver .general "a" 4).deliver .general "b" 2
  obtain ⟨hired, chores, hidle, htasks⟩ := hbusy.bench_finish
    (b := { store := {}, dispatch := { fleet := busyFleet, backlog := { capacity := 1 } } }) rfl
    (fun b => b.dispatch.fleet.depth == 0) 100
  have hdone : idleBench.tasks.isEmpty = true := by decide +kernel
  obtain rfl : chores = [] := List.map_eq_nil_iff.1 (htasks.symm.trans (List.isEmpty_iff.1 hdone))
  exact ⟨hired, (Managed.deliver hidle .general "b" 1).deliver .general "c" 2⟩

theorem length_tightFleet : 2 < (tightFleet.crew .general).members.length := by decide +kernel

theorem new_key_sample :
    ∃ hired now f, Managed tightPolicy hired false now f [] ∧
      (∀ m ∈ (f.crew .general).members, "d" ∉ m.keys) ∧
      ∃ place m, (f.route .general "d").1 = ⟨.general, place⟩ ∧
        Chosen 1 ((f.crew .general).members.map Member.refreshed) place m := by
  obtain ⟨hired, h⟩ := managed_tightFleet
  have hnew : ∀ m ∈ (tightFleet.crew .general).members, "d" ∉ m.keys := by decide +kernel
  exact ⟨hired, _, _, h, hnew, h.new_key hnew⟩

/-- The new key goes to the writer with the full queue although one with an empty queue has as few
keys. -/
theorem full_over_empty :
    ∃ hired now f m u, Managed tightPolicy hired false now f [] ∧
      (∀ v ∈ (f.crew .general).members, "d" ∉ v.keys ∧ m.keys.length ≤ v.keys.length) ∧
      (f.crew .general).members[(f.route .general "d").1.place]? = some m ∧
      u ∈ (f.crew .general).members ∧ u.keys.length = m.keys.length ∧
      tightPolicy.queueSize / 2 < m.depth ∧ u.depth < tightPolicy.queueSize / 2 := by
  obtain ⟨hired, h⟩ := managed_tightFleet
  have hplace : (tightFleet.route .general "d").1.place = 2 := by decide +kernel
  refine ⟨hired, _, _, (tightFleet.crew .general).members.get ⟨2, length_tightFleet⟩,
    (tightFleet.crew .general).members.get ⟨0, by decide +kernel⟩, h, by decide +kernel, ?_,
    List.get_mem _ _, by decide +kernel, by decide +kernel, by decide +kernel⟩
  rw [hplace]
  exact List.getElem?_eq_getElem length_tightFleet

end BmpFeed.Fleet
