import BmpFeed.Proofs.Dispatch.Run
import BmpFeed.Proofs.Fleet.Deliveries

/-!
# First in, first out

The requests for one key of a category are delivered in the order in which they were handed over. A
pass puts what it cannot deliver behind everything else, but from then on it keeps every request for
the same writer; so the requests that it has kept are the older ones, and none of them is overtaken
by a request that it delivers. `Run.fifo` accounts for every request that was handed over.
-/

namespace BmpFeed

/-- The request is for this key of the category. -/
def Request.isFor (c : Category) (key : String) (r : Request) : Bool :=
  r.category = c ∧ r.key = key

namespace Dispatch

variable {p : Fleet.Policy} {capacity : Nat} {es : List Event} {now : Nat} {d : Dispatch}
  {desk : Desk} {q q' : Backlog.Pass} {f f' : Fleet} {r : Request} {items others : List Request}
  {waiting : Option Request}

/-- The key of the request belongs to one of these writers. -/
def Refused (f : Fleet) (busy : List Fleet.Slot) (r : Request) : Prop :=
  ∃ place post, (f.posts r.category)[place]? = some post ∧ r.key ∈ post.keys ∧
    ⟨r.category, place⟩ ∈ busy

theorem Refused.congr {busy busy' : List Fleet.Slot} (h : Refused f busy r) (hk : f.Keeps f')
    (hbusy : busy ⊆ busy') : Refused f' busy' r := by
  obtain ⟨place, post, hpost, hkey, hslot⟩ := h
  obtain ⟨post', hpost', -, hkeys⟩ := hk.stays _ place post hpost
  exact ⟨place, post', hpost', hkeys _ hkey, hbusy hslot⟩

/-! ## Passes -/

/-- A pass over a backlog: behind the requests that are still to be looked at come those that were
kept, whose writers have refused a request. -/
structure Passing (f : Fleet) (items : List Request) (q : Backlog.Pass) : Prop where
  left_le : q.left ≤ items.length
  refused : ∀ r ∈ items.drop q.left, Refused f q.busy r

namespace Passing

theorem congr (h : Passing f items q) (hk : f.Keeps f') : Passing f' items q :=
  ⟨h.left_le, fun r hr => (h.refused r hr).congr hk (List.Subset.refl _)⟩

theorem left_le_others (h : Passing f (r :: others) q) : q.left - 1 ≤ others.length := by
  have hle := h.left_le
  rw [List.length_cons] at hle
  omega

theorem drop_eq (hleft : q.left ≠ 0) (r : Request) (others : List Request) :
    (r :: others).drop q.left = others.drop (q.left - 1) := by
  cases hn : q.left with
  | zero => exact absurd hn hleft
  | succ n => rfl

theorem keep (h : Passing f (r :: others) q) (hleft : q.left ≠ 0) (hk : f.Keeps f')
    (hleft' : q'.left = q.left - 1) (hbusy : q.busy ⊆ q'.busy) (hr : Refused f' q'.busy r) :
    Passing f' (others ++ [r]) q' := by
  have hle := h.left_le_others
  constructor
  · rw [hleft', List.length_append]
    omega
  · intro r' hr'
    rw [hleft', List.drop_append_of_le_length hle] at hr'
    rcases List.mem_append.1 hr' with hr' | hr'
    · rw [← drop_eq hleft r] at hr'
      exact (h.refused r' hr').congr hk hbusy
    · rw [List.mem_singleton.1 hr']
      exact hr

theorem deliver (h : Passing f (r :: others) q) (hleft : q.left ≠ 0) (hk : f.Keeps f')
    (hleft' : q'.left = q.left - 1) (hbusy : q'.busy = q.busy) : Passing f' others q' := by
  constructor
  · rw [hleft']
    exact h.left_le_others
  · intro r' hr'
    rw [hleft', ← drop_eq hleft r] at hr'
    rw [hbusy]
    exact (h.refused r' hr').congr hk (List.Subset.refl _)

end Passing

/-- The oldest request is routed to the writer to which its key belongs. -/
theorem Run.passMove (h : Run p capacity es now d { pass := some q, waiting })
    (hitems : d.backlog.items = r :: others) :
    ∃ place id owner,
      PassMove q d r others place id (passEvents q d) (d.passStep q).1 (d.passStep q).2.1 ∧
      Fleet.Run p (fleetEvents es ++ [.routed r.category r.key id]) now
        (d.fleet.route r.category r.key).2 [] ∧
      d.fleet.Keeps (d.fleet.route r.category r.key).2 ∧
      ((d.fleet.route r.category r.key).2.posts r.category)[place]? = some owner ∧
      r.key ∈ owner.keys ∧ owner.writer.id = id := by
  obtain ⟨hfleet, hclosed⟩ := h.fleet
  have hopen : .dismissed ∉ fleetEvents es := fun hmem => absurd (hclosed.1 hmem) (by simp)
  have hposts := (hfleet.crewed hopen).ne_nil r.category
  obtain ⟨place, post, hslot, hpost, m⟩ := Dispatch.passMove (q := q) hitems hposts
  have hpost' : (d.fleet.posts r.category)[(d.fleet.route r.category r.key).1.place]? =
      some post := by
    rw [hslot]
    exact hpost
  obtain ⟨place', posts', hslot', hroutes, ha⟩ := Fleet.route_spec r.key hposts
  obtain rfl : place = place' := congrArg Fleet.Slot.place (hslot.symm.trans hslot')
  obtain ⟨owner, howner, hid, hkey⟩ := hroutes.mem_keys hpost
  exact ⟨place, post.writer.id, owner, m, hfleet.route r.category r.key hopen hpost',
    Fleet.keeps_route hposts r.key, by rw [ha.posts_eq]; exact howner, hkey, hid⟩

theorem Run.passing (h : Run p capacity es now d desk) (hpass : desk.pass = some q) :
    Passing d.fleet d.backlog.items q := by
  induction h generalizing q with
  | wait _ _ ih => exact ih hpass
  | write _ _ _ ih => exact (ih hpass).congr (Fleet.keeps_replace _ _)
  | beginPass _ _ =>
    obtain rfl := Option.some.inj hpass
    exact ⟨Nat.le_refl _, by simp [Backlog.begin_]⟩
  | @passOn es now d q₀ waiting hrun hleft ih =>
    obtain rfl := Option.some.inj hpass
    have h := ih rfl
    cases hitems : d.backlog.items with
    | nil =>
      rw [hitems] at h
      exact absurd (Nat.le_zero.1 h.left_le) hleft
    | cons r others =>
      rw [hitems] at h
      obtain ⟨place, id, owner, m, -, hk, howner, hkey, -⟩ := hrun.passMove hitems
      generalize passEvents q₀ d = ev at m
      generalize (d.passStep q₀).2.1 = d' at m ⊢
      generalize (d.passStep q₀).1 = q' at m ⊢
      cases m with
      | keep hleft' hbusy hslot =>
        exact h.keep hleft hk hleft' hbusy ⟨place, owner, howner, hkey, hslot⟩
      | deliver hsend hleft' hbusy hslot =>
        exact (h.deliver hleft hk hleft' hbusy).congr (Fleet.keeps_send hsend)
  | _ => exact absurd hpass (by simp)

/-! ## The order of the backlog -/

/-- The requests of the backlog in the order in which they were handed over. -/
def ordered (items : List Request) : Option Backlog.Pass → List Request
  | none => items
  | some q => items.drop q.left ++ items.take q.left

theorem mem_ordered {pass : Option Backlog.Pass} : r ∈ ordered items pass ↔ r ∈ items := by
  cases pass with
  | none => exact .rfl
  | some q =>
    conv_rhs => rw [← List.take_append_drop q.left items]
    rw [ordered, List.mem_append, List.mem_append, or_comm]

section Ordered

variable (hleft : q.left ≠ 0) (hleft' : q'.left = q.left - 1)

include hleft hleft'

theorem ordered_keep (h : q.left - 1 ≤ others.length) :
    ordered (others ++ [r]) (some q') = ordered (r :: others) (some q) := by
  unfold ordered
  dsimp only
  rw [Passing.drop_eq hleft, hleft', List.drop_append_of_le_length h,
    List.take_append_of_le_length h, List.append_assoc]
  congr 1
  cases hn : q.left with
  | zero => exact absurd hn hleft
  | succ n => rfl

/-- What is delivered comes before what is left, for a key of which nothing was kept. -/
theorem ordered_deliver {g : Request → Bool}
    (hkept : g r = true → ((r :: others).drop q.left).filter g = []) :
    ([r] ++ ordered others (some q')).filter g = (ordered (r :: others) (some q)).filter g := by
  unfold ordered
  dsimp only
  rw [Passing.drop_eq hleft] at hkept ⊢
  have htake : (r :: others).take q.left = r :: others.take (q.left - 1) := by
    cases hn : q.left with
    | zero => exact absurd hn hleft
    | succ n => rfl
  rw [hleft', htake, List.filter_append, List.filter_append, List.filter_append, List.filter_cons]
  cases hg : g r with
  | true => simp [hkept hg, hg]
  | false => simp [hg]

end Ordered

/-- The next step of a pass keeps account of the requests for a key. -/
theorem Run.fifo_passOn {c : Category} {key : String}
    (h : Run p capacity es now d { pass := some q, waiting }) (hleft : q.left ≠ 0)
    (ih : (pushed es).filter (Request.isFor c key) =
      (Fleet.delivered (fleetEvents es) ++ ordered d.backlog.items (some q) ++
        waiting.toList).filter (Request.isFor c key)) :
    (pushed (es ++ passEvents q d)).filter (Request.isFor c key) =
      (Fleet.delivered (fleetEvents (es ++ passEvents q d)) ++
        ordered (d.passStep q).2.1.backlog.items (some (d.passStep q).1) ++
        waiting.toList).filter (Request.isFor c key) := by
  have hpassing := h.passing rfl
  cases hitems : d.backlog.items with
  | nil =>
    rw [hitems] at hpassing
    exact absurd (Nat.le_zero.1 hpassing.left_le) hleft
  | cons r others =>
    rw [hitems] at hpassing ih
    obtain ⟨place, id, owner, m, hrouted, hk, howner, hkey, -⟩ := h.passMove hitems
    generalize passEvents q d = ev at m ⊢
    generalize (d.passStep q).2.1 = d' at m ⊢
    generalize (d.passStep q).1 = q' at m ⊢
    cases m with
    | keep hleft' hbusy hslot =>
      rw [pushed_append, fleetEvents_append, Fleet.delivered_append]
      rw [ordered_keep hleft hleft' hpassing.left_le_others]
      simpa [pushed, fleetEvents, Fleet.delivered, Fleet.deliveries] using ih
    | deliver hsend hleft' hbusy hslot =>
      have hkept : r.isFor c key = true →
          ((r :: others).drop q.left).filter (Request.isFor c key) = [] := by
        intro hr
        apply List.filter_eq_nil_iff.2
        intro r' hr' hfor
        obtain ⟨place', post', hpost', hkey', hslot'⟩ :=
          (hpassing.refused r' hr').congr hk (List.Subset.refl _)
        simp only [Request.isFor, decide_eq_true_eq] at hr hfor
        rw [hfor.1, ← hr.1] at hpost' hslot'
        rw [hfor.2, ← hr.2] at hkey'
        obtain rfl := Fleet.place_eq_of_owns (hrouted.nodup_keys r.category) howner hpost' hkey
          hkey'
        exact hslot hslot'
      have hnext := ordered_deliver hleft hleft' hkept
      rw [pushed_append, fleetEvents_append, Fleet.delivered_append]
      simp only [List.filter_append] at ih hnext ⊢
      rw [ih, ← hnext]
      simp [pushed, fleetEvents, Fleet.delivered, Fleet.deliveries, List.filter_cons]

/-- Every request that was handed over has been delivered, or it waits, and the requests for one key
of a category are delivered in the order in which they were handed over. -/
theorem Run.fifo (h : Run p capacity es now d desk) (c : Category) (key : String) :
    (pushed es).filter (Request.isFor c key) =
      (Fleet.delivered (fleetEvents es) ++ ordered d.backlog.items desk.pass ++
        desk.waiting.toList).filter (Request.isFor c key) := by
  induction h with
  | start now t => rfl
  | wait _ _ ih => exact ih
  | write _ _ _ ih =>
    rw [pushed_append, pushed_map, fleetEvents_append, fleetEvents_map, Fleet.delivered_append,
      Fleet.delivered_writer, List.append_nil, List.append_nil]
    exact ih
  | hand r _ ih =>
    rw [pushed_append, List.filter_append, ih, fleetEvents_append]
    simp [pushed, fleetEvents, ordered]
  | @push es now d r backlog _ hpush ih =>
    unfold Backlog.push? at hpush
    split_ifs at hpush
    obtain rfl := Option.some.inj hpush
    rw [ih]
    simp [ordered]
  | beginPass _ ih =>
    rw [ih]
    simp [ordered, Backlog.begin_]
  | endPass _ hleft ih =>
    rw [ih]
    simp [ordered, hleft]
  | check _ ih => exact ih
  | dismiss _ _ ih =>
    rw [pushed_append, fleetEvents_append, Fleet.delivered_append]
    simpa [pushed, fleetEvents, Fleet.delivered, Fleet.deliveries] using ih
  | chore _ hstep ih =>
    rw [pushed_append, pushed_map, fleetEvents_append, fleetEvents_map, Fleet.delivered_append,
      Fleet.delivered_eq_nil (Fleet.Chore.move_of_step? hstep).of_eq, List.append_nil,
      List.append_nil]
    exact ih
  | passOn hrun hleft ih => exact hrun.fifo_passOn hleft ih

end Dispatch

end BmpFeed
