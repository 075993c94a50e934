import BmpFeed.Dispatch
import BmpFeed.Proofs.Fleet.Sticky

/-!
# Runs of a dispatch

`Run` holds of everything that an owner can do with a dispatch: it hands over one request at a time,
which waits until there is room in the backlog; it makes passes over the backlog, checks the fleet,
and at last, when the backlog is empty, dismisses the fleet. A `Desk` says what the owner is at.
`Run.fleet` finds the run of the fleet in a run of the dispatch.
-/

namespace BmpFeed.Dispatch

/-- What the owner of a dispatch is at. -/
structure Desk where
  /-- The chores of the fleet that are to be done. -/
  chores : List Fleet.Chore := []
  /-- The pass that is under way. -/
  pass : Option Backlog.Pass := none
  /-- The request that waits for room in the backlog. -/
  waiting : Option Request := none
  /-- The fleet is dismissed. -/
  closed : Bool := false

/-- What a run of a dispatch shows. -/
inductive Event
  | fleet (e : Fleet.Event)
  /-- A request was handed over. -/
  | pushed (r : Request)

/-- What the next step of a pass shows. -/
def passEvents (q : Backlog.Pass) (d : Dispatch) : List Event :=
  match d.backlog.items with
  | [] => []
  | r :: _ =>
    let (slot, f) := d.fleet.route r.category r.key
    match (d.fleet.posts r.category)[slot.place]? with
    | none => []
    | some post =>
      .fleet (.routed r.category r.key post.writer.id) ::
        if slot ∈ q.busy ∨ f.send? slot r = none then []
        else [.fleet (.delivered r.category post.writer.id r)]

/-- The runs of a dispatch, with their events, the time, and what the owner is at. -/
inductive Run (p : Fleet.Policy) (capacity : Nat) : List Event → Nat → Dispatch → Desk → Prop
  | start (now : Nat) (t : Store) : Run p capacity [] now (Dispatch.start p capacity now t).1 {}
  | wait {es : List Event} {now now' : Nat} {d : Dispatch} {desk : Desk} :
      Run p capacity es now d desk → now ≤ now' → Run p capacity es now' d desk
  | write {es : List Event} {now : Nat} {d : Dispatch} {desk : Desk} {t : Store} {w : Writer}
      {turn : Writer.Turn} :
      Run p capacity es now d desk → w ∈ d.fleet.writers → w.step? now t = some turn →
        Run p capacity (es ++ ((w.events t).map (.writer w.id)).map .fleet) now
          { d with fleet := d.fleet.replace turn.writer } desk
  | hand {es : List Event} {now : Nat} {d : Dispatch} (r : Request) :
      Run p capacity es now d {} → Run p capacity (es ++ [.pushed r]) now d { waiting := some r }
  | push {es : List Event} {now : Nat} {d : Dispatch} {r : Request} {backlog : Backlog} :
      Run p capacity es now d { waiting := some r } → d.backlog.push? r = some backlog →
        Run p capacity es now { d with backlog } {}
  | beginPass {es : List Event} {now : Nat} {d : Dispatch} {waiting : Option Request} :
      Run p capacity es now d { waiting } →
        Run p capacity es now d { pass := some d.backlog.begin_, waiting }
  | passOn {es : List Event} {now : Nat} {d : Dispatch} {q : Backlog.Pass}
      {waiting : Option Request} :
      Run p capacity es now d { pass := some q, waiting } → q.left ≠ 0 →
        Run p capacity (es ++ passEvents q d) now (d.passStep q).2.1
          { pass := some (d.passStep q).1, waiting }
  | endPass {es : List Event} {now : Nat} {d : Dispatch} {q : Backlog.Pass}
      {waiting : Option Request} :
      Run p capacity es now d { pass := some q, waiting } → q.left = 0 →
        Run p capacity es now d { waiting }
  | check {es : List Event} {now : Nat} {d : Dispatch} :
      Run p capacity es now d {} → Run p capacity es now d { chores := Fleet.checkChores }
  | dismiss {es : List Event} {now : Nat} {d : Dispatch} :
      Run p capacity es now d {} → d.backlog.isEmpty = true →
        Run p capacity (es ++ [.fleet .dismissed]) now d
          { chores := Fleet.shutdownChores, closed := true }
  | chore {es : List Event} {now : Nat} {d : Dispatch} {chore : Fleet.Chore}
      {chores : List Fleet.Chore} {closed : Bool} {t : Store} {turn : Fleet.Chore.Turn} :
      Run p capacity es now d { chores := chore :: chores, closed } →
        chore.step? now d.fleet t = some turn →
        Run p capacity (es ++ (chore.events now d.fleet t).map .fleet) now
          { d with fleet := turn.fleet } { chores := turn.chores ++ chores, closed }

/-! ## Views of the events -/

/-- The events of the fleet. -/
def fleetEvents (es : List Event) : List Fleet.Event :=
  es.filterMap fun | .fleet e => some e | _ => none

/-- The requests that were handed over. -/
def pushed (es : List Event) : List Request :=
  es.filterMap fun | .pushed r => some r | _ => none

section Views

variable (es es' : List Event)

@[simp] theorem fleetEvents_append :
    fleetEvents (es ++ es') = fleetEvents es ++ fleetEvents es' :=
  List.filterMap_append

@[simp] theorem pushed_append : pushed (es ++ es') = pushed es ++ pushed es' :=
  List.filterMap_append

@[simp] theorem fleetEvents_map (fs : List Fleet.Event) : fleetEvents (fs.map .fleet) = fs := by
  simp [fleetEvents, List.filterMap_map]

@[simp] theorem pushed_map (fs : List Fleet.Event) : pushed (fs.map .fleet) = [] := by
  simp [pushed, List.filterMap_map]

end Views

/-! ## Passes -/

variable {p : Fleet.Policy} {capacity : Nat} {es : List Event} {now : Nat} {d : Dispatch}
  {desk : Desk} {q : Backlog.Pass}

/-- What the next step of a pass does with the oldest request `r`, which is routed to `place`, where
the writer has the number `id`: the request goes behind the `others`, or to the writer. -/
inductive PassMove (q : Backlog.Pass) (d : Dispatch) (r : Request) (others : List Request)
    (place id : Nat) : List Event → Backlog.Pass → Dispatch → Prop
  | keep {q' : Backlog.Pass} (hleft : q'.left = q.left - 1) (hbusy : q.busy ⊆ q'.busy)
      (hslot : ⟨r.category, place⟩ ∈ q'.busy) :
      PassMove q d r others place id [.fleet (.routed r.category r.key id)] q'
        { fleet := (d.fleet.route r.category r.key).2
          backlog := { d.backlog with items := others ++ [r] } }
  | deliver {q' : Backlog.Pass} {f : Fleet} {note : Note}
      (hsend : (d.fleet.route r.category r.key).2.send? ⟨r.category, place⟩ r = some (f, note))
      (hleft : q'.left = q.left - 1) (hbusy : q'.busy = q.busy)
      (hslot : ⟨r.category, place⟩ ∉ q.busy) :
      PassMove q d r others place id
        [.fleet (.routed r.category r.key id), .fleet (.delivered r.category id r)] q'
        { fleet := f, backlog := { d.backlog with items := others } }

theorem passMove {r : Request} {others : List Request} (hitems : d.backlog.items = r :: others)
    (hposts : d.fleet.posts r.category ≠ []) :
    ∃ place post, (d.fleet.route r.category r.key).1 = ⟨r.category, place⟩ ∧
      (d.fleet.posts r.category)[place]? = some post ∧
      PassMove q d r others place post.writer.id (passEvents q d) (d.passStep q).1
        (d.passStep q).2.1 := by
  obtain ⟨place, posts, hslot, hroutes, ha⟩ := Fleet.route_spec r.key hposts
  obtain ⟨post, hpost⟩ : ∃ post, (d.fleet.posts r.category)[place]? = some post := by
    cases hroutes with
    | owned hpost _ => exact ⟨_, hpost⟩
    | new hlt _ => exact ⟨_, List.getElem?_eq_getElem hlt⟩
  refine ⟨place, post, hslot, hpost, ?_⟩
  unfold passEvents passStep Backlog.passOn Backlog.offer
  simp only [hitems, hslot, hpost]
  by_cases hbusy : ⟨r.category, place⟩ ∈ q.busy
  · simp only [hbusy, if_true, true_or]
    exact .keep rfl (List.Subset.refl _) hbusy
  · cases hsend : (d.fleet.route r.category r.key).2.send? ⟨r.category, place⟩ r with
    | none =>
      simp only [hbusy, if_false, or_true, if_true]
      exact .keep rfl (List.subset_cons_self _ _) List.mem_cons_self
    | some s =>
      obtain ⟨f, note⟩ := s
      simp only [hbusy, if_false, or_false, reduceCtorEq]
      exact .deliver hsend rfl rfl hbusy

/-- A pass over an empty backlog does nothing. -/
theorem passStep_nil (hitems : d.backlog.items = []) :
    passEvents q d = [] ∧ (d.passStep q).1 = { q with left := 0 } ∧ (d.passStep q).2.1 = d := by
  unfold passEvents passStep Backlog.passOn
  rw [hitems]
  exact ⟨rfl, rfl, rfl⟩

/-- A pass hands nothing over. -/
theorem pushed_passEvents (q : Backlog.Pass) (d : Dispatch) : pushed (passEvents q d) = [] := by
  unfold passEvents
  split
  · rfl
  · dsimp only
    split
    · rfl
    · split_ifs <;> rfl

/-! ## The fleet of a dispatch -/

/-- The fleet of a dispatch is in a run of its own. -/
theorem Run.fleet (h : Run p capacity es now d desk) :
    Fleet.Run p (fleetEvents es) now d.fleet desk.chores ∧
      (.dismissed ∈ fleetEvents es ↔ desk.closed = true) := by
  induction h with
  | start now t => exact ⟨.start now t, by simp [fleetEvents]⟩
  | wait _ hle ih => exact ⟨ih.1.wait hle, ih.2⟩
  | write _ hw hstep ih =>
    rw [fleetEvents_append, fleetEvents_map]
    exact ⟨ih.1.write hw hstep, by simpa using ih.2⟩
  | hand r _ ih =>
    rw [fleetEvents_append]
    exact ⟨by simpa [fleetEvents] using ih.1, by simpa [fleetEvents] using ih.2⟩
  | push _ _ ih => exact ih
  | beginPass _ ih => exact ih
  | endPass _ _ ih => exact ih
  | check _ ih => exact ⟨ih.1.check fun hmem => absurd (ih.2.1 hmem) (by simp), ih.2⟩
  | dismiss _ _ ih =>
    rw [fleetEvents_append]
    exact ⟨ih.1.dismiss fun hmem => absurd (ih.2.1 hmem) (by simp), by simp [fleetEvents]⟩
  | chore _ hstep ih =>
    have hnot := (Fleet.Chore.move_of_step? hstep).not_mem (e := .dismissed) rfl
    rw [fleetEvents_append, fleetEvents_map]
    exact ⟨ih.1.chore hstep, by rw [List.mem_append, or_iff_left hnot]; exact ih.2⟩
  | @passOn es now d q waiting _ _ ih =>
    have hopen : .dismissed ∉ fleetEvents es := fun hmem => absurd (ih.2.1 hmem) (by simp)
    rw [fleetEvents_append]
    cases hitems : d.backlog.items with
    | nil =>
      obtain ⟨hevents, -, hd⟩ := passStep_nil (q := q) hitems
      rw [hevents, hd]
      simpa [fleetEvents] using ih
    | cons r others =>
      obtain ⟨place, post, hslot, hpost, m⟩ :=
        passMove (q := q) hitems ((ih.1.crewed hopen).ne_nil r.category)
      have hroute : (d.fleet.posts r.category)[(d.fleet.route r.category r.key).1.place]? =
          some post := by
        rw [hslot]
        exact hpost
      have hrouted := ih.1.route r.category r.key hopen hroute
      generalize passEvents q d = ev at m ⊢
      generalize (d.passStep q).2.1 = d' at m ⊢
      generalize (d.passStep q).1 = q' at m ⊢
      cases m with
      | keep => exact ⟨hrouted, by simpa [fleetEvents] using hopen⟩
      | @deliver q' f note hsend =>
        obtain ⟨place', posts', hslot', hroutes, ha⟩ := Fleet.route_spec r.key
          ((ih.1.crewed hopen).ne_nil r.category)
        obtain rfl : place = place' := congrArg Fleet.Slot.place (hslot.symm.trans hslot')
        obtain ⟨post', hpost', hid, -⟩ := hroutes.mem_keys hpost
        have hsent := hrouted.send (by simpa using hopen) hsend (by rw [ha.posts_eq]; exact hpost')
        rw [hid, List.append_assoc] at hsent
        exact ⟨hsent, by simpa [fleetEvents] using hopen⟩

end BmpFeed.Dispatch
