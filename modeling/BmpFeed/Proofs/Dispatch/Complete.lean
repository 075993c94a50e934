import BmpFeed.Proofs.Dispatch.Fifo
import BmpFeed.Proofs.Fleet.Closing
import BmpFeed.Proofs.Writer.Ledger

/-!
# No request is lost

When the fleet of a dispatch is dismissed and has ended, every request that was handed over has been
in the queue of one writer and in one of the batches that this writer wrote. `Complete` says what is
true then, and `Run.complete` that it is, unless a writer died.
-/

namespace BmpFeed.Dispatch

variable {p : Fleet.Policy} {capacity : Nat} {es : List Event} {now : Nat} {d : Dispatch}
  {desk : Desk} {c : Category} {id : Nat} {r : Request}

/-- Requests are batched and carry a fragment. -/
def Batched (es : List Event) : Prop :=
  ∀ r ∈ pushed es, r.batchable = true ∧ r.values.entries ≠ []

theorem Batched.of_append {es' : List Event} (h : Batched (es ++ es')) : Batched es := fun r hr =>
  h r (by rw [pushed_append]; exact List.mem_append_left _ hr)

/-- A dispatch that has ended, with what became of the requests that were handed over. -/
structure Complete (p : Fleet.Policy) (es : List Event) (d : Dispatch) : Prop where
  backlog_eq : d.backlog.items = []
  writers_eq : d.fleet.writers = []
  /-- The queues of the writers took the requests that were handed over, each once. -/
  accepted_perm : ((List.range d.fleet.nextId).flatMap fun id =>
    Writer.accepted (Fleet.of id (fleetEvents es))).Perm (pushed es)
  /-- A writer takes requests of one category, through the crew that it is in. -/
  category_eq : ∀ id, ∃ c, ∀ r ∈ Writer.accepted (Fleet.of id (fleetEvents es)),
    .delivered c id r ∈ fleetEvents es ∧ r.category = c
  /-- Every writer has left with an empty queue and an empty batch. -/
  left : ∀ id < d.fleet.nextId, ∃ w n,
    .retired w ∈ fleetEvents es ∧ w.id = id ∧
    Writer.Run p.writer p.queueSize (Fleet.of id (fleetEvents es)) n w ∧
    w.phase = .gone ∧ w.queue = [] ∧ w.batch = {}
  /-- The requests of a writer went into the batches that it wrote, each into one. -/
  merged : ∀ id, ∃ segments : List (List Request),
    segments.flatten = Writer.accepted (Fleet.of id (fleetEvents es)) ∧
    Writer.flushed (Fleet.of id (fleetEvents es)) = segments.map Writer.Batch.ofRequests
  /-- Every value in a batch that was written came with a request. -/
  values : ∀ id, ∀ b ∈ Writer.flushed (Fleet.of id (fleetEvents es)), ∀ g ∈ b.groups.entries,
    ∀ v ∈ g.2.entries, ∃ r ∈ pushed es, r.template = g.1 ∧ v ∈ r.values.entries

namespace Run

/-- Nothing waits once the fleet is dismissed. -/
theorem items_of_closed (h : Run p capacity es now d desk) (hclosed : desk.closed = true) :
    d.backlog.items = [] ∧ desk.pass = none ∧ desk.waiting = none := by
  induction h with
  | wait _ _ ih => exact ih hclosed
  | write _ _ _ ih => exact ih hclosed
  | dismiss _ hempty _ => exact ⟨List.isEmpty_iff.1 hempty, rfl, rfl⟩
  | chore _ _ ih => exact ⟨(ih hclosed).1, rfl, rfl⟩
  | _ => exact absurd hclosed (by simp)

/-- A request is delivered to a writer of its category. -/
theorem category_eq (h : Run p capacity es now d desk)
    (hmem : .delivered c id r ∈ fleetEvents es) : r.category = c := by
  induction h with
  | start => exact absurd hmem (by simp [fleetEvents])
  | wait _ _ ih => exact ih hmem
  | write _ _ _ ih =>
    rw [fleetEvents_append, fleetEvents_map] at hmem
    exact ih ((List.mem_append.1 hmem).resolve_right (by simp))
  | hand _ _ ih =>
    rw [fleetEvents_append] at hmem
    exact ih ((List.mem_append.1 hmem).resolve_right (by simp [fleetEvents]))
  | push _ _ ih => exact ih hmem
  | beginPass _ ih => exact ih hmem
  | endPass _ _ ih => exact ih hmem
  | check _ ih => exact ih hmem
  | dismiss _ _ ih =>
    rw [fleetEvents_append] at hmem
    exact ih ((List.mem_append.1 hmem).resolve_right (by simp [fleetEvents]))
  | chore _ hstep ih =>
    rw [fleetEvents_append, fleetEvents_map] at hmem
    exact ih ((List.mem_append.1 hmem).resolve_right
      ((Fleet.Chore.move_of_step? hstep).not_mem rfl))
  | @passOn es now d q waiting hrun _ ih =>
    rw [fleetEvents_append] at hmem
    rcases List.mem_append.1 hmem with hmem | hmem
    · exact ih hmem
    cases hitems : d.backlog.items with
    | nil =>
      rw [(passStep_nil hitems).1] at hmem
      exact absurd hmem (by simp [fleetEvents])
    | cons r' others =>
      obtain ⟨place, id', owner, m, -⟩ := hrun.passMove hitems
      generalize passEvents q d = ev at m hmem
      generalize (d.passStep q).2.1 = d' at m
      generalize (d.passStep q).1 = q' at m
      cases m with
      | keep => exact absurd hmem (by simp [fleetEvents])
      | deliver =>
        obtain ⟨rfl, -, rfl⟩ : c = r'.category ∧ id = id' ∧ r = r' := by
          simpa [fleetEvents] using hmem
        rfl

/-- All requests of a writer are of one category. -/
theorem exists_category (h : Run p capacity es now d desk) (id : Nat) :
    ∃ c, ∀ r ∈ Writer.accepted (Fleet.of id (fleetEvents es)),
      .delivered c id r ∈ fleetEvents es ∧ r.category = c := by
  have hfleet := h.fleet.1
  by_cases hnil : Writer.accepted (Fleet.of id (fleetEvents es)) = []
  · exact ⟨.general, by simp [hnil]⟩
  · obtain ⟨r₀, hr₀⟩ := List.exists_mem_of_ne_nil _ hnil
    obtain ⟨c, hc⟩ := hfleet.exists_delivered hr₀
    refine ⟨c, fun r hr => ?_⟩
    obtain ⟨c', hc'⟩ := hfleet.exists_delivered hr
    obtain rfl := hfleet.category_unique hc hc'
    exact ⟨hc', h.category_eq hc'⟩

/-- What was handed over and neither waits nor is in the backlog was delivered. -/
theorem delivered_perm (h : Run p capacity es now d desk) (hclosed : desk.closed = true) :
    (Fleet.delivered (fleetEvents es)).Perm (pushed es) := by
  obtain ⟨hitems, hpass, hwaiting⟩ := h.items_of_closed hclosed
  apply List.perm_iff_count.2
  intro r
  have hfor : r.isFor r.category r.key = true := by simp [Request.isFor]
  have hfifo := h.fifo r.category r.key
  rw [hitems, hpass, hwaiting] at hfifo
  rw [← List.count_filter (l := pushed es) hfor, hfifo, List.count_filter hfor]
  simp [ordered]

/-- What was delivered was handed over. -/
theorem mem_pushed_of_delivered (h : Run p capacity es now d desk)
    (hmem : r ∈ Fleet.delivered (fleetEvents es)) : r ∈ pushed es := by
  have hfor : r.isFor r.category r.key = true := by simp [Request.isFor]
  have hr : r ∈ (pushed es).filter (Request.isFor r.category r.key) := by
    rw [h.fifo]
    exact List.mem_filter.2 ⟨List.mem_append_left _ (List.mem_append_left _ hmem), hfor⟩
  exact (List.mem_filter.1 hr).1

/-- What is in the backlog was handed over. -/
theorem mem_pushed_of_item (h : Run p capacity es now d desk) (hmem : r ∈ d.backlog.items) :
    r ∈ pushed es := by
  have hfor : r.isFor r.category r.key = true := by simp [Request.isFor]
  have hr : r ∈ (pushed es).filter (Request.isFor r.category r.key) := by
    rw [h.fifo]
    refine List.mem_filter.2 ⟨List.mem_append_left _ (List.mem_append_right _ ?_), hfor⟩
    exact mem_ordered.2 hmem
  exact (List.mem_filter.1 hr).1

/-- What a queue took was handed over. -/
theorem mem_pushed_of_accepted (h : Run p capacity es now d desk)
    (hmem : r ∈ Writer.accepted (Fleet.of id (fleetEvents es))) : r ∈ pushed es := by
  rw [h.fleet.1.accepted_of] at hmem
  obtain ⟨x, hx, rfl⟩ := List.mem_map.1 hmem
  exact h.mem_pushed_of_delivered (List.mem_map_of_mem (List.mem_of_mem_filter hx))

theorem filled (h : Run p capacity es now d desk) (hb : Batched es) :
    Writer.Filled (Fleet.of id (fleetEvents es)) :=
  fun _ hr _ => (hb _ (h.mem_pushed_of_accepted hr)).2

theorem filter_accepted (h : Run p capacity es now d desk) (hb : Batched es) :
    (Writer.accepted (Fleet.of id (fleetEvents es))).filter Request.batchable =
      Writer.accepted (Fleet.of id (fleetEvents es)) :=
  List.filter_eq_self.2 fun _ hr => (hb _ (h.mem_pushed_of_accepted hr)).1

/-- A dispatch whose fleet was dismissed and whose chores are done has lost nothing, unless one of
its writers died. -/
theorem complete (h : Run p capacity es now d { closed := true }) (hb : Batched es)
    (hdied : ∀ id, .died ∉ Fleet.of id (fleetEvents es)) : Complete p es d := by
  obtain ⟨hfleet, hdismissed⟩ := h.fleet
  have hwriters := hfleet.writers_eq_nil (hdismissed.2 rfl)
  have hleft : ∀ id < d.fleet.nextId, ∃ w n,
      .retired w ∈ fleetEvents es ∧ w.id = id ∧
      Writer.Run p.writer p.queueSize (Fleet.of id (fleetEvents es)) n w ∧ w.phase = .gone :=
    fun id hlt => hfleet.left_of_absent (hdied id) hlt (by simp [hwriters])
  have hmerged : ∀ id, ∃ segments : List (List Request),
      segments.flatten = Writer.accepted (Fleet.of id (fleetEvents es)) ∧
      Writer.flushed (Fleet.of id (fleetEvents es)) =
        segments.map Writer.Batch.ofRequests := by
    intro id
    by_cases hlt : id < d.fleet.nextId
    · obtain ⟨w, n, -, -, hrun, hgone⟩ := hleft id hlt
      obtain ⟨-, -, segments, hsegments, hflushed⟩ := hrun.settled (h.filled hb) hgone
      exact ⟨segments, hsegments.trans (h.filter_accepted hb), hflushed⟩
    · refine ⟨[], ?_⟩
      rw [hfleet.staff.roster.fresh id (Nat.le_of_not_lt hlt)]
      exact ⟨rfl, rfl⟩
  constructor
  · exact (h.items_of_closed rfl).1
  · exact hwriters
  · exact hfleet.accepted_perm.trans (h.delivered_perm rfl)
  · exact h.exists_category
  · intro id hlt
    obtain ⟨w, n, hret, hid, hrun, hgone⟩ := hleft id hlt
    obtain ⟨hqueue, hbatch, -⟩ := hrun.settled (h.filled hb) hgone
    exact ⟨w, n, hret, hid, hrun, hgone, hqueue, hbatch⟩
  · exact hmerged
  · intro id b hmem g hg v hv
    obtain ⟨segments, hsegments, hflushed⟩ := hmerged id
    rw [hflushed] at hmem
    obtain ⟨seg, hseg, rfl⟩ := List.mem_map.1 hmem
    obtain ⟨r, hr, ht, hval⟩ := Writer.Batch.exists_of_mem_ofRequests hg hv
    have haccepted : r ∈ Writer.accepted (Fleet.of id (fleetEvents es)) := by
      rw [← hsegments]
      exact List.mem_flatten.2 ⟨seg, hseg, hr⟩
    exact ⟨r, h.mem_pushed_of_accepted haccepted, ht, hval⟩

end Run

end BmpFeed.Dispatch
