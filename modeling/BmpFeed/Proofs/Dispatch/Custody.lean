import BmpFeed.Proofs.Dispatch.Complete
import BmpFeed.Proofs.Writer.Custody

/-!
# Where a request of a dispatch is

A request that was handed over waits in the backlog, or one of the writers holds it, or the store
has run what became of it. `Run.landed` is about the last of the three, at any time of a run in
which no writer has died and no query was given up.
-/

namespace BmpFeed.Dispatch

variable {p : Fleet.Policy} {capacity : Nat} {es : List Event} {now : Nat} {d : Dispatch}
  {desk : Desk} {r : Request}

/-- Something of the request is on its way to the store. -/
def Holds (d : Dispatch) (r : Request) : Prop :=
  r ∈ d.backlog.items ∨ ∃ w ∈ d.fleet.writers, w.Holds r

/-- The store has run what became of the request. -/
structure Landed (es : List Event) (d : Dispatch) (r : Request) : Prop where
  /-- The queues of the writers took the request as often as it was handed over. -/
  accepted : ((List.range d.fleet.nextId).flatMap fun id =>
    Writer.accepted (Fleet.of id (fleetEvents es))).count r = (pushed es).count r
  /-- Each of the writers has written what its queue took of it. -/
  landed : ∀ id, Writer.Landed (Fleet.of id (fleetEvents es)) r

namespace Run

/-- What is not in the backlog, and does not wait for room in it, was delivered. -/
theorem count_delivered (h : Run p capacity es now d desk) (hwaiting : desk.waiting ≠ some r)
    (hitems : r ∉ d.backlog.items) :
    (Fleet.delivered (fleetEvents es)).count r = (pushed es).count r := by
  have hfor : r.isFor r.category r.key = true := by simp [Request.isFor]
  have hordered : r ∉ ordered d.backlog.items desk.pass := fun hmem => hitems (mem_ordered.1 hmem)
  have hnone : r ∉ desk.waiting.toList := fun hmem => hwaiting (Option.mem_toList.1 hmem)
  rw [← List.count_filter (l := pushed es) hfor, h.fifo, List.count_filter hfor, List.count_append,
    List.count_append, List.count_eq_zero_of_not_mem hordered,
    List.count_eq_zero_of_not_mem hnone]
  rfl

/-- A writer either is there or has left, unless it died. -/
theorem writer_landed (h : Run p capacity es now d desk) (hb : Batched es)
    (hdied : ∀ id, .died ∉ Fleet.of id (fleetEvents es))
    (hdrop : ∀ id sql, .dropped sql ∉ Fleet.of id (fleetEvents es)) (hr : r.values.entries ≠ [])
    (hholds : ∀ w ∈ d.fleet.writers, ¬w.Holds r) (id : Nat) :
    Writer.Landed (Fleet.of id (fleetEvents es)) r := by
  have hfleet := h.fleet.1
  have hbatchable : ∀ r ∈ Writer.accepted (Fleet.of id (fleetEvents es)), r.batchable = true :=
    fun r hr => (hb r (h.mem_pushed_of_accepted hr)).1
  by_cases hlt : id < d.fleet.nextId
  · by_cases hmem : id ∈ d.fleet.writers.map Writer.id
    · obtain ⟨w, hw, rfl⟩ := List.mem_map.1 hmem
      exact (hfleet.staff.roster.runs w hw).landed (h.filled hb) (hdied _) (hdrop _) hbatchable hr
        (hholds w hw)
    · obtain ⟨w, n, -, rfl, hrun, hgone⟩ := hfleet.left_of_absent (hdied id) hlt hmem
      exact hrun.landed (h.filled hb) (hdied _) (hdrop _) hbatchable hr
        (hrun.not_holds (h.filled hb) hgone)
  · rw [hfleet.staff.roster.fresh id (Nat.le_of_not_lt hlt)]
    exact Writer.landed_nil r

/-- The store has run what became of a request that nobody holds any more. -/
theorem landed (h : Run p capacity es now d desk) (hb : Batched es)
    (hdied : ∀ id, .died ∉ Fleet.of id (fleetEvents es))
    (hdrop : ∀ id sql, .dropped sql ∉ Fleet.of id (fleetEvents es)) (hr : r ∈ pushed es)
    (hwaiting : desk.waiting ≠ some r) (hholds : ¬d.Holds r) : Landed es d r where
  accepted := by
    rw [← h.count_delivered hwaiting fun hmem => hholds (.inl hmem)]
    exact h.fleet.1.accepted_perm.count_eq r
  landed := h.writer_landed hb hdied hdrop (hb r hr).2 fun w hw hmem => hholds (.inr ⟨w, hw, hmem⟩)

end Run

end BmpFeed.Dispatch
