import BmpFeed.Proofs.Writer.Diary
import Mathlib.Data.List.Fold
import Mathlib.Data.List.MinMax

/-!
# The bounds of a batch

Whenever a writer comes to its queue, and as long as it waits there, its batch is not full, holds no
oversized fragment, and holds no record for longer than the window. `Loaded` bounds the batch by
what the writer still has to do; `Bounded` is what follows from it for every arrival at the queue,
every wait there and every flush.
-/

namespace BmpFeed.Writer

variable {p : Policy} {capacity : Nat} {log : List Entry} {es : List Event} {now : Nat}
  {w w' : Writer} {t : Store}

/-! ## Sizes -/

/-- A request brings no more records than it has fragments. -/
theorem Batch.size_ofRequests_snoc_le (seg : List Request) (r : Request) :
    (ofRequests (seg ++ [r])).size ≤ (ofRequests seg).size + r.values.size := by
  have hlen := length_distinct_append_le (Segment.records seg)
    (r.values.entries.map fun v => (r.template, v.1))
  rw [List.length_map] at hlen
  rw [size_ofRequests, size_ofRequests, Segment.records_snoc]
  exact hlen

theorem Batch.size_of_isEmpty {b : Batch} (h : b.isEmpty = true) : b.size = 0 := of_decide_eq_true h

theorem le_maxFragment {r : Request} {v : String × String} (h : v ∈ r.values.entries) :
    v.2.utf8ByteSize ≤ r.maxFragment := by
  unfold Request.maxFragment
  rw [List.foldl_eq_foldr]
  exact List.le_max_of_le' 0 (List.mem_map_of_mem (List.mem_map_of_mem h)) (Nat.le_refl _)

/-! ## What the batch holds while there is something to do -/

/-- The batched request that the writer took since it came to its queue. -/
def trigger? (log : List Entry) : Option Request :=
  log.foldl (fun r? e =>
    match e with
    | .took _ r => if r.batchable then some r else none
    | .flush .. => r?
    | .top .. => none) none

/-- The number of records of that request. -/
def brought (log : List Entry) : Nat := ((trigger? log).map fun r => r.values.size).getD 0

@[simp] theorem brought_took (log : List Entry) (now : Nat) (r : Request) :
    brought (log ++ [.took now r]) = if r.batchable then r.values.size else 0 := by
  unfold brought trigger?
  rw [List.foldl_append]
  by_cases h : r.batchable = true <;> simp [h]

/-- How much a writer at work has in its batch, by what it still has to do. -/
structure Loaded (p : Policy) (log : List Entry) (w : Writer) : Prop where
  /-- The request that it took may have filled the batch. -/
  size_lt : w.batch.size < p.limit + brought log
  size_lt_of_top : w.duties = [] → w.batch.size < p.limit
  /-- What is oversized is flushed at once. -/
  small : .flush ∉ w.duties → ∀ r ∈ sinceWritten log, r.maxFragment ≤ maxFragment
  /-- While it runs statements for the batch, or starts, there is nothing in the batch. -/
  spent : .flush ∉ w.duties → .review ∉ w.duties → w.duties ≠ [] → w.batch.isEmpty = true

namespace Loaded

theorem hire (id capacity now : Nat) (t : Store) (hlimit : 1 ≤ p.limit) :
    Loaded p [] (Writer.hire id p capacity now t).1 where
  size_lt := hlimit
  size_lt_of_top := fun _ => hlimit
  small := by simp [sinceWritten]
  spent := fun _ _ _ => rfl

/-- A writer comes to its queue with an empty batch, or after it saw that it is not yet time to
write. -/
theorem comes (h : Loaded p log w) (hphase' : w'.phase = .working) (hagenda : Agenda w.duties)
    (m : Move now w t es w') (hd' : w'.duties = []) :
    w'.batch.isEmpty = true ∨ w'.batch.size < w'.policy.limit ∧ now < w'.deadline := by
  cases m with
  | take hd hq =>
    refine absurd hd' ?_
    unfold accept
    dsimp only
    split_ifs <;> simp
  | start session hd =>
    rw [hd] at hagenda
    obtain rfl := hagenda.of_start
    exact .inl (h.spent (by simp [hd]) (by simp [hd]) (by simp [hd]))
  | answer hd hs =>
    obtain rfl := hd'
    exact .inl (h.spent (by simp [hd]) (by simp [hd]) (by simp [hd]))
  | written hd =>
    obtain rfl := hd'
    exact .inl (h.spent (by simp [hd]) (by simp [hd]) (by simp [hd]))
  | skip hd hb => exact .inl hb
  | review hd =>
    dsimp only at hd'
    split_ifs at hd' with hdue
    have hnot : ¬(w.deadline ≤ now ∨ w.policy.limit ≤ w.batch.size) := by simpa [isDue] using hdue
    obtain ⟨hwindow, hsize⟩ := not_or.1 hnot
    exact .inr ⟨Nat.lt_of_not_le hsize, Nat.lt_of_not_le hwindow⟩
  | write hd hb => exact absurd hd' (by simp)
  | finish hd hq hc | expire hd hq hc hdl => exact absurd hd' (by simp)
  | ask session hd hs | ran session hd hs => exact absurd hd' (by simp)
  | progress session hd hs hfin hsql hs' hfin' => exact absurd hd' (by simp)
  | die hd hs | leave hd => exact absurd hphase' (by simp)

/-- A step that leaves the batch and the diary alone. -/
theorem go_on (h : Loaded p log w) {session : Store.Session} {ds : List Duty}
    (hflush : .flush ∉ ds → .flush ∉ w.duties)
    (hspent : .flush ∉ ds → .review ∉ ds → .review ∉ w.duties ∧ w.duties ≠ [])
    (htop : ds = [] → w.batch.size < p.limit) : Loaded p log { w with session, duties := ds } where
  size_lt := h.size_lt
  size_lt_of_top := htop
  small hn := h.small (hflush hn)
  spent hn hr _ := h.spent (hflush hn) (hspent hn hr).1 (hspent hn hr).2

/-- A request comes out of the queue while there are no duties. -/
theorem take (h : Loaded p log w) (hbatch : w.batch = .ofRequests (sinceWritten log))
    (hd : w.duties = []) {r : Request} {queue : List Request} :
    Loaded p (log ++ [.took now r]) (({ w with queue } : Writer).accept r).1 := by
  have hsize := h.size_lt_of_top hd
  have hsmall := h.small (by simp [hd])
  unfold accept
  by_cases hb : r.batchable = true
  · have hle : (w.batch.merge r).size < p.limit + brought (log ++ [.took now r]) := by
      have hmerge := Batch.size_ofRequests_snoc_le (sinceWritten log) r
      rw [Batch.ofRequests_snoc, ← hbatch] at hmerge
      rw [brought_took, if_pos hb]
      omega
    rw [if_pos hb]
    dsimp only
    split_ifs with hover
    · exact ⟨hle, by simp, by simp, by simp⟩
    · refine ⟨hle, by simp, fun _ r' hr' => ?_, by simp⟩
      rw [sinceWritten_took, if_pos hb] at hr'
      rcases List.mem_append.1 hr' with hr' | hr'
      · exact hsmall r' hr'
      · obtain rfl := List.mem_singleton.1 hr'
        exact Nat.le_of_not_lt hover
  · rw [if_neg hb]
    refine ⟨?_, by simp, ?_, by simp⟩
    · rw [brought_took, if_neg hb]
      exact hsize
    · rw [sinceWritten_took, if_neg hb]
      exact fun _ => hsmall

/-- A flush leaves no record in the batch. -/
theorem flushed (hlimit : 1 ≤ p.limit) (hempty : w'.batch.isEmpty = true)
    (hbatch : w'.batch = .ofRequests (sinceWritten log)) : Loaded p log w' where
  size_lt := by rw [Batch.size_of_isEmpty hempty]; omega
  size_lt_of_top _ := by rw [Batch.size_of_isEmpty hempty]; exact hlimit
  small _ r hr := by
    have hnil := Batch.isEmpty_ofRequests.1 (hbatch ▸ hempty) r hr
    rw [Request.maxFragment, FirstSeen.values, hnil]
    exact Nat.zero_le _
  spent _ _ _ := hempty

/-- What a step of a writer that goes on working preserves. -/
theorem move (h : Loaded p log w) (hkept : Kept p log now w) (hlimit : 1 ≤ p.limit)
    (hphase' : w'.phase = .working) (m : Move now w t es w') :
    Loaded p (log ++ acts now w w') w' := by
  have hkept' := hkept.move hphase' m
  -- what the step does when it leaves nothing to do is the same for all kinds of steps
  have htop : w'.duties = [] → w'.batch.size < p.limit := by
    intro hd'
    rcases h.comes hphase' hkept.agenda m hd' with hempty | hdue
    · rw [Batch.size_of_isEmpty hempty]
      exact hlimit
    · rw [← hkept'.policy_eq]
      exact hdue.1
  cases m with
  | take hd hq =>
    rw [acts_took hd hq]
    exact h.take hkept.batch_eq hd
  | skip hd hb => exact flushed hlimit hb hkept'.batch_eq
  | write hd hb => exact flushed hlimit rfl hkept'.batch_eq
  | finish hd hq hc =>
    rw [append_acts_idle hd hq]
    exact h.go_on (by simp) (by simp) htop
  | expire hd hq hc hdl =>
    rw [append_acts_idle hd hq]
    exact h.go_on (by simp [hd]) (by simp) htop
  | start session hd =>
    rw [append_acts_of_head hd (by simp)]
    exact h.go_on (by simp [hd]) (by simp [hd]) htop
  | ask session hd hs | ran session hd hs =>
    rw [append_acts_of_head hd (by simp)]
    exact h.go_on (by simp [hd]) (by simp [hd]) htop
  | progress session hd hs hfin hsql hs' hfin' =>
    rw [append_acts_of_head hd (by simp)]
    exact h.go_on (by simp [hd]) (by simp [hd]) htop
  | answer hd hs =>
    rw [append_acts_of_head hd (by simp)]
    exact h.go_on (by simp [hd]) (by simp [hd]) htop
  | written hd =>
    rw [append_acts_of_head hd (by simp)]
    exact h.go_on (by simp [hd]) (by simp [hd]) htop
  | review hd =>
    have hagenda := hkept.agenda
    rw [hd] at hagenda
    obtain rfl := hagenda.of_review
    rw [append_acts_of_head hd (by simp)]
    split_ifs at htop ⊢ with hdue
    · exact h.go_on (by simp) (by simp) (by simp)
    · exact ⟨h.size_lt, htop, fun _ => h.small (by simp [hd]), by simp⟩
  | die hd hs | leave hd => exact absurd hphase' (by simp)

/-- At its queue the writer is not busy with a request. -/
theorem arrive (h : Loaded p log w) : Loaded p (log ++ arrival now w) w := by
  unfold arrival
  split_ifs with htop
  · obtain ⟨-, hd⟩ := of_decide_eq_true htop
    refine ⟨?_, h.size_lt_of_top, ?_, h.spent⟩
    · exact Nat.lt_of_lt_of_le (h.size_lt_of_top hd) (Nat.le_add_right _ _)
    · rw [sinceWritten_top]
      exact h.small
  · rw [List.append_nil]
    exact h

theorem send (h : Loaded p log w) {r : Request} (hs : w.send? r = some w') :
    Loaded p log w' := by
  obtain ⟨-, -, rfl⟩ := send?_spec hs
  exact { h with }

end Loaded

theorem Diary.loaded (h : Diary p capacity log now w) (hlimit : 1 ≤ p.limit)
    (hphase : w.phase = .working) : Loaded p log w := by
  induction h with
  | hire id now t => exact .hire id capacity now t hlimit
  | step hdiary hs ih =>
    have hworking := working_of_step? hs
    exact ((ih hworking).move (hdiary.kept hworking) hlimit hphase (move_of_step? hs)).arrive
  | send _ hopen hs ih => exact (ih (send?_spec hs).1).send hs
  | shut _ ih => exact { ih hphase with }
  | wait _ hle ih => exact ih hphase

/-! ## The bounds -/

/-- How the batch of a writer that is at its queue stands to the diary up to then. -/
structure Rested (p : Policy) (log : List Entry) (now : Nat) (b : Batch) (lastFlush : Nat) :
    Prop where
  /-- It holds what was taken since the last flush. -/
  fragments_eq : ∀ g,
    b.fragments g = .ofList (Segment.pairs ((sinceFlush log).map Prod.snd) g)
  size_eq : b.size = (distinct (Segment.records ((sinceFlush log).map Prod.snd))).length
  size_lt : b.size < p.limit
  small : ∀ g ∈ b.groups.entries, ∀ v ∈ g.2.entries, v.2.utf8ByteSize ≤ maxFragment
  /-- If it holds anything, the window is not over. -/
  window : b.isEmpty = false → now < lastFlush + p.window
  taken : ∀ x ∈ sinceFlush log, lastFlush ≤ x.1

theorem Kept.rested (h : Kept p log now w) (hloaded : Loaded p log w) (hd : w.duties = [])
    (hwindow : w.batch.isEmpty = false → now < w.deadline) :
    Rested p log now w.batch w.lastFlush := by
  obtain ⟨seg, hseg, hnil⟩ := h.held
  refine ⟨fun g => ?_, ?_, hloaded.size_lt_of_top hd, fun g hg v hv => ?_, ?_, h.taken⟩
  · rw [h.batch_eq, Batch.fragments_ofRequests, hseg, Segment.pairs_append_of_nil hnil]
  · rw [h.batch_eq, Batch.size_ofRequests, hseg, Segment.records_append_of_nil hnil]
  · rw [h.batch_eq] at hg
    obtain ⟨r, hr, -, hv'⟩ := Batch.exists_of_mem_ofRequests hg hv
    exact (le_maxFragment hv').trans (hloaded.small (by simp [hd]) r hr)
  · rw [← h.policy_eq]
    exact hwindow

/-- The bounds of the batch of a writer, all through its diary. -/
structure Bounded (p : Policy) (log : List Entry) (now : Nat) (w : Writer) : Prop where
  /-- Whenever it came to its queue. -/
  top : ∀ before time b lastFlush later, log = before ++ .top time b lastFlush :: later →
    Rested p before time b lastFlush
  /-- While it waits there, and then no record in the batch is older than the window. -/
  waiting : w.isAtTop = true → ∀ t : Store, w.step? now t = none →
    Rested p log now w.batch w.lastFlush ∧ ∀ x ∈ sinceFlush log, now < x.1 + p.window
  /-- Whenever it flushed its batch. -/
  flush : ∀ before time records sqls later, log = before ++ .flush time records sqls :: later →
    records ≤ p.limit - 1 + brought before

/-- A writer that waits at its queue does so within the window. -/
theorem lt_deadline_of_waits (htop : w.isAtTop = true) (hs : w.step? now t = none) :
    now < w.deadline := by
  obtain ⟨hphase, hd⟩ := of_decide_eq_true htop
  have hopen : ¬w.isClosed = true := by simp [isClosed, hphase]
  unfold step? at hs
  rw [if_neg hopen, hd] at hs
  simp only [Option.map_eq_none_iff] at hs
  unfold look? at hs
  split at hs
  · exact absurd hs (by simp)
  · split_ifs at hs with hclosing hdeadline
    exact Nat.lt_of_not_le hdeadline

/-- A line of a diary keeps the bounds. -/
def Respects (p : Policy) (before : List Entry) : Entry → Prop
  | .took .. => True
  | .flush _ records _ => records ≤ p.limit - 1 + brought before
  | .top time b lastFlush => Rested p before time b lastFlush

theorem Diary.respects (h : Diary p capacity log now w) (hlimit : 1 ≤ p.limit) :
    Each (Respects p) log := by
  refine h.each (fun _ _ _ => trivial) ?_ ?_
  · intro log now w rest hdiary hphase hd
    have hsize := (hdiary.loaded hlimit hphase).size_lt
    show w.batch.size ≤ p.limit - 1 + brought log
    omega
  · intro log now w w' t es hdiary hphase m htop
    obtain ⟨hphase', hd'⟩ := of_decide_eq_true htop
    have hkept := hdiary.kept hphase
    have hloaded := hdiary.loaded hlimit hphase
    refine (hkept.move hphase' m).rested (hloaded.move hkept hlimit hphase' m) hd' fun hb => ?_
    rcases hloaded.comes hphase' hkept.agenda m hd' with hempty | hdue
    · exact absurd hempty (by simp [hb])
    · exact hdue.2

/-- Whenever a writer comes to its queue or waits there, its batch is within bounds, and so is the
batch of every flush. -/
theorem Diary.batch_bounded (h : Diary p capacity log now w) (hlimit : 1 ≤ p.limit) :
    Bounded p log now w := by
  have heach := h.respects hlimit
  refine ⟨fun before time b lastFlush later hsplit => heach before _ later hsplit,
    fun htop t hs => ?_, fun before time records sqls later hsplit => heach before _ later hsplit⟩
  obtain ⟨hphase, hd⟩ := of_decide_eq_true htop
  have hkept := h.kept hphase
  have hwindow := lt_deadline_of_waits htop hs
  refine ⟨hkept.rested (h.loaded hlimit hphase) hd fun _ => hwindow, fun x hx => ?_⟩
  have htaken := hkept.taken x hx
  unfold deadline at hwindow
  rw [hkept.policy_eq] at hwindow
  omega

theorem batch_bounded_sample :
    Diary .standard 5 sampleDesk.log 160 sampleDesk.bench.writer ∧ 1 ≤ Policy.standard.limit ∧
      Bounded .standard sampleDesk.log 160 sampleDesk.bench.writer ∧
      sampleDesk.bench.writer.isAtTop = true ∧
      (sampleDesk.bench.writer.step? 160 {}).isNone = true ∧
      (∃ b, Entry.top 80 b 75 ∈ sampleDesk.log ∧ b.size = 2) ∧
      ∃ sqls, Entry.flush 150 2 sqls ∈ sampleDesk.log := by
  have hlimit : 1 ≤ Policy.standard.limit := by decide
  refine ⟨diary_sampleDesk, hlimit, diary_sampleDesk.batch_bounded hlimit, by decide +kernel,
    by decide +kernel, ⟨.ofRequests [rowsOf "u" [], rowsOf "t" [("a", "(1)")],
      rowsOf "u" [("a", "(2)")]], ?_⟩, ["insert into u values (2)", "insert into t values (1)"], ?_⟩
  · decide +kernel
  · decide +kernel

end BmpFeed.Writer
