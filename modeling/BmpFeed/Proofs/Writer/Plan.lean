import BmpFeed.Proofs.FirstSeen
import BmpFeed.Writer.Basic

/-!
# The plain batcher

What a writer writes, said without queues, windows and duties. A plan lists requests in the order of
their arrival, with cuts in between. The batched requests between two cuts are a segment; it is
written as one statement per group in first-seen order, each with the latest fragment of every
record. A request that is not batched is written at its own place.

`Batch.writing_ofRequests` shows that a batch into which a segment is merged gives the statements
of the segment.
-/

namespace BmpFeed

/-- A statement with the rows it writes: a fragment under each record identity. -/
structure Statement where
  opening : String
  closing : String
  rows : List (String × String)
  deriving DecidableEq, Repr

def Statement.sql (s : Statement) : String :=
  joinStatement s.opening (s.rows.map Prod.snd) s.closing

namespace Request

/-- What a request has in common with those it is merged with. -/
def template (r : Request) : String × String := (r.opening, r.closing)

/-- The statement that writes the request by itself. -/
def statement (r : Request) : Statement := ⟨r.opening, r.closing, r.values.entries⟩

theorem sql_statement (r : Request) : r.statement.sql = r.sql := rfl

end Request

namespace Writer

/-! ## Segments -/

namespace Segment

/-- The fragments that the requests of a segment put under a template, in order. -/
def pairs (seg : List Request) (g : String × String) : List (String × String) :=
  (seg.filter fun r => r.template = g).flatMap fun r => r.values.entries

/-- The records of a segment, each under its template, as often as they come. -/
def records (seg : List Request) : List ((String × String) × String) :=
  seg.flatMap fun r => r.values.entries.map fun v => (r.template, v.1)

/-- One statement per template in first-seen order, with the latest fragment of each record. -/
def statements (seg : List Request) : List Statement :=
  (distinct (seg.map Request.template)).map fun g => ⟨g.1, g.2, latest (pairs seg g)⟩

theorem pairs_snoc (seg : List Request) (r : Request) (g : String × String) :
    pairs (seg ++ [r]) g = pairs seg g ++ if r.template = g then r.values.entries else [] := by
  unfold pairs
  by_cases h : r.template = g <;> simp [List.filter_append, h]

/-- Under the template of one of its requests a segment has a fragment. -/
theorem pairs_ne_nil {seg : List Request} (h : ∀ r ∈ seg, r.values.entries ≠ []) {r : Request}
    (hr : r ∈ seg) : pairs seg r.template ≠ [] := by
  unfold pairs
  intro hnil
  rw [List.flatMap_eq_nil_iff] at hnil
  exact h r hr (hnil r (List.mem_filter.2 ⟨hr, by simp⟩))

theorem mem_pairs {seg : List Request} {g : String × String} {v : String × String} :
    v ∈ pairs seg g ↔ ∃ r ∈ seg, r.template = g ∧ v ∈ r.values.entries := by
  simp [pairs, and_assoc]

theorem records_snoc (seg : List Request) (r : Request) :
    records (seg ++ [r]) = records seg ++ r.values.entries.map fun v => (r.template, v.1) := by
  simp [records]

theorem mem_records {seg : List Request} {g : String × String} {k : String} :
    (g, k) ∈ records seg ↔ k ∈ (pairs seg g).map Prod.fst := by
  unfold records pairs
  simp only [List.mem_flatMap, List.mem_map, List.mem_filter, decide_eq_true_eq, Prod.mk.injEq]
  constructor
  · rintro ⟨r, hr, v, hv, rfl, rfl⟩
    exact ⟨v, ⟨r, ⟨hr, rfl⟩, hv⟩, rfl⟩
  · rintro ⟨v, ⟨r, ⟨hr, rfl⟩, hv⟩, rfl⟩
    exact ⟨r, hr, v, hv, rfl, rfl⟩

theorem records_eq_nil {seg : List Request} :
    records seg = [] ↔ ∀ r ∈ seg, r.values.entries = [] := by
  simp [records]

end Segment

/-! ## Batches made of segments -/

namespace Batch

/-- The batch into which some requests were merged. -/
def ofRequests (seg : List Request) : Batch := seg.foldl merge {}

theorem ofRequests_snoc (seg : List Request) (r : Request) :
    ofRequests (seg ++ [r]) = (ofRequests seg).merge r := by
  simp [ofRequests]

/-- Counting changes nothing of what is put. -/
theorem fst_foldl_enter (s : FirstSeen String String × Nat) (vs : List (String × String)) :
    (vs.foldl enter s).1 = s.1.putAll vs := by
  induction vs generalizing s with
  | nil => rfl
  | cons v vs ih => exact ih (enter s v)

theorem groups_merge (b : Batch) (r : Request) :
    (b.merge r).groups =
      b.groups.put r.template ((b.fragments r.template).putAll r.values.entries) := by
  rw [← fst_foldl_enter (b.fragments r.template, b.records)]
  rfl

theorem fragments_merge (b : Batch) (r : Request) (g : String × String) :
    (b.merge r).fragments g =
      if g = r.template then (b.fragments g).putAll r.values.entries else b.fragments g := by
  unfold fragments
  rw [groups_merge, FirstSeen.get?_put]
  by_cases h : g = r.template
  · subst h
    simp [fragments]
  · simp [h]

theorem fragments_ofRequests (seg : List Request) (g : String × String) :
    (ofRequests seg).fragments g = FirstSeen.ofList (Segment.pairs seg g) := by
  induction seg using List.reverseRecOn with
  | nil => rfl
  | append_singleton l r ih =>
    rw [ofRequests_snoc, fragments_merge, Segment.pairs_snoc, ih]
    by_cases h : g = r.template
    · subst h
      simp [FirstSeen.putAll_ofList]
    · have h' : ¬r.template = g := fun e => h e.symm
      simp [h, h']

theorem keys_ofRequests (seg : List Request) :
    (ofRequests seg).groups.keys = distinct (seg.map Request.template) := by
  induction seg using List.reverseRecOn with
  | nil => rfl
  | append_singleton l r ih =>
    rw [ofRequests_snoc, groups_merge, List.map_append, List.map_singleton]
    by_cases h : r.template ∈ l.map Request.template
    · rw [distinct_snoc_of_mem h, ← ih]
      exact FirstSeen.keys_put_of_mem (ih ▸ mem_distinct.2 h) _
    · rw [distinct_snoc_of_not_mem h, ← ih]
      exact FirstSeen.keys_put_of_not_mem (ih ▸ fun h' => h (mem_distinct.1 h')) _

theorem nodup_keys_ofRequests (seg : List Request) : (ofRequests seg).groups.keys.Nodup := by
  induction seg using List.reverseRecOn with
  | nil => exact List.nodup_nil
  | append_singleton l r ih =>
    rw [ofRequests_snoc, groups_merge]
    exact FirstSeen.nodup_keys_put ih _ _

/-- Every template of a segment has its group, at the place where it was first seen. -/
theorem entries_ofRequests (seg : List Request) :
    (ofRequests seg).groups.entries =
      (distinct (seg.map Request.template)).map fun g =>
        (g, FirstSeen.ofList (Segment.pairs seg g)) := by
  rw [FirstSeen.entries_eq_filterMap (nodup_keys_ofRequests seg), ← keys_ofRequests,
    ← List.filterMap_eq_map]
  apply List.filterMap_congr
  intro g hg
  obtain ⟨m, hm⟩ := Option.isSome_iff_exists.1 ((FirstSeen.isSome_get? _ g).2 hg)
  have hfrag := fragments_ofRequests seg g
  unfold fragments at hfrag
  rw [hm, Option.getD_some] at hfrag
  simp [hm, hfrag]

/-- What a batch holds came with one of the requests that were merged into it. -/
theorem exists_of_mem_ofRequests {seg : List Request}
    {g : (String × String) × FirstSeen String String} (hg : g ∈ (ofRequests seg).groups.entries)
    {v : String × String} (hv : v ∈ g.2.entries) :
    ∃ r ∈ seg, r.template = g.1 ∧ v ∈ r.values.entries := by
  rw [entries_ofRequests] at hg
  obtain ⟨t, -, rfl⟩ := List.mem_map.1 hg
  rw [FirstSeen.entries_ofList] at hv
  exact Segment.mem_pairs.1 (mem_of_mem_latest hv)

theorem size_ofList_ne_zero {pairs : List (String × String)} (h : pairs ≠ []) :
    (FirstSeen.ofList pairs).size ≠ 0 := by
  obtain ⟨p, hp⟩ := List.exists_mem_of_ne_nil pairs h
  intro hsize
  have hkey : p.1 ∈ (FirstSeen.ofList pairs).keys := by
    rw [FirstSeen.keys_ofList]
    exact mem_distinct.2 (List.mem_map_of_mem hp)
  unfold FirstSeen.keys at hkey
  rw [List.eq_nil_of_length_eq_zero hsize] at hkey
  exact absurd hkey (by simp)

/-- The groups that a segment leaves in a batch all hold a fragment. -/
theorem size_group_ne_zero {seg : List Request} (h : ∀ r ∈ seg, r.values.entries ≠ [])
    {g : String × String} (hg : g ∈ distinct (seg.map Request.template)) :
    (FirstSeen.ofList (Segment.pairs seg g)).size ≠ 0 := by
  obtain ⟨r, hr, rfl⟩ := List.mem_map.1 (mem_distinct.1 hg)
  exact size_ofList_ne_zero (Segment.pairs_ne_nil h hr)

/-- A record is counted when a fragment comes for it that the group of its template does not
hold. -/
theorem foldl_enter (seg : List Request) (g : String × String) (vs : List (String × String)) :
    vs.foldl enter (.ofList (Segment.pairs seg g), (distinct (Segment.records seg)).length) =
      (.ofList (Segment.pairs seg g ++ vs),
        (distinct (Segment.records seg ++ vs.map fun v => (g, v.1))).length) := by
  induction vs using List.reverseRecOn with
  | nil => simp
  | append_singleton vs v ih =>
    have hkey : (g, v.1) ∈ Segment.records seg ++ vs.map (fun v => (g, v.1)) ↔
        ((FirstSeen.ofList (Segment.pairs seg g ++ vs)).get? v.1).isSome := by
      rw [FirstSeen.isSome_get?, FirstSeen.keys_ofList, mem_distinct, List.map_append,
        List.mem_append, List.mem_append, Segment.mem_records]
      simp
    rw [List.foldl_append, ih, List.map_append, List.map_singleton, ← List.append_assoc,
      ← List.append_assoc, FirstSeen.ofList_snoc]
    refine Prod.ext rfl ?_
    by_cases hmem : (g, v.1) ∈ Segment.records seg ++ vs.map fun v => (g, v.1)
    · rw [distinct_snoc_of_mem hmem]
      simp [enter, Option.isSome_iff_ne_none.1 (hkey.1 hmem)]
    · rw [distinct_snoc_of_not_mem hmem, List.length_append]
      simp [enter, Option.not_isSome_iff_eq_none.1 (mt hkey.2 hmem)]

/-- The count of a batch is the number of its records. -/
theorem size_ofRequests (seg : List Request) :
    (ofRequests seg).size = (distinct (Segment.records seg)).length := by
  induction seg using List.reverseRecOn with
  | nil => rfl
  | append_singleton l r ih =>
    have hsize : ((ofRequests l).merge r).size = (r.values.entries.foldl enter
        ((ofRequests l).fragments r.template, (ofRequests l).size)).2 := rfl
    rw [ofRequests_snoc, hsize, ih, fragments_ofRequests, foldl_enter, Segment.records_snoc]

theorem isEmpty_ofRequests {seg : List Request} :
    (ofRequests seg).isEmpty = true ↔ ∀ r ∈ seg, r.values.entries = [] := by
  rw [isEmpty, decide_eq_true_iff, size_ofRequests, List.length_eq_zero_iff, distinct_eq_nil,
    Segment.records_eq_nil]

/-- The statements of a batch with their rows. -/
def writing (b : Batch) : List Statement :=
  (b.groups.entries.filter fun g => g.2.size ≠ 0).map fun g => ⟨g.1.1, g.1.2, g.2.entries⟩

/-- Writing fragments one by one joins them by commas. -/
theorem foldl_write (opening : String) (vs : List String) :
    vs.zipIdx.foldl write opening = opening ++ ",".intercalate vs := by
  induction vs using List.reverseRecOn with
  | nil => simp
  | append_singleton vs v ih =>
    have hfold : (vs ++ [v]).zipIdx.foldl write opening =
        write (opening ++ ",".intercalate vs) (v, vs.length) := by
      rw [List.zipIdx_append, List.foldl_append, ih]
      simp
    rw [hfold, write]
    rcases vs.eq_nil_or_concat with rfl | ⟨_, _, rfl⟩
    · simp
    · rw [if_pos (by simp), String.intercalate_append_of_ne_nil (by simp) (by simp),
        String.intercalate_singleton, String.push_eq_append, String.append_assoc,
        String.append_assoc, String.append_assoc]
      rfl

theorem statements_eq_writing (b : Batch) : b.statements = b.writing.map Statement.sql := by
  unfold statements writing
  rw [List.map_map]
  refine List.map_congr_left fun g _ => ?_
  rw [foldl_write]
  rfl

/-- A batch into which a segment was merged gives the statements of the segment. -/
theorem writing_ofRequests {seg : List Request} (h : ∀ r ∈ seg, r.values.entries ≠ []) :
    (ofRequests seg).writing = Segment.statements seg := by
  unfold writing Segment.statements
  rw [entries_ofRequests, List.filter_eq_self.2 ?_]
  · rw [List.map_map]
    apply List.map_congr_left
    intro g _
    simp only [Function.comp_apply, FirstSeen.entries_ofList]
  · intro p hp
    obtain ⟨g, hg, rfl⟩ := List.mem_map.1 hp
    simpa using size_group_ne_zero h hg

end Batch

/-! ## Plans -/

/-- An entry of a plan. -/
inductive Mark
  /-- A request arrives. -/
  | arrival (r : Request)
  /-- The segment ends here and is written. -/
  | cut
  deriving DecidableEq, Repr

def Mark.request? : Mark → Option Request
  | arrival r => some r
  | cut => none

/-- The requests of a plan in the order of their arrival. -/
def arrivals (plan : List Mark) : List Request := plan.filterMap Mark.request?

/-- What a plan comes to. -/
structure Outline where
  /-- The segments that were written, in order. -/
  segments : List (List Request) := []
  /-- The batched requests behind the last cut. -/
  rest : List Request := []
  /-- The statements in the order in which they are given to the store, with their attempts. -/
  calls : List (Statement × Nat) := []
  deriving DecidableEq, Repr

namespace Outline

/-- Takes the next entry of a plan; a statement of a segment has `retries` attempts. -/
def next (retries : Nat) (o : Outline) : Mark → Outline
  | .arrival r =>
    if r.batchable then { o with rest := o.rest ++ [r] }
    else { o with calls := o.calls ++ [(r.statement, immediateRetries)] }
  | .cut =>
    { segments := o.segments ++ [o.rest], rest := []
      calls := o.calls ++ (Segment.statements o.rest).map fun s => (s, retries) }

def ofPlan (retries : Nat) (plan : List Mark) : Outline := plan.foldl (next retries) {}

variable {retries : Nat}

theorem ofPlan_snoc (plan : List Mark) (m : Mark) :
    ofPlan retries (plan ++ [m]) = (ofPlan retries plan).next retries m := by
  simp [ofPlan]

/-- Every batched request is in exactly one segment, or behind the last cut. -/
theorem flatten_segments (retries : Nat) (plan : List Mark) :
    (ofPlan retries plan).segments.flatten ++ (ofPlan retries plan).rest =
      (arrivals plan).filter Request.batchable := by
  induction plan using List.reverseRecOn with
  | nil => rfl
  | append_singleton l m ih =>
    rw [ofPlan_snoc, arrivals, List.filterMap_append, ← arrivals, List.filter_append, ← ih]
    cases m with
    | arrival r =>
      by_cases h : r.batchable <;> simp [next, Mark.request?, h]
    | cut => simp [next, Mark.request?]

end Outline

end Writer

end BmpFeed
