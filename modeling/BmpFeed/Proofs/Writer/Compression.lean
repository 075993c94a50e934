import BmpFeed.Proofs.Writer.Plan

/-!
# What a batch makes of its requests

A batch is filled and taken over and over. At any time it is the batch of the requests that were
merged into it since it was last taken, so what it counts and what it gives is said by these
requests alone: one statement per template with a fragment, which is the statement of a single
request with the records of that template, each with its latest fragment.
-/

namespace BmpFeed.Writer

/-! ## What is left of a segment -/

namespace Segment

/-- One request with what a segment has under a template: the records in the order in which they
first came, each with its latest fragment. -/
def gathered (seg : List Request) (g : String × String) : Request :=
  { (default : Request) with opening := g.1, closing := g.2, values := ⟨latest (pairs seg g)⟩ }

/-- The templates under which a segment has a fragment, in the order in which requests first came
under them. -/
def templates (seg : List Request) : List (String × String) :=
  (distinct (seg.map Request.template)).filter fun g => pairs seg g ≠ []

/-- The texts to which a segment comes. -/
def texts (seg : List Request) : List String := (templates seg).map fun g => (gathered seg g).sql

variable {held seg : List Request}

theorem nodup_templates (seg : List Request) : (templates seg).Nodup :=
  (FirstSeen.nodup_distinct _).filter _

theorem mem_templates {g : String × String} : g ∈ templates seg ↔ pairs seg g ≠ [] := by
  unfold templates
  rw [List.mem_filter, mem_distinct, decide_eq_true_iff]
  refine ⟨And.right, fun h => ⟨?_, h⟩⟩
  obtain ⟨v, hv⟩ := List.exists_mem_of_ne_nil _ h
  obtain ⟨r, hr, rfl, -⟩ := mem_pairs.1 hv
  exact List.mem_map_of_mem hr

section Held

variable (h : ∀ r ∈ held, r.values.entries = [])
include h

theorem pairs_eq_nil (g : String × String) : pairs held g = [] :=
  List.flatMap_eq_nil_iff.2 fun r hr => h r (List.mem_filter.1 hr).1

theorem templates_eq_nil : templates held = [] := by
  refine List.filter_eq_nil_iff.2 fun g _ => ?_
  simp [pairs_eq_nil h]

theorem pairs_append_of_nil (g : String × String) : pairs (held ++ seg) g = pairs seg g := by
  have happend : pairs (held ++ seg) g = pairs held g ++ pairs seg g := by simp [pairs]
  rw [happend, pairs_eq_nil h, List.nil_append]

theorem records_append_of_nil : records (held ++ seg) = records seg := by
  have happend : records (held ++ seg) = records held ++ records seg := by simp [records]
  rw [happend, records_eq_nil.2 h, List.nil_append]

theorem gathered_append_of_nil (g : String × String) :
    gathered (held ++ seg) g = gathered seg g := by
  unfold gathered
  rw [pairs_append_of_nil h]

/-- Requests that carry nothing change at most the order of the templates. -/
theorem templates_perm : (templates (held ++ seg)).Perm (templates seg) := by
  refine (List.perm_ext_iff_of_nodup (nodup_templates _) (nodup_templates _)).2 fun g => ?_
  rw [mem_templates, mem_templates, pairs_append_of_nil h]

/-- Behind requests that carry nothing, a request stands alone. -/
theorem texts_snoc_of_nil {r : Request} (hr : r.values.entries ≠ [])
    (hkeys : r.values.keys.Nodup) : texts (held ++ [r]) = [r.sql] := by
  have hpairs : pairs [r] r.template = r.values.entries := by simp [pairs]
  have htemplates : templates [r] = [r.template] := by
    have hdistinct : distinct [r.template] = [r.template] := rfl
    simp [templates, hdistinct, hpairs, hr]
  have hvalues : latest (pairs [r] r.template) = r.values.entries := by
    rw [hpairs]
    exact latest_of_nodup hkeys
  -- only the order of the templates can differ, and there is just one
  have hperm : (templates (held ++ [r])).Perm (templates [r]) := templates_perm h
  rw [htemplates, List.perm_singleton] at hperm
  unfold texts
  rw [hperm, List.map_singleton, gathered_append_of_nil h, gathered, hvalues]
  rfl

end Held

end Segment

namespace Batch

theorem statements_ofRequests (seg : List Request) :
    (ofRequests seg).statements = Segment.texts seg := by
  have hsize (g : String × String) :
      (FirstSeen.ofList (Segment.pairs seg g)).size ≠ 0 ↔ Segment.pairs seg g ≠ [] := by
    rw [FirstSeen.size_ofList]
    simp
  rw [statements_eq_writing]
  unfold writing Segment.texts Segment.templates
  rw [entries_ofRequests, List.filter_map, List.map_map, List.map_map]
  simp only [Function.comp_def, hsize, FirstSeen.entries_ofList]
  rfl

/-! ## Calls -/

/-- What can be asked of a batch. -/
inductive Call
  | merge (r : Request)
  | take
  deriving DecidableEq, Repr

/-- The batch after one call. -/
def called (b : Batch) : Call → Batch
  | .merge r => b.merge r
  | .take => b.take.2

/-- A new batch after some calls. -/
def after (calls : List Call) : Batch := calls.foldl called {}

/-- The requests that were merged since the batch was last taken. -/
def sinceTake (calls : List Call) : List Request :=
  calls.foldl (fun seg call =>
    match call with
    | .merge r => seg ++ [r]
    | .take => []) []

theorem after_snoc (calls : List Call) (call : Call) :
    after (calls ++ [call]) = (after calls).called call := by
  simp [after]

/-- A batch is made of what came since it was last taken. -/
theorem after_eq (calls : List Call) : after calls = ofRequests (sinceTake calls) := by
  induction calls using List.reverseRecOn with
  | nil => rfl
  | append_singleton calls call ih =>
    cases call with
    | merge r =>
      have hsince : sinceTake (calls ++ [.merge r]) = sinceTake calls ++ [r] := by
        simp [sinceTake]
      rw [after_snoc, hsince, ofRequests_snoc, ih]
      rfl
    | take =>
      have hsince : sinceTake (calls ++ [.take]) = [] := by simp [sinceTake]
      rw [after_snoc, hsince]
      rfl

/-- How a batch stands to the requests that were merged since it was last taken. -/
structure Compresses (seg : List Request) (b : Batch) : Prop where
  /-- It counts the different records, where a record belongs to its template. -/
  size_eq : b.size = (distinct (Segment.records seg)).length
  isEmpty_eq : b.isEmpty = decide (b.size = 0)
  /-- It is empty if no record came. -/
  isEmpty_iff : b.isEmpty = true ↔ Segment.records seg = []
  /-- It gives one statement per template with a fragment. Each is the statement of one request. -/
  take_eq : b.take.1 = (Segment.templates seg).map fun g => (Segment.gathered seg g).sql
  /-- A request with a fragment that comes into the empty batch comes out as its own statement; as
  in every map that is made by insertions, there is one fragment to a record. -/
  single : b.isEmpty = true → ∀ r : Request, r.values.entries ≠ [] → r.values.keys.Nodup →
    (b.merge r).take.1 = [r.sql]

/-- Whatever is merged and taken, a batch compresses what came since it was last taken, and a batch
that was taken goes on like a new one. -/
theorem keeps_latest (calls : List Call) :
    Compresses (sinceTake calls) (after calls) ∧
      ∀ later, after (calls ++ .take :: later) = after later := by
  refine ⟨?_, fun later => ?_⟩
  · rw [after_eq]
    exact
      { size_eq := size_ofRequests _
        isEmpty_eq := rfl
        isEmpty_iff := by rw [isEmpty_ofRequests, Segment.records_eq_nil]
        take_eq := statements_ofRequests _
        single := by
          intro hempty r hr hkeys
          have htake : ((ofRequests (sinceTake calls)).merge r).take.1 =
              (ofRequests (sinceTake calls ++ [r])).statements := by
            rw [ofRequests_snoc]
            rfl
          rw [htake, statements_ofRequests]
          exact Segment.texts_snoc_of_nil (isEmpty_ofRequests.1 hempty) hr hkeys }
  · unfold after
    rw [List.foldl_append]
    rfl

end Batch

/-- A batched request with some rows for a table. -/
def rowsOf (table : String) (rows : List (String × String)) : Request :=
  { key := "k", category := .general
    opening := "insert into " ++ table ++ " values ", closing := ""
    values := .ofList rows, batchable := true }

example :
    (Batch.after [.merge (rowsOf "u" []), .merge (rowsOf "t" [("a", "(1)"), ("b", "(2)")]),
      .merge (rowsOf "t" [("c", "(3)"), ("a", "(4)")])]).take.1 =
        ["insert into t values (4),(2),(3)"] := by
  decide +kernel

end BmpFeed.Writer
