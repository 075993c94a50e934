import BmpFeed.Proofs.Writer.Ledger
import Mathlib.Data.List.Flatten

/-!
# The latest fragment of a record

What a writer has the store run for one record of one template: some of the fragments that its queue
took, in the same order, and with the last of them, once the writer has left. `Condenses` says this
of two lists; the segments of a writer condense one by one.
-/

namespace BmpFeed

/-- `xs` is what is left of `ys` when some elements, but not the last, are left out. -/
structure Condenses {α : Type} (xs ys : List α) : Prop where
  sublist : xs.Sublist ys
  last_eq : xs.getLast? = ys.getLast?

namespace Condenses

variable {α β : Type} {xs xs' ys ys' zs : List α}

theorem refl (xs : List α) : Condenses xs xs := ⟨.refl xs, rfl⟩

theorem of_eq (h : xs = ys) : Condenses xs ys := h ▸ .refl xs

theorem trans (h : Condenses xs ys) (h' : Condenses ys zs) : Condenses xs zs :=
  ⟨h.sublist.trans h'.sublist, h.last_eq.trans h'.last_eq⟩

theorem append (h : Condenses xs ys) (h' : Condenses xs' ys') :
    Condenses (xs ++ xs') (ys ++ ys') := by
  refine ⟨h.sublist.append h'.sublist, ?_⟩
  rw [List.getLast?_append, List.getLast?_append, h.last_eq, h'.last_eq]

theorem flatMap {l : List β} {g g' : β → List α} (h : ∀ b ∈ l, Condenses (g b) (g' b)) :
    Condenses (l.flatMap g) (l.flatMap g') := by
  induction l with
  | nil => exact .refl _
  | cons b l ih =>
    rw [List.flatMap_cons, List.flatMap_cons]
    exact (h b List.mem_cons_self).append (ih fun b hb => h b (List.mem_cons_of_mem _ hb))

/-- Only the last element is left. -/
theorem last (ys : List α) : Condenses ys.getLast?.toList ys := by
  rcases List.eq_nil_or_concat ys with rfl | ⟨l, a, rfl⟩
  · exact .refl _
  · rw [List.concat_eq_append, List.getLast?_append]
    exact ⟨List.sublist_append_right l [a], by simp⟩

end Condenses

/-! ## The fragments of a record -/

/-- The fragments under one identity. -/
def fragmentsOf (k : String) (rows : List (String × String)) : List String :=
  (rows.filter fun row => row.1 = k).map Prod.snd

/-- The fragments that a statement writes for a record, if it is of the template. -/
def Statement.fragments (g : String × String) (k : String) (s : Statement) : List String :=
  if (s.opening, s.closing) = g then fragmentsOf k s.rows else []

/-- The fragments of a record that a request carries, if it is of the template. -/
def Request.fragments (g : String × String) (k : String) (r : Request) : List String :=
  r.statement.fragments g k

/-- The fragments of a record that some requests carry. -/
def carried (g : String × String) (k : String) (rs : List Request) : List String :=
  rs.flatMap fun r => r.fragments g k

/-- The fragments of a record that some statements write. -/
def written (g : String × String) (k : String) (ss : List Statement) : List String :=
  ss.flatMap fun s => s.fragments g k

@[simp] theorem carried_append (g : String × String) (k : String) (rs rs' : List Request) :
    carried g k (rs ++ rs') = carried g k rs ++ carried g k rs' :=
  List.flatMap_append

@[simp] theorem written_append (g : String × String) (k : String) (ss ss' : List Statement) :
    written g k (ss ++ ss') = written g k ss ++ written g k ss' :=
  List.flatMap_append

theorem fragmentsOf_append (k : String) (rows rows' : List (String × String)) :
    fragmentsOf k (rows ++ rows') = fragmentsOf k rows ++ fragmentsOf k rows' := by
  simp [fragmentsOf]

theorem Request.fragments_eq (g : String × String) (k : String) (r : Request) :
    r.fragments g k = fragmentsOf k (if r.template = g then r.values.entries else []) := by
  unfold fragments Statement.fragments statement
  by_cases h : r.template = g
  · rw [if_pos h]
    exact if_pos h
  · rw [if_neg h]
    exact if_neg h

theorem condenses_latest (k : String) (rows : List (String × String)) :
    Condenses (fragmentsOf k (latest rows)) (fragmentsOf k rows) := by
  unfold fragmentsOf
  rw [filter_latest]
  exact .last _

namespace Writer

variable {g : String × String} {k : String}

/-! ## Segments and plans -/

theorem Segment.fragments_pairs (seg : List Request) :
    carried g k seg = fragmentsOf k (pairs seg g) := by
  induction seg using List.reverseRecOn with
  | nil => rfl
  | append_singleton seg r ih =>
    rw [carried_append, pairs_snoc, fragmentsOf_append, ih, ← Request.fragments_eq]
    exact congrArg _ (List.flatMap_singleton ..)

theorem Segment.fragments_statements (seg : List Request) :
    written g k (statements seg) = fragmentsOf k (latest (pairs seg g)) := by
  have hkeys : (distinct (seg.map Request.template)).filter (fun t => t = g) =
      if g ∈ seg.map Request.template then [g] else [] := by
    rw [List.filter_eq, (FirstSeen.nodup_distinct _).count]
    simp only [mem_distinct]
    split_ifs <;> rfl
  have hone : written g k (statements seg) =
      ((distinct (seg.map Request.template)).filter fun t => t = g).flatMap fun t =>
        fragmentsOf k (latest (pairs seg t)) := by
    unfold written statements
    generalize distinct (seg.map Request.template) = ts
    induction ts with
    | nil => rfl
    | cons t ts ih =>
      rw [List.map_cons, List.flatMap_cons, ih, List.filter_cons]
      by_cases h : t = g
      · simp [Statement.fragments, h]
      · simp [Statement.fragments, h]
  rw [hone, hkeys]
  split_ifs with hmem
  · rw [List.flatMap_singleton]
  · have hnone : pairs seg g = [] := List.eq_nil_iff_forall_not_mem.2 fun v hv => by
      obtain ⟨r, hr, ht, -⟩ := mem_pairs.1 hv
      exact hmem (ht ▸ List.mem_map_of_mem hr)
    rw [hnone]
    rfl

/-- The statements of a segment carry the last fragment of a record. -/
theorem Segment.condenses (seg : List Request) :
    Condenses (written g k (statements seg)) (carried g k seg) := by
  rw [fragments_statements, fragments_pairs]
  exact condenses_latest k _

/-- The calls of a plan condense its segments. -/
theorem Outline.condenses {retries : Nat} {plan : List Mark}
    (hb : ∀ r ∈ arrivals plan, r.batchable = true) :
    Condenses (written g k ((ofPlan retries plan).calls.map Prod.fst))
      (carried g k (ofPlan retries plan).segments.flatten) := by
  induction plan using List.reverseRecOn with
  | nil => exact .refl _
  | append_singleton plan m ih =>
    have hpast := ih fun r hr => hb r (by
      rw [arrivals, List.filterMap_append]
      exact List.mem_append_left _ hr)
    rw [ofPlan_snoc]
    cases m with
    | arrival r =>
      have hr : r.batchable = true := hb r (by simp [arrivals, Mark.request?])
      rwa [next, if_pos hr]
    | cut =>
      have hcalls : ((Segment.statements (ofPlan retries plan).rest).map fun s =>
          (s, retries)).map Prod.fst = Segment.statements (ofPlan retries plan).rest := by
        simp [Function.comp_def]
      rw [next, List.map_append, hcalls, written_append, List.flatten_append, carried_append,
        List.flatten_singleton]
      exact hpast.append (Segment.condenses _)

/-! ## Runs -/

/-- The statements that the store ran for the writer: the first of those that it made. -/
def ran (es : List Event) : List Statement := (begun es).take (executed es).length

/-- The statement that the store runs next for the writer. -/
def next? (es : List Event) : Option Statement := (begun es)[(executed es).length]?

theorem ran_executed (es : List Event) (sql : String) :
    ran (es ++ [.executed sql]) = ran es ++ (next? es).toList := by
  unfold ran next?
  rw [executed_append, begun_append]
  simp [begun, executed, List.take_add_one]

theorem ran_append {es es' : List Event} (hle : (executed es).length ≤ (begun es).length)
    (hnone : executed es' = []) : ran (es ++ es') = ran es := by
  unfold ran
  rw [executed_append, begun_append, hnone, List.append_nil, List.take_append_of_le_length hle]

namespace Run

variable {p : Policy} {capacity : Nat} {es : List Event} {now : Nat} {w : Writer}

/-- The store has run the statements that the writer made, up to those among its duties. -/
theorem executed_eq (h : Run p capacity es now w) (hf : Filled es) (hdied : .died ∉ es)
    (hdrop : ∀ sql, .dropped sql ∉ es) :
    executed es ++ unrun w.duties = (begun es).map Statement.sql := by
  have hledger := h.ledger hf hdied
  rw [hledger.account.ran hdrop, hledger.books.begun_eq, List.map_map]
  rfl

theorem length_executed_le (h : Run p capacity es now w) (hf : Filled es) (hdied : .died ∉ es)
    (hdrop : ∀ sql, .dropped sql ∉ es) : (executed es).length ≤ (begun es).length := by
  have hlen := congrArg List.length (h.executed_eq hf hdied hdrop)
  rw [List.length_append, List.length_map] at hlen
  omega

/-- The statements that the store ran are the texts it was given. -/
theorem sql_ran (h : Run p capacity es now w) (hf : Filled es) (hdied : .died ∉ es)
    (hdrop : ∀ sql, .dropped sql ∉ es) : (ran es).map Statement.sql = executed es := by
  rw [ran, List.map_take, ← h.executed_eq hf hdied hdrop, List.take_left]

/-- What is run for a record came to the writer in the same order. -/
theorem ran_sublist (h : Run p capacity es now w) (hf : Filled es) (hdied : .died ∉ es)
    (hb : ∀ r ∈ accepted es, r.batchable = true) :
    (written g k (ran es)).Sublist (carried g k (accepted es)) := by
  have hbooks := (h.ledger hf hdied).books
  have hplan : ∀ r ∈ arrivals (plan es), r.batchable = true := fun r hr =>
    hb r (by rw [hbooks.queue_eq]; exact List.mem_append_left _ hr)
  have hsegments := Outline.flatten_segments p.retries (plan es)
  rw [List.filter_eq_self.2 hplan] at hsegments
  have hbegun : (ran es).Sublist ((outline p es).calls.map Prod.fst) := by
    rw [← hbooks.begun_eq]
    exact List.take_sublist _ _
  refine (hbegun.flatMap _).trans ((Outline.condenses hplan).sublist.trans ?_)
  rw [hbooks.queue_eq, ← hsegments, List.append_assoc, carried_append]
  exact List.sublist_append_left _ _

/-- When the writer has left, the last fragment of a record that came to it has been run. -/
theorem ran_condenses (h : Run p capacity es now w) (hf : Filled es)
    (hdrop : ∀ sql, .dropped sql ∉ es) (hb : ∀ r ∈ accepted es, r.batchable = true)
    (hgone : w.phase = .gone) :
    Condenses (written g k (ran es)) (carried g k (accepted es)) := by
  have hdied : .died ∉ es := fun hmem =>
    absurd ((h.crashed_of_died hmem).symm.trans hgone) (by simp)
  have hledger := h.ledger hf hdied
  obtain ⟨hduties, -, hqueue, hrest⟩ := hledger.left hgone
  have hplan : arrivals (plan es) = accepted es := by
    rw [hledger.books.queue_eq, hqueue, List.append_nil]
  have hlen := congrArg List.length (h.executed_eq hf hdied hdrop)
  rw [hduties, List.length_append, List.length_map] at hlen
  have hall : ran es = begun es := List.take_of_length_le (Nat.le_of_eq hlen.symm)
  have hsegments := Outline.flatten_segments p.retries (plan es)
  rw [hplan, List.filter_eq_self.2 hb] at hsegments
  have hflat : (outline p es).segments.flatten = accepted es := by
    rw [← hsegments]
    exact (List.append_nil _).symm.trans (congrArg _ hrest.symm)
  rw [hall, hledger.books.begun_eq, ← hflat]
  exact Outline.condenses (by rw [hplan]; exact hb)

end Run

end Writer

end BmpFeed
