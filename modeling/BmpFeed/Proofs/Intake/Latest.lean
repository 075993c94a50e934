import BmpFeed.Proofs.Dispatch.Relay
import BmpFeed.Proofs.Intake.Complete

/-!
# The latest value wins

The messages of an intake carry fragments of a record, in the order in which they are taken up. If
all of them come under one key of one category, what the store runs for the record, over all
writers, is in this order too, and at the end the last fragment has been run.
`Run.latest_value_wins` says so of every run in which no category grows or is rebalanced, nobody
dies and no query is given up.
-/

namespace BmpFeed.Intake

variable {s : Settings} {es : List Event} {now : Nat} {i : Intake} {desk : Dispatch.Desk}
  {ms : List Sql.Mapping} {m : Feed.Message} {r : Request} {g : String × String} {k key : String}
  {c : Category}

/-- The fragments of a record in the rows of a message that is batched, if the statements of its
table are of the template. -/
def fragments (ms : List Sql.Mapping) (g : String × String) (k : String) (m : Feed.Message) :
    List String :=
  match batch? ms m with
  | some (mapping, rows) =>
    if (mapping.statementOpening, mapping.closing) = g then
      fragmentsOf k (rows.map fun row => (mapping.identityOf row, mapping.fragment row))
    else []
  | none => []

/-- A message that carries the record has this key, and its kind is of this category. -/
def CarriedUnder (ms : List Sql.Mapping) (g : String × String) (k key : String) (c : Category)
    (m : Feed.Message) : Prop :=
  fragments ms g k m ≠ [] →
    m.key = key ∧ ∀ b ∈ batch? ms m, b.1.kind.category = c

/-- What the store has run for a record, by the messages that the intake took up. -/
structure LatestWins (s : Settings) (g : String × String) (k : String) (es : List Event)
    (i : Intake) : Prop where
  /-- The statements are those whose texts the store was given. -/
  faithful : Fleet.Faithful (fleetEvents es)
  /-- The fragments were run in the order of the messages. -/
  in_order : (written g k ((Fleet.executions (fleetEvents es)).map Prod.snd)).Sublist
    ((received es).flatMap (fragments s.tables g k))
  /-- At the end the last of them has been run. -/
  last_eq : i.outcome ≠ none →
    (written g k ((Fleet.executions (fleetEvents es)).map Prod.snd)).getLast? =
      ((received es).flatMap (fragments s.tables g k)).getLast?
  /-- Messages are taken up in the order in which the polls brought them. -/
  received_prefix : received es <+: polled es
  /-- Only a fault on the bus makes the intake drop messages. -/
  all_received : i.outcome = some .stopped → received es = polled es

/-! ## Messages and their requests -/

/-- Rows always have a key to go under. -/
theorem request?_eq_none (h : request? ms m = none) : batch? ms m = none := by
  cases hbatch : batch? ms m with
  | none => rfl
  | some b =>
    obtain ⟨mapping, rows⟩ := b
    have hkey : requestKey? m.key (mapping.values rows) = none := by
      simpa [request?, hbatch] using h
    have hsize : (mapping.values rows).size ≠ 0 :=
      Writer.Batch.size_ofList_ne_zero (by simpa using rows_ne_nil hbatch)
    unfold requestKey? at hkey
    split_ifs at hkey
    rw [List.head?_eq_none_iff] at hkey
    exact absurd (by simpa [FirstSeen.keys, FirstSeen.size] using hkey) hsize

/-- The request for a message keeps the last fragment of a record. -/
theorem condenses_request? (ms : List Sql.Mapping) (m : Feed.Message) :
    Condenses (carried g k (request? ms m).toList) (fragments ms g k m) := by
  cases hreq : request? ms m with
  | none =>
    unfold fragments
    rw [request?_eq_none hreq]
    exact .refl _
  | some r =>
    obtain ⟨mapping, rows, key, hbatch, rfl⟩ := exists_of_request? hreq
    have hone : carried g k (some (mapping.request key rows)).toList =
        (mapping.request key rows).fragments g k := List.flatMap_singleton ..
    have hvalues : (mapping.request key rows).values.entries =
        latest (rows.map fun row => (mapping.identityOf row, mapping.fragment row)) :=
      FirstSeen.entries_ofList _
    have htemplate : (mapping.request key rows).template =
        (mapping.statementOpening, mapping.closing) := rfl
    unfold fragments
    rw [hone, Request.fragments_eq, hvalues, htemplate, hbatch]
    dsimp only
    by_cases hg : (mapping.statementOpening, mapping.closing) = g
    · rw [if_pos hg, if_pos hg]
      exact condenses_latest k _
    · rw [if_neg hg, if_neg hg]
      exact .refl _

/-- The requests for some messages keep the last fragment of a record. -/
theorem condenses_requests (ms : List Sql.Mapping) (msgs : List Feed.Message) :
    Condenses (carried g k (msgs.filterMap (request? ms))) (msgs.flatMap (fragments ms g k)) := by
  induction msgs with
  | nil => exact .refl _
  | cons m msgs ih =>
    have hsplit : (m :: msgs).filterMap (request? ms) =
        (request? ms m).toList ++ msgs.filterMap (request? ms) := by
      cases hreq : request? ms m <;> simp [hreq]
    rw [hsplit, carried_append, List.flatMap_cons]
    exact (condenses_request? ms m).append ih

/-- A request goes under the key of its message, if this is not empty. -/
theorem request?_under (hreq : request? ms m = some r) (hm : CarriedUnder ms g k key c m)
    (hkey : key ≠ "") (hfrag : r.fragments g k ≠ []) : r.category = c ∧ r.key = key := by
  have hcondenses := condenses_request? (g := g) (k := k) ms m
  rw [hreq, show carried g k (some r).toList = r.fragments g k from List.flatMap_singleton ..]
    at hcondenses
  have hne : fragments ms g k m ≠ [] := fun hnil =>
    hfrag (List.sublist_nil.1 (hnil ▸ hcondenses.sublist))
  obtain ⟨hmkey, hcategory⟩ := hm hne
  obtain ⟨⟨mapping, rows⟩, hbatch, hr⟩ := Option.bind_eq_some_iff.1 hreq
  have hrequest : requestKey? m.key (mapping.values rows) = some key := by
    unfold requestKey?
    rw [hmkey, if_neg (by simpa using hkey)]
  obtain ⟨key', hkey', rfl⟩ := Option.map_eq_some_iff.1 hr
  obtain rfl := Option.some.inj (hkey'.symm.trans hrequest)
  exact ⟨hcategory _ hbatch, rfl⟩

theorem Course.keyed (h : Course s es now i desk)
    (hm : ∀ m ∈ received es, CarriedUnder s.tables g k key c m) (hkey : key ≠ "") :
    Dispatch.Keyed g k c key (Dispatch.pushed (dispatchEvents es)) := by
  intro r hr hfrag
  rw [h.pushed_eq] at hr
  obtain ⟨m, hmem, hreq⟩ := List.mem_filterMap.1 hr
  exact request?_under hreq (hm m hmem) hkey hfrag

/-! ## Runs -/

/-- The latest value of a record wins in a steady run, if it comes under one key of one category. -/
theorem Run.latest_value_wins (h : Run s es now i) (hcrash : i.outcome ≠ some .crashed)
    (hs : Fleet.Steady (fleetEvents es)) (hkey : key ≠ "")
    (hm : ∀ m ∈ received es, CarriedUnder s.tables g k key c m) : LatestWins s g k es i := by
  obtain ⟨desk, hcourse⟩ := h.course hcrash
  have hrequests := condenses_requests (g := g) (k := k) s.tables (received es)
  rw [← hcourse.pushed_eq] at hrequests
  obtain ⟨lost, hpolled, hlost⟩ := hcourse.heard
  constructor
  · exact hcourse.run.fleet.1.sql_executions (fun id => hcourse.run.filled hcourse.batched) hs
  · exact (hcourse.run.executions_sublist hcourse.batched (hcourse.keyed hm hkey) hs).trans
      hrequests.sublist
  · intro hended
    have hclosed := h.course_ended hended hcrash
    exact ((hclosed.run.executions_condenses hclosed.batched (hclosed.keyed hm hkey) hs).trans
      hrequests).last_eq
  · exact ⟨handles i.tasks ++ lost, by rw [hpolled, List.append_assoc]⟩
  · intro hstopped
    have htasks := h.tasks_eq_nil (by simp [hstopped])
    obtain rfl : lost = [] :=
      hlost.resolve_right (not_failed (by simp [htasks]) (by simp [hstopped]))
    rw [hpolled, htasks]
    simp [handles]

theorem latest_value_wins_sample :
    ∃ es now i, Run sampleSettings es now i ∧ i.outcome = some .stopped ∧
      Fleet.Steady (fleetEvents es) ∧
      (∀ m ∈ received es, CarriedUnder sampleSettings.tables
        ("INSERT INTO t (k,v) VALUES ", "") "1" "r" .general m) ∧
      (received es).flatMap
        (fragments sampleSettings.tables ("INSERT INTO t (k,v) VALUES ", "") "1") =
          ["(1,2)", "(1,3)", "(1,4)"] ∧
      LatestWins sampleSettings ("INSERT INTO t (k,v) VALUES ", "") "1" es i := by
  have hrun : Run sampleSettings sampleTrace.events sampleTrace.now sampleTrace.intake :=
    Trace.run_finish (Trace.run_start _ _ _) 300
  have hstopped : sampleTrace.intake.outcome = some .stopped := by decide +kernel
  have hsteady : Fleet.Steady (fleetEvents sampleTrace.events) :=
    .of_forall (by decide +kernel)
  have hreceived : received sampleTrace.events = sampleMessages := by decide +kernel
  have hunder : ∀ m ∈ received sampleTrace.events, CarriedUnder sampleSettings.tables
      ("INSERT INTO t (k,v) VALUES ", "") "1" "r" .general m := by
    rw [hreceived]
    unfold CarriedUnder
    decide +kernel
  refine ⟨_, _, _, hrun, hstopped, hsteady, hunder, ?_,
    hrun.latest_value_wins (by simp [hstopped]) hsteady (by simp) hunder⟩
  rw [hreceived]
  decide +kernel

end BmpFeed.Intake
