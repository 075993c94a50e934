import BmpFeed.Proofs.Fleet.Closing
import BmpFeed.Proofs.Fleet.Sticky
import BmpFeed.Proofs.Writer.Latest

/-!
# Executions

The statements of all writers in the order in which the store ran them. The store is given texts;
the statement behind a text is the first of those that its writer made and that the store has not
run for it, and `Run.sql_executions` shows that it has the text. In a steady run a key goes to
another writer only when the former one has left.
-/

namespace BmpFeed.Fleet

/-- What an event after others shows of the store. -/
def execution (past : List Event) : Event → List (Nat × Statement)
  | .writer id (.executed _) => ((Writer.next? (of id past)).map fun s => (id, s)).toList
  | _ => []

def executionsFrom (past : List Event) : List Event → List (Nat × Statement)
  | [] => []
  | e :: es => execution past e ++ executionsFrom (past ++ [e]) es

/-- The statements that the store ran, with the numbers of the writers for which it ran them. -/
def executions (es : List Event) : List (Nat × Statement) := executionsFrom [] es

/-- The texts that the store ran, with the numbers of the writers that gave them. -/
def texts (es : List Event) : List (Nat × String) :=
  es.filterMap fun | .writer id (.executed sql) => some (id, sql) | _ => none

/-- No category grows, no writer is reset because of its load, nobody dies, and no query is given
up. -/
structure Steady (es : List Event) : Prop where
  grew : ∀ c, .grew c ∉ es
  rebalanced : ∀ c ids, .rebalanced c ids ∉ es
  died : ∀ id, .died ∉ of id es
  dropped : ∀ id sql, .dropped sql ∉ of id es

/-- Events that a steady run may show. -/
def Event.isSteady : Event → Bool
  | .grew _ | .rebalanced _ _ | .writer _ .died | .writer _ (.dropped _) => false
  | _ => true

variable {p : Policy} {es es' past : List Event} {now : Nat} {f : Fleet} {chores : List Chore}
  {id id' : Nat} {evs : List Writer.Event}

theorem Steady.of_append (h : Steady (es ++ es')) : Steady es where
  grew c hmem := h.grew c (List.mem_append_left _ hmem)
  rebalanced c ids hmem := h.rebalanced c ids (List.mem_append_left _ hmem)
  died id hmem := h.died id (by rw [Fleet.of_append]; exact List.mem_append_left _ hmem)
  dropped id sql hmem :=
    h.dropped id sql (by rw [Fleet.of_append]; exact List.mem_append_left _ hmem)

theorem mem_of_writer {e : Writer.Event} (he : ∀ r, e ≠ .accepted r) (hmem : e ∈ of id es) :
    .writer id e ∈ es := by
  obtain ⟨e', he', hof⟩ := List.mem_filterMap.1 hmem
  cases e' with
  | writer i e' =>
    obtain ⟨rfl, rfl⟩ : i = id ∧ e' = e := by simpa using hof
    exact he'
  | delivered c i r =>
    obtain ⟨-, rfl⟩ : i = id ∧ .accepted r = e := by simpa using hof
    exact absurd rfl (he r)
  | _ => simp at hof

theorem Steady.of_forall (h : ∀ e ∈ es, e.isSteady = true) : Steady es where
  grew c hmem := absurd (h _ hmem) (by simp [Event.isSteady])
  rebalanced c ids hmem := absurd (h _ hmem) (by simp [Event.isSteady])
  died id hmem := absurd (h _ (mem_of_writer (by simp) hmem)) (by simp [Event.isSteady])
  dropped id sql hmem := absurd (h _ (mem_of_writer (by simp) hmem)) (by simp [Event.isSteady])

theorem filled_of_append (hf : ∀ id, Writer.Filled (of id (es ++ es'))) (id : Nat) :
    Writer.Filled (of id es) := by
  have hfilled := hf id
  rw [of_append] at hfilled
  exact hfilled.of_append

/-! ## Views of the events -/

theorem executionsFrom_append (past es es' : List Event) :
    executionsFrom past (es ++ es') =
      executionsFrom past es ++ executionsFrom (past ++ es) es' := by
  induction es generalizing past with
  | nil => simp [executionsFrom]
  | cons e es ih => simp [executionsFrom, ih]

theorem executions_append (es es' : List Event) :
    executions (es ++ es') = executions es ++ executionsFrom es es' :=
  executionsFrom_append [] es es'

@[simp] theorem texts_append (es es' : List Event) : texts (es ++ es') = texts es ++ texts es' :=
  List.filterMap_append

/-- Events that are not the writers' own are no executions. -/
theorem executionsFrom_eq_nil (hof : ∀ id, of id es = []) (past : List Event) :
    executionsFrom past es = [] := by
  induction es generalizing past with
  | nil => rfl
  | cons e es ih =>
    have hsplit : ∀ id, of id [e] = [] ∧ of id es = [] := fun id =>
      List.append_eq_nil_iff.1 ((of_append id [e] es).symm.trans (hof id))
    rw [executionsFrom, ih fun id => (hsplit id).2, List.append_nil]
    cases e with
    | writer id e => exact absurd (hsplit id).1 (by simp [of])
    | _ => rfl

theorem texts_eq_nil (hof : ∀ id, of id es = []) : texts es = [] := by
  apply List.filterMap_eq_nil_iff.2
  intro e he
  cases e with
  | writer id e =>
    have hmem : e ∈ of id es := List.mem_filterMap.2 ⟨_, he, by simp⟩
    rw [hof] at hmem
    exact absurd hmem (by simp)
  | _ => rfl

/-- A step of a writer adds to what the store ran for the writer and to the executions alike. -/
theorem ran_events (hlen : evs.length ≤ 1)
    (hle : (Writer.executed (of id past)).length ≤ (Writer.begun (of id past)).length) :
    Writer.ran (of id past ++ evs) = Writer.ran (of id past) ++
      (executionsFrom past (evs.map (.writer id))).map Prod.snd := by
  cases evs with
  | nil => simp [executionsFrom]
  | cons e evs =>
    obtain rfl : evs = [] := List.eq_nil_of_length_eq_zero (by simpa using hlen)
    cases e with
    | executed sql =>
      rw [Writer.ran_executed]
      cases hn : Writer.next? (of id past) <;> simp [executionsFrom, execution, hn]
    | _ =>
      rw [Writer.ran_append hle rfl]
      simp [executionsFrom, execution]

/-! ## Texts -/

/-- The executions are those of the texts that the store was given. -/
def Faithful (es : List Event) : Prop :=
  (executions es).map (fun x => (x.1, x.2.sql)) = texts es

theorem Faithful.quiet (h : Faithful es) (hof : ∀ id, of id es' = []) : Faithful (es ++ es') := by
  unfold Faithful
  rw [executions_append, texts_append, executionsFrom_eq_nil hof, texts_eq_nil hof,
    List.append_nil, List.append_nil]
  exact h

/-- A writer makes a step: what it has run by its own account is what the store ran for it. -/
theorem Faithful.write {capacity : Nat} {policy : Writer.Policy} {w : Writer} {t : Store}
    {turn : Writer.Turn} (h : Faithful es)
    (hrun : Writer.Run policy capacity (of w.id es) now w) (hstep : w.step? now t = some turn)
    (hf : Writer.Filled (of w.id (es ++ (w.events t).map (.writer w.id))))
    (hs : Steady (es ++ (w.events t).map (.writer w.id))) :
    Faithful (es ++ (w.events t).map (.writer w.id)) := by
  have hdied := hs.died w.id
  have hdrop := hs.dropped w.id
  rw [of_append, of_writer] at hdied hdrop hf
  have hold := hrun.sql_ran hf.of_append (hs.of_append.died w.id) (hs.of_append.dropped w.id)
  have hran := (hrun.step hstep).sql_ran hf hdied hdrop
  have hlen := (Writer.move_of_step? hstep).length_le
  unfold Faithful
  rw [executions_append, List.map_append, h, texts_append]
  refine congrArg _ ?_
  generalize w.events t = evs at hran hlen ⊢
  cases evs with
  | nil => rfl
  | cons e evs =>
    obtain rfl : evs = [] := List.eq_nil_of_length_eq_zero (by simpa using hlen)
    cases e with
    | executed sql =>
      rw [Writer.ran_executed, List.map_append, hold, Writer.executed_append] at hran
      have hnext := List.append_cancel_left hran
      cases hn : Writer.next? (of w.id es) with
      | none => simp [hn, Writer.executed] at hnext
      | some s =>
        have hsql : s.sql = sql := by simpa [hn, Writer.executed] using hnext
        simp [executionsFrom, execution, hn, texts, hsql]
    | _ => simp [executionsFrom, execution, texts]

/-! ## Runs -/

namespace Run

/-- The executions are those of the texts that the store was given. -/
theorem sql_executions (h : Run p es now f chores) (hf : ∀ id, Writer.Filled (of id es))
    (hs : Steady es) : Faithful es := by
  induction h with
  | start => rfl
  | wait _ _ ih => exact ih hf hs
  | check _ _ ih => exact ih hf hs
  | write hrun hw hstep ih =>
    have hpast := ih (filled_of_append hf) hs.of_append
    exact hpast.write (hrun.staff.roster.runs _ hw) hstep (hf _) hs
  | route _ _ _ _ _ ih | send _ _ _ _ ih | dismiss _ _ ih =>
    have hpast := ih (filled_of_append hf) hs.of_append
    unfold Faithful
    rw [executions_append, texts_append, List.map_append, hpast]
    rfl
  | chore _ hstep ih =>
    exact (ih (filled_of_append hf) hs.of_append).quiet (Chore.move_of_step? hstep).of_eq

/-- In a steady run a key is routed to another writer only when the former one has left. -/
theorem retired_of_rerouted {c : Category} {key : String}
    (h : Run p (es ++ [.routed c key id']) now f []) (hopen : .dismissed ∉ es) (hs : Steady es)
    (hold : .routed c key id ∈ es) (hne : id ≠ id') : ∃ w, .retired w ∈ es ∧ w.id = id := by
  obtain ⟨past, between, rfl⟩ := List.append_of_mem hold
  have hdied : .died ∉ of id ((past ++ .routed c key id :: between) ++ [.routed c key id']) := by
    rw [of_append]
    simpa [of] using hs.died id
  have hsplit : (past ++ .routed c key id :: between) ++ [.routed c key id'] =
      past ++ .routed c key id :: (between ++ .routed c key id' :: []) := by simp
  obtain ⟨e, hmem, hfrees⟩ := h.frees_between (by simpa using hopen) hsplit hne
  have hpast : e ∈ past ++ .routed c key id :: between :=
    List.mem_append_right _ (List.mem_cons_of_mem _ hmem)
  cases hfrees with
  | grew => exact absurd hpast (hs.grew c)
  | rebalanced => exact absurd hpast (hs.rebalanced c _)
  | replaced => exact absurd (h.staff.replaced c id (List.mem_append_left _ hpast)) hdied
  | removed =>
    obtain ⟨hlt, hposts⟩ := h.staff.removed c id (List.mem_append_left _ hpast)
    have habsent : id ∉ f.writers.map Writer.id := by
      intro hmem
      obtain ⟨w, hw, rfl⟩ := List.mem_map.1 hmem
      rcases List.mem_append.1 ((f.writers_perm c).mem_iff.1 hw) with hw | hw
      · obtain ⟨post, hpost, rfl⟩ := List.mem_map.1 hw
        exact hposts c post hpost rfl
      · rcases List.mem_append.1 hw with hw | hw
        · obtain ⟨post, hpost, rfl⟩ := List.mem_map.1 hw
          exact hposts c.other post hpost rfl
        · exact absurd (h.staff.joins w hw) (by simp)
    obtain ⟨w, n, hret, hid, -⟩ := h.left_of_absent hdied hlt habsent
    exact ⟨w, (List.mem_append.1 hret).resolve_right (by simp), hid⟩

end Run

end BmpFeed.Fleet
