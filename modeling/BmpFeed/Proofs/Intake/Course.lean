import BmpFeed.Proofs.Intake.Layout

/-!
# The course of an intake

`Course` is what holds of an intake at any time of a run, unless a statement has ended it: its tasks
are in a layout, its dispatch is in a run of its own, the requests that it handed over are those of
the messages that it took up, and these are what the polls brought, but for those that a fault on
the bus makes it drop.
-/

namespace BmpFeed.Intake

variable {s : Settings} {p : Fleet.Policy} {capacity : Nat} {now : Nat} {i : Intake}
  {d d' : Dispatch} {desk : Dispatch.Desk} {ms : List Sql.Mapping} {ts ts' rest new : List Task}
  {es es' : List Event} {o : Option Outcome} {task : Task}

/-! ## Messages among the tasks -/

/-- The messages that are to be taken up. -/
def handles (ts : List Task) : List Feed.Message :=
  ts.filterMap fun | .handle m => some m | _ => none

/-- A fault on the bus is to end the intake, or has ended it. -/
def Failed (ts : List Task) (o : Option Outcome) : Prop :=
  ∃ f, .halt (some f) ∈ ts ∨ .leave (some f) ∈ ts ∨ o = some (.failed f)

/-- What polls brought has been taken up or is to be, but for messages that a fault on the bus makes
the intake drop. -/
def Heard (es : List Event) (ts : List Task) (o : Option Outcome) : Prop :=
  ∃ lost, polled es = received es ++ handles ts ++ lost ∧ (lost = [] ∨ Failed ts o)

theorem not_failed (hts : ∀ f, .halt (some f) ∉ ts ∧ .leave (some f) ∉ ts)
    (ho : ∀ f, o ≠ some (.failed f)) : ¬Failed ts o := by
  rintro ⟨f, hf | hf | hf⟩
  · exact (hts f).1 hf
  · exact (hts f).2 hf
  · exact ho f hf

@[simp] theorem handles_append (ts ts' : List Task) :
    handles (ts ++ ts') = handles ts ++ handles ts' :=
  List.filterMap_append

theorem handles_eq_nil (h : ∀ t ∈ ts, ∀ m, t ≠ .handle m) : handles ts = [] := by
  apply List.filterMap_eq_nil_iff.2
  intro t ht
  cases t with
  | handle m => exact absurd rfl (h _ ht m)
  | _ => rfl

theorem handles_aside (h : ∀ t ∈ ts, t.isAside = true) : handles ts = [] := by
  apply handles_eq_nil
  intro t ht m he
  have haside := h t ht
  simp [he, Task.isAside] at haside

theorem handles_chores (cs : List Fleet.Chore) : handles (cs.map chore) = [] := by
  apply handles_eq_nil
  intro t ht m
  obtain ⟨c, -, rfl⟩ := List.mem_map.1 ht
  simp [chore]

theorem handles_afterPoll (now : Nat) (msgs : List Feed.Message) :
    handles (afterPoll now msgs) = msgs := by
  cases msgs with
  | nil => rfl
  | cons m msgs =>
    have hmap : handles ((m :: msgs).map .handle) = m :: msgs := by
      simp [handles, List.filterMap_map]
    have hsplit : afterPoll now (m :: msgs) = [.pause] ++ (m :: msgs).map .handle ++
        [.check, .work .drain, .resume, .depths, .cycle] := rfl
    rw [hsplit, handles_append, handles_append, hmap]
    exact List.append_nil _

theorem Failed.replace (h : Failed (task :: rest) none)
    (hgood : ∀ f, task ≠ .halt (some f) ∧ task ≠ .leave (some f)) : Failed (new ++ rest) none := by
  obtain ⟨f, hf | hf | hf⟩ := h
  · have hmem := (List.mem_cons.1 hf).resolve_left fun he => (hgood f).1 he.symm
    exact ⟨f, .inl (List.mem_append_right _ hmem)⟩
  · have hmem := (List.mem_cons.1 hf).resolve_left fun he => (hgood f).2 he.symm
    exact ⟨f, .inr (.inl (List.mem_append_right _ hmem))⟩
  · exact absurd hf (by simp)

namespace Heard

/-- A task is done, and no others for messages take its place. -/
theorem replace (h : Heard es (task :: rest) none) (new : List Task) (hpolled : polled es' = [])
    (hreceived : received es' = handles [task])
    (hgood : ∀ f, task ≠ .halt (some f) ∧ task ≠ .leave (some f)) (hnew : handles new = []) :
    Heard (es ++ es') (new ++ rest) none := by
  obtain ⟨lost, he, hlost⟩ := h
  refine ⟨lost, ?_, hlost.imp_right fun hf => hf.replace hgood⟩
  rw [← List.singleton_append, handles_append] at he
  rw [polled_append, received_append, hpolled, hreceived, handles_append, hnew, List.append_nil,
    List.nil_append, he]
  simp only [List.append_assoc]

/-- A fault on the bus is to end the intake. -/
theorem fail (h : Heard es ts none) (f : Feed.Fault) : Heard (es ++ []) [.halt (some f)] none := by
  obtain ⟨lost, he, -⟩ := h
  refine ⟨handles ts ++ lost, ?_, .inr ⟨f, .inl (List.mem_singleton_self _)⟩⟩
  rw [List.append_nil, he, show handles [.halt (some f)] = [] from rfl, List.append_nil,
    List.append_assoc]

/-- What a poll brings is to be taken up. -/
theorem poll (h : Heard es [.poll] none) (now : Nat) (msgs : List Feed.Message) :
    Heard (es ++ [.polled msgs]) (afterPoll now msgs ++ []) none := by
  obtain ⟨lost, he, hlost⟩ := h
  obtain rfl : lost = [] := hlost.resolve_right (not_failed (by simp) (by simp))
  rw [show handles [.poll] = [] from rfl, List.append_nil, List.append_nil] at he
  refine ⟨[], ?_, .inl rfl⟩
  rw [polled_append, received_append, he, handles_append, handles_afterPoll]
  simp [polled, received, handles]

/-- What was lost stays lost while the intake leaves. -/
theorem halt {fault : Option Feed.Fault} (h : Heard es [.halt fault] none) :
    Heard (es ++ []) [.lastPause, .drainOut 0, .leave fault] none := by
  cases fault with
  | none => exact h.replace [.lastPause, .drainOut 0, .leave none] rfl rfl (by simp) rfl
  | some f =>
    obtain ⟨lost, he, -⟩ := h
    exact ⟨lost, by rw [List.append_nil]; exact he, .inr ⟨f, .inr (.inl (by simp))⟩⟩

theorem leave (fault : Option Feed.Fault) : Heard es [.leave fault] none →
    Heard (es ++ []) []
      (some (match fault with
        | some f => .failed f
        | none => .stopped)) := by
  rintro ⟨lost, he, hlost⟩
  refine ⟨lost, by rw [List.append_nil]; exact he, ?_⟩
  cases fault with
  | none => exact .inl (hlost.resolve_right (not_failed (by simp) (by simp)))
  | some f => exact .inr ⟨f, .inr (.inr rfl)⟩

/-- A move of the intake keeps account of the messages. -/
theorem move (h : Heard es ts none) (hl : Layout desk ts)
    (m : Move now ms d ts es' ts' d' o) (hcrash : o ≠ some .crashed) :
    Heard (es ++ es') ts' o := by
  cases m with
  | start rest => exact h.replace [.refresh, .cycle] rfl rfl (by simp) rfl
  | aside new rest ht hnew =>
    refine h.replace _ rfl (handles_aside (by simpa using ht)).symm (fun f => ?_)
      (handles_aside hnew)
    constructor <;> rintro rfl <;> simp [Task.isAside] at ht
  | order rest ht =>
    refine h.replace [] rfl (handles_eq_nil ?_).symm (fun f => ?_) rfl
    · rintro t htask m rfl
      rw [← List.mem_singleton.1 htask] at ht
      simp [Task.isOrder] at ht
    · constructor <;> rintro rfl <;> simp [Task.isOrder] at ht
  | fail rest f ht => exact h.fail f
  | cycle rest => exact h.replace [.subscribe, .poll] rfl rfl (by simp) rfl
  | stop rest =>
    obtain ⟨rfl, -⟩ := hl.of_isLast rfl
    exact h.replace [.halt none] rfl rfl (by simp) rfl
  | poll msgs rest =>
    obtain ⟨rfl, -⟩ := hl.of_isLast rfl
    exact h.poll now msgs
  | idleCheck rest =>
    have hnew : Heard (es ++ []) (.pause :: (checkTasks ++ [.resume]) ++ rest) none :=
      h.replace _ rfl rfl (by simp) rfl
    rwa [List.cons_append, List.append_assoc] at hnew
  | check rest => exact h.replace _ rfl rfl (by simp) rfl
  | receive m new rest hreq hnew => exact h.replace _ rfl rfl (by simp) (handles_aside hnew)
  | request m rest hreq => exact h.replace [.work (.push _)] rfl rfl (by simp) rfl
  | push rest hpush => exact h.replace [] rfl rfl (by simp) rfl
  | full r rest =>
    exact h.replace [.work .drain, .work (.rest r)] rfl rfl (by simp) rfl
  | rest r due rest => exact h.replace [.work (.retry r due)] rfl rfl (by simp) rfl
  | retry r due rest => exact h.replace [.work (.push r)] rfl rfl (by simp) rfl
  | drain rest => exact h.replace [.work (.pass _)] rfl rfl (by simp) rfl
  | endPass rest hleft => exact h.replace [] rfl rfl (by simp) rfl
  | passOn rest hleft =>
    exact h.replace [.work (.pass _)] (polled_map _) (received_map _) (by simp) rfl
  | chore rest hstep =>
    exact h.replace _ (polled_map _) (received_map _) (by simp) (handles_chores _)
  | halt fault rest =>
    obtain ⟨rfl, -⟩ := hl.of_isLast rfl
    exact h.halt
  | lastPause rest => exact h.replace [] rfl rfl (by simp) rfl
  | dismiss n rest hempty => exact h.replace _ rfl rfl (by simp) (handles_chores _)
  | drainOut n rest =>
    exact h.replace [.work .drain, .drainWait (n + 1)] rfl rfl (by simp) rfl
  | drainWait n due rest => exact h.replace [.drainPause n due] rfl rfl (by simp) rfl
  | drainPause n due rest => exact h.replace [.drainOut n] rfl rfl (by simp) rfl
  | leave fault rest =>
    cases hl with
    | calm hc => exact hc.not_leave.elim
    | leaving fault => exact leave fault h
  | crash q rest => exact absurd rfl hcrash

end Heard

/-! ## The invariant -/

/-- The requests that a move hands over are those of the messages that it takes up. -/
theorem Move.pushed_eq (m : Move now ms d ts es ts' d' o) :
    Dispatch.pushed (dispatchEvents es) = (received es).filterMap (request? ms) := by
  cases m with
  | receive m new rest h => simp [dispatchEvents, received, Dispatch.pushed, h]
  | request m rest h => simp [dispatchEvents, received, Dispatch.pushed, h]
  | passOn rest h => rw [dispatchEvents_map, received_map, Dispatch.pushed_passEvents]; rfl
  | chore rest h => rw [dispatchEvents_map, received_map, Dispatch.pushed_map]; rfl
  | _ => rfl

/-- An intake that has ended has nothing left to do. -/
theorem Move.tasks_eq_nil (m : Move now ms d ts es ts' d' o) (ho : o ≠ none) : ts' = [] := by
  cases m with
  | leave | crash => rfl
  | _ => exact absurd rfl ho

/-- What holds of an intake that no statement has ended. -/
structure Course (s : Settings) (es : List Event) (now : Nat) (i : Intake)
    (desk : Dispatch.Desk) : Prop where
  mappings_eq : i.mappings = s.tables
  layout : Layout desk i.tasks
  run : Dispatch.Run (.ofSettings s) s.base.backlog (dispatchEvents es) now i.dispatch desk
  pushed_eq : Dispatch.pushed (dispatchEvents es) = (received es).filterMap (request? s.tables)
  heard : Heard es i.tasks i.outcome

namespace Run

theorem tasks_eq_nil (h : Run s es now i) (hended : i.outcome ≠ none) : i.tasks = [] := by
  induction h with
  | open_ => exact absurd rfl hended
  | wait _ _ ih => exact ih hended
  | bus _ _ ih => exact ih hended
  | write _ _ _ ih => exact ih hended
  | @step es now i stopping t turn _ hstep ih =>
    by_cases hopen : i.outcome = none
    · exact (move_of_step? hopen hstep).1.tasks_eq_nil hended
    · obtain ⟨task, rest, hts, -⟩ := exists_deed hstep
      exact absurd ((ih hopen).symm.trans hts) (by simp)

theorem outcome_eq_none (h : Run s es now i) {stopping : Bool} {t : Store} {turn : Turn}
    (hstep : i.step? now stopping t = some turn) : i.outcome = none := by
  by_contra hended
  obtain ⟨task, rest, hts, -⟩ := exists_deed hstep
  exact absurd ((h.tasks_eq_nil hended).symm.trans hts) (by simp)

theorem course (h : Run s es now i) (hcrash : i.outcome ≠ some .crashed) :
    ∃ desk, Course s es now i desk := by
  induction h with
  | open_ id bus now t =>
    exact ⟨{}, rfl, .calm (.last rfl), .start now _, rfl, [], rfl, .inl rfl⟩
  | wait _ hle ih =>
    obtain ⟨desk, hc⟩ := ih hcrash
    exact ⟨desk, { hc with run := hc.run.wait hle }⟩
  | bus _ _ ih =>
    obtain ⟨desk, hc⟩ := ih hcrash
    exact ⟨desk, { hc with }⟩
  | write _ hw hstep ih =>
    obtain ⟨desk, hc⟩ := ih hcrash
    refine ⟨desk, hc.mappings_eq, hc.layout, ?_, ?_, ?_⟩
    · rw [dispatchEvents_append, dispatchEvents_map]
      exact hc.run.write hw hstep
    · rw [dispatchEvents_append, dispatchEvents_map, Dispatch.pushed_append, Dispatch.pushed_map,
        received_append, received_map, List.append_nil, List.append_nil]
      exact hc.pushed_eq
    · unfold Heard
      rw [polled_append, polled_map, received_append, received_map, List.append_nil,
        List.append_nil]
      exact hc.heard
  | @step es now i stopping t turn hrun hstep ih =>
    have hopen := hrun.outcome_eq_none hstep
    obtain ⟨desk, hc⟩ := ih (by simp [hopen])
    obtain ⟨hmove, hms⟩ := move_of_step? hopen hstep
    obtain ⟨desk', hlayout, hd⟩ := hc.layout.move hc.run hmove hcrash
    refine ⟨desk', hms.trans hc.mappings_eq, hlayout, ?_, ?_, ?_⟩
    · rw [dispatchEvents_append]
      exact hd
    · rw [dispatchEvents_append, Dispatch.pushed_append, received_append, List.filterMap_append,
        hc.pushed_eq, hmove.pushed_eq, hc.mappings_eq]
    · exact (hopen ▸ hc.heard).move hc.layout hmove hcrash

/-- An intake that has ended, other than by a statement, has dismissed its fleet. -/
theorem course_ended (h : Run s es now i) (hended : i.outcome ≠ none)
    (hcrash : i.outcome ≠ some .crashed) : Course s es now i { closed := true } := by
  obtain ⟨desk, hc⟩ := h.course hcrash
  have hlayout := hc.layout
  rw [h.tasks_eq_nil hended] at hlayout
  cases hlayout with
  | calm h => cases h
  | left => exact hc

end Run

end BmpFeed.Intake
