import BmpFeed.Proofs.Fleet.Tally

/-!
# Fleets with a record

`Logged` is a run of a fleet with its record, the latest entry first. A `Course` is a part of a run
in which nothing is begun: chores are done while the writers work and time passes. The times that a
fleet keeps are those of its record, a writer on record as reset had an empty queue or had died, and
what stands before an inspection of a category concerns the other one.
-/

namespace BmpFeed.Fleet

/-- The runs of a fleet, with their events and their record. -/
inductive Logged (p : Policy) : List Event → List Entry → Nat → Fleet → List Chore → Prop
  | start (now : Nat) (t : Store) :
      Logged p [] [.founded now] now (Fleet.start p now t).1 []
  | wait {es : List Event} {log : List Entry} {now now' : Nat} {f : Fleet} {chores : List Chore} :
      Logged p es log now f chores → now ≤ now' → Logged p es log now' f chores
  | write {es : List Event} {log : List Entry} {now : Nat} {f : Fleet} {chores : List Chore}
      {t : Store} {w : Writer} {turn : Writer.Turn} :
      Logged p es log now f chores → w ∈ f.writers → w.step? now t = some turn →
        Logged p (es ++ (w.events t).map (.writer w.id)) log now (f.replace turn.writer) chores
  | route {es : List Event} {log : List Entry} {now : Nat} {f : Fleet} (c : Category)
      (key : String) {post : Post} :
      Logged p es log now f [] → .dismissed ∉ es →
        (f.posts c)[(f.route c key).1.place]? = some post →
        Logged p (es ++ [.routed c key post.writer.id]) log now (f.route c key).2 []
  | send {es : List Event} {log : List Entry} {now : Nat} {f f' : Fleet} {s : Slot} {r : Request}
      {note : Note} {post : Post} :
      Logged p es log now f [] → .dismissed ∉ es → f.send? s r = some (f', note) →
        (f.posts s.category)[s.place]? = some post →
        Logged p (es ++ [.delivered s.category post.writer.id r]) log now f' []
  | check {es : List Event} {log : List Entry} {now : Nat} {f : Fleet} :
      Logged p es log now f [] → .dismissed ∉ es → Logged p es log now f checkChores
  | dismiss {es : List Event} {log : List Entry} {now : Nat} {f : Fleet} :
      Logged p es log now f [] → .dismissed ∉ es →
        Logged p (es ++ [.dismissed]) log now f shutdownChores
  | chore {es : List Event} {log : List Entry} {now : Nat} {f : Fleet} {chore : Chore}
      {chores : List Chore} {t : Store} {turn : Chore.Turn} :
      Logged p es log now f (chore :: chores) → chore.step? now f t = some turn →
        Logged p (es ++ chore.events now f t) (chore.entries now f t ++ log) now turn.fleet
          (turn.chores ++ chores)

/-- A part of a run in which the owner of the fleet does chores and nothing else. -/
inductive Course (now : Nat) (f : Fleet) (chores : List Chore) :
    List Event → List Entry → Nat → Fleet → List Chore → Prop
  | start : Course now f chores [] [] now f chores
  | wait {es : List Event} {log : List Entry} {n n' : Nat} {g : Fleet} {rest : List Chore} :
      Course now f chores es log n g rest → n ≤ n' → Course now f chores es log n' g rest
  | write {es : List Event} {log : List Entry} {n : Nat} {g : Fleet} {rest : List Chore}
      {t : Store} {w : Writer} {turn : Writer.Turn} :
      Course now f chores es log n g rest → w ∈ g.writers → w.step? n t = some turn →
        Course now f chores (es ++ (w.events t).map (.writer w.id)) log n (g.replace turn.writer)
          rest
  | chore {es : List Event} {log : List Entry} {n : Nat} {g : Fleet} {chore : Chore}
      {rest : List Chore} {t : Store} {turn : Chore.Turn} :
      Course now f chores es log n g (chore :: rest) → chore.step? n g t = some turn →
        Course now f chores (es ++ chore.events n g t) (chore.entries n g t ++ log) n turn.fleet
          (turn.chores ++ rest)

variable {p : Policy} {es es' : List Event} {log log' : List Entry} {now now' : Nat}
  {f f' : Fleet} {c : Category} {chore : Chore} {chores chores' rest : List Chore}

namespace Logged

theorem run (h : Logged p es log now f chores) : Run p es now f chores := by
  induction h with
  | start now t => exact .start now t
  | wait _ hle ih => exact ih.wait hle
  | write _ hw hstep ih => exact ih.write hw hstep
  | route c key _ hopen hpost ih => exact ih.route c key hopen hpost
  | send _ hopen hs hpost ih => exact ih.send hopen hs hpost
  | check _ hopen ih => exact ih.check hopen
  | dismiss _ hopen ih => exact ih.dismiss hopen
  | chore _ hstep ih => exact ih.chore hstep

theorem inspect (h : Logged p es log now f (.inspect c :: chores)) (t : Store) :
    Logged p (es ++ (Chore.inspect c).events now f t)
      ((Chore.inspect c).entries now f t ++ log) now (Chore.inspectStep c now f t).fleet
      ((Chore.inspectStep c now f t).chores ++ chores) :=
  h.chore rfl

/-- What a course does is done in the run in which it begins. -/
theorem course (h : Logged p es log now f (chores ++ rest))
    (hcourse : Course now f chores es' log' now' f' chores') :
    Logged p (es ++ es') (log' ++ log) now' f' (chores' ++ rest) := by
  induction hcourse with
  | start => rwa [List.append_nil]
  | wait _ hle ih => exact ih.wait hle
  | write _ hw hstep ih =>
    rw [← List.append_assoc]
    exact ih.write hw hstep
  | chore _ hstep ih =>
    rw [List.cons_append] at ih
    simpa only [List.append_assoc] using ih.chore hstep

/-- What holds of a new fleet and is kept whenever the owner works on it, gives it something to do,
or does a chore, holds all through a run. -/
theorem invariant {P : List Entry → Nat → Fleet → List Chore → Prop}
    (hstart : ∀ now t, P [.founded now] now (Fleet.start p now t).1 [])
    (hwait : ∀ {log now now' f chores}, P log now f chores → now ≤ now' → P log now' f chores)
    (hserve : ∀ {log now f f' chores}, P log now f chores → f.Serves f' → P log now f' chores)
    (hassign : ∀ {log now f chores}, P log now f [] →
      chores = checkChores ∨ chores = shutdownChores → P log now f chores)
    (hchore : ∀ {es es' log now f chore chores t} {turn : Chore.Turn},
      Run p es now f (chore :: chores) → Run p es' now turn.fleet (turn.chores ++ chores) →
      chore.step? now f t = some turn → P log now f (chore :: chores) →
      P (chore.entries now f t ++ log) now turn.fleet (turn.chores ++ chores))
    (h : Logged p es log now f chores) : P log now f chores := by
  induction h with
  | start now t => exact hstart now t
  | wait _ hle ih => exact hwait ih hle
  | write _ _ _ ih => exact hserve ih (serves_replace _ _)
  | route c key _ _ _ ih => exact hserve ih (serves_route _ c key)
  | send _ _ hs _ ih => exact hserve ih (serves_send hs)
  | check _ _ ih => exact hassign ih (.inl rfl)
  | dismiss _ _ ih => exact hassign ih (.inr rfl)
  | chore hlogged hstep ih => exact hchore hlogged.run (hlogged.chore hstep).run hstep ih

end Logged

/-- Every run has a record. -/
theorem Run.logged (h : Run p es now f chores) : ∃ log, Logged p es log now f chores := by
  induction h with
  | start now t => exact ⟨_, .start now t⟩
  | wait _ hle ih => exact ih.imp fun _ h => h.wait hle
  | write _ hw hstep ih => exact ih.imp fun _ h => h.write hw hstep
  | route c key _ hopen hpost ih => exact ih.imp fun _ h => h.route c key hopen hpost
  | send _ hopen hs hpost ih => exact ih.imp fun _ h => h.send hopen hs hpost
  | check _ hopen ih => exact ih.imp fun _ h => h.check hopen
  | dismiss _ hopen ih => exact ih.imp fun _ h => h.dismiss hopen
  | chore _ hstep ih =>
    obtain ⟨log, h⟩ := ih
    exact ⟨_, h.chore hstep⟩

/-! ## Times -/

theorem Amends.time {s : Sheet} (ha : f.Amends c s f') (g : Sheet → Nat)
    (hs : g s = g (f.sheet c) ∨ g s = now) (c' : Category) :
    g (f'.sheet c') = g (f.sheet c') ∨ g (f'.sheet c') = now := by
  by_cases hc : c' = c
  · subst hc
    rwa [ha.sheet_eq]
  · exact .inl (by rw [ha.other_eq c' hc])

namespace Chore.Deed

variable {t : Store}

theorem resized (d : Deed now f t chore log' chores' f') (c : Category) :
    (f'.sheet c).resized = (f.sheet c).resized ∨ (f'.sheet c).resized = now := by
  cases d with
  | aside _ hsheet => exact .inl (by rw [hsheet])
  | inspect _ _ ha | clear _ _ _ _ ha | dismiss _ ha => exact ha.time Sheet.resized (.inl rfl) c
  | enlist ha | release _ ha => exact ha.time Sheet.resized (.inr rfl) c
  | _ => exact .inl rfl

theorem rebalanced (d : Deed now f t chore log' chores' f') (c : Category) :
    (f'.sheet c).rebalanced = (f.sheet c).rebalanced ∨ (f'.sheet c).rebalanced = now := by
  cases d with
  | aside _ hsheet => exact .inl (by rw [hsheet])
  | inspect _ _ ha =>
    refine ha.time Sheet.rebalanced ?_ c
    dsimp only
    split_ifs
    · exact .inr rfl
    · exact .inl rfl
  | clear _ _ _ _ ha | enlist ha | release _ ha | dismiss _ ha =>
    exact ha.time Sheet.rebalanced (.inl rfl) c
  | _ => exact .inl rfl

end Chore.Deed

/-- The fleet keeps no earlier time than this entry does. -/
def Entry.Kept (f : Fleet) : Entry → Prop
  | founded n => ∀ c, n ≤ (f.sheet c).resized
  | resized c n => n ≤ (f.sheet c).resized
  | inspected c n _ (.rebalance _) => n ≤ (f.sheet c).rebalanced
  | _ => True

theorem Entry.Kept.mono {e : Entry} (h : e.Kept f)
    (hresized : ∀ c, (f.sheet c).resized ≤ (f'.sheet c).resized)
    (hrebalanced : ∀ c, (f.sheet c).rebalanced ≤ (f'.sheet c).rebalanced) : e.Kept f' := by
  cases e with
  | founded n => exact fun c => Nat.le_trans (h c) (hresized c)
  | resized c n => exact Nat.le_trans h (hresized c)
  | inspected c n ms v =>
    cases v with
    | rebalance places => exact Nat.le_trans h (hrebalanced c)
    | _ => trivial
  | cleared c w => trivial

theorem Chore.Deed.kept {t : Store} (d : Chore.Deed now f t chore log' chores' f') :
    ∀ e ∈ log', e.Kept f' := by
  intro e he
  cases d with
  | @inspect c ms' f' hfinds hposts ha =>
    rw [List.mem_singleton.1 he]
    generalize (Chore.finding c now f t).verdict = v at hfinds
    cases hfinds with
    | rebalance hdue hhot =>
      show now ≤ _
      simp [ha.sheet_eq, hdue]
    | grow h => trivial
    | calm h hv htallies => rcases hv with rfl | ⟨rfl, -⟩ <;> trivial
  | clear =>
    rw [List.mem_singleton.1 he]
    trivial
  | enlist ha | release _ ha =>
    rw [List.mem_singleton.1 he]
    exact Nat.le_of_eq (by rw [ha.sheet_eq])
  | _ => exact absurd he (by simp)

/-- The fleet keeps the latest times of its record, and none that is to come. -/
structure Dated (log : List Entry) (now : Nat) (f : Fleet) : Prop where
  resized_le : ∀ c, (f.sheet c).resized ≤ now
  rebalanced_le : ∀ c, (f.sheet c).rebalanced ≤ now
  kept : ∀ e ∈ log, e.Kept f

/-- A step sets no time, or sets it to the present. -/
theorem Dated.step (h : Dated log now f) (hkept : ∀ e ∈ log', e.Kept f')
    (hresized : ∀ c, (f'.sheet c).resized = (f.sheet c).resized ∨ (f'.sheet c).resized = now)
    (hrebalanced : ∀ c,
      (f'.sheet c).rebalanced = (f.sheet c).rebalanced ∨ (f'.sheet c).rebalanced = now) :
    Dated (log' ++ log) now f' := by
  have hres := h.resized_le
  have hreb := h.rebalanced_le
  refine ⟨fun c => ?_, fun c => ?_, fun e he => ?_⟩
  · have hle := hres c
    rcases hresized c with he | he <;> omega
  · have hle := hreb c
    rcases hrebalanced c with he | he <;> omega
  · rcases List.mem_append.1 he with he | he
    · exact hkept e he
    · refine (h.kept e he).mono (fun c => ?_) fun c => ?_
      · have hle := hres c
        rcases hresized c with he | he <;> omega
      · have hle := hreb c
        rcases hrebalanced c with he | he <;> omega

/-- Hiring the first writers sets no time. -/
theorem recruit_sheet (c : Category) (now n : Nat) (s : Fleet × Store) (c' : Category) :
    ((recruit c now n s).1.sheet c').resized = (s.1.sheet c').resized ∧
      ((recruit c now n s).1.sheet c').rebalanced = (s.1.sheet c').rebalanced := by
  induction n generalizing s with
  | zero => exact ⟨rfl, rfl⟩
  | succ n ih =>
    unfold recruit
    refine (ih _).imp (fun h => h.trans ?_) fun h => h.trans ?_ <;> cases c <;> cases c' <;> rfl

/-- A new fleet keeps the time at which it was made. -/
theorem start_sheet (p : Policy) (now : Nat) (t : Store) (c : Category) :
    ((Fleet.start p now t).1.sheet c).resized = now ∧
      ((Fleet.start p now t).1.sheet c).rebalanced = now := by
  have hbulk := recruit_sheet .bulk now (max p.maxWriters 1)
  have hgeneral := recruit_sheet .general now (max p.maxWriters 1)
  exact ⟨((hbulk _ c).1.trans (hgeneral _ c).1).trans (by cases c <;> rfl),
    ((hbulk _ c).2.trans (hgeneral _ c).2).trans (by cases c <;> rfl)⟩

theorem Logged.dated (h : Logged p es log now f chores) : Dated log now f := by
  refine Logged.invariant (P := fun log now f _ => Dated log now f) (fun now t => ?_) ?_ ?_ ?_ ?_ h
  · refine ⟨fun c => ?_, fun c => ?_, fun e he => ?_⟩
    · exact Nat.le_of_eq (start_sheet p now t c).1
    · exact Nat.le_of_eq (start_sheet p now t c).2
    · rw [List.mem_singleton.1 he]
      exact fun c => Nat.le_of_eq (start_sheet p now t c).1.symm
  · exact fun h hle => ⟨fun c => Nat.le_trans (h.resized_le c) hle,
      fun c => Nat.le_trans (h.rebalanced_le c) hle, h.kept⟩
  · intro log now f f' chores h hs
    have hkept : ∀ e ∈ ([] : List Entry), e.Kept f' := by simp
    exact h.step hkept (fun c => .inl (hs.resized_eq c)) fun c => .inl (hs.rebalanced_eq c)
  · exact fun h _ => h
  · intro es es' log now f chore chores t turn _ _ hstep h
    have hdeed := Chore.deed_of_step? hstep
    exact h.step hdeed.kept hdeed.resized hdeed.rebalanced

/-! ## Inspections -/

/-- The chore is about the crew of the category. -/
def Chore.concerns (c : Category) : Chore → Bool
  | .inspect c' | .reset c' _ | .drain c' _ _ _ | .resetAll c' | .grow c' | .enlist c'
  | .shrink c' | .release c' | .dismiss c' => c' = c
  | .close _ | .join _ | .removed _ => false

theorem Chore.concerns_of_isAside (h : chore.isAside = true) : chore.concerns c = false := by
  cases chore <;> simp_all [isAside, concerns]

/-- What follows from a chore is about no other crew than the chore is. -/
theorem Chore.Deed.concerns {t : Store} (d : Chore.Deed now f t chore log' chores' f')
    (h : chore.concerns c = false) : ∀ chore' ∈ chores', chore'.concerns c = false := by
  intro chore' hmem
  cases d with
  | @inspect c' ms' f' hfinds hposts ha =>
    generalize (Chore.finding c' now f t).verdict = v at hmem
    cases v <;> simp [Chore.ofVerdict] at hmem
    · obtain ⟨place, -, rfl⟩ := hmem
      exact h
    all_goals rw [hmem]; exact h
  | resetAll c' =>
    obtain ⟨place, -, rfl⟩ := List.mem_map.1 hmem
    exact h
  | grow | shrink =>
    simp only [List.mem_cons, List.not_mem_nil, or_false] at hmem
    rcases hmem with rfl | rfl <;> exact h
  | reset | wait =>
    rw [List.mem_singleton.1 hmem]
    exact h
  | release hchores | dismiss hchores => exact concerns_of_isAside (hchores chore' hmem)
  | _ => exact absurd hmem (by simp)

/-- No chore leads to an inspection. -/
theorem Chore.Deed.not_inspect {t : Store} (d : Chore.Deed now f t chore log' chores' f') :
    .inspect c ∉ chores' := by
  cases d with
  | @inspect c' ms' f' hfinds hposts ha =>
    generalize (Chore.finding c' now f t).verdict = v
    cases v <;> simp [Chore.ofVerdict]
  | release hchores | dismiss hchores =>
    exact fun hmem => absurd (hchores _ hmem) (by simp [Chore.isAside])
  | _ => simp

/-- An inspection that is still to be done is all that is to be done about its crew. -/
theorem Logged.inspect_only (h : Logged p es log now f chores) (hmem : .inspect c ∈ chores) :
    ∀ chore ∈ chores, chore.concerns c = true → chore = .inspect c := by
  refine Logged.invariant (P := fun _ _ _ chores => .inspect c ∈ chores →
    ∀ chore ∈ chores, chore.concerns c = true → chore = .inspect c) ?_ ?_ ?_ ?_ ?_ h hmem
  · simp
  · exact fun h _ => h
  · exact fun h _ => h
  · rintro log now f chores - (rfl | rfl)
    · simp [checkChores, Category.all, Chore.concerns]
    · simp [shutdownChores]
  · intro es es' log now f chore chores t turn hrun _ hstep h hmem
    have hdeed := Chore.deed_of_step? hstep
    have hrest := (List.mem_append.1 hmem).resolve_left hdeed.not_inspect
    have hhead : chore.concerns c = false := by
      by_contra hne
      have he := h (List.mem_cons_of_mem _ hrest) chore List.mem_cons_self (by simpa using hne)
      exact not_mem_of_countP_le_one (hrun.bounded.grows c) (by simp [he, Chore.grows])
        (by simp [Chore.grows]) hrest
    intro chore' hmem' hconcerns
    rcases List.mem_append.1 hmem' with hmem' | hmem'
    · exact absurd hconcerns (by simp [hdeed.concerns hhead chore' hmem'])
    · exact h (List.mem_cons_of_mem _ hrest) chore' (List.mem_cons_of_mem _ hmem') hconcerns

theorem Logged.not_concerns (h : Logged p es log now f (.inspect c :: chores)) :
    ∀ chore ∈ chores, chore.concerns c = false := by
  intro chore hmem
  by_contra hne
  have he := h.inspect_only List.mem_cons_self chore (List.mem_cons_of_mem _ hmem)
    (by simpa using hne)
  exact not_mem_of_countP_le_one (h.run.bounded.grows c) (by simp [Chore.grows])
    (by simp [Chore.grows]) (he ▸ hmem)

/-! ## Courses -/

/-- A chore leaves the crews as they are that it is not about. -/
theorem Chore.Deed.sheet_eq {t : Store} (d : Chore.Deed now f t chore log' chores' f')
    (h : chore.concerns c = false) : f'.sheet c = f.sheet c := by
  have hne : ∀ {c'}, decide (c' = c) = false → c ≠ c' := fun h he => by simp [he] at h
  cases d with
  | aside _ hsheet => exact hsheet c
  | inspect _ _ ha | clear _ _ _ _ ha | enlist ha | release _ ha | dismiss _ ha =>
    exact ha.other_eq c (hne h)
  | _ => rfl

namespace Course

/-- A course leaves the crews as they are that its chores are not about. -/
theorem sheet_eq (h : Course now f chores es log now' f' chores')
    (hfree : ∀ chore ∈ chores, chore.concerns c = false) :
    f'.sheet c = f.sheet c ∧ ∀ chore ∈ chores', chore.concerns c = false := by
  induction h with
  | start => exact ⟨rfl, hfree⟩
  | wait _ _ ih => exact ih
  | write _ _ _ ih => exact ⟨(sheet_replace _ _ c).trans ih.1, ih.2⟩
  | chore _ hstep ih =>
    have hdeed := Chore.deed_of_step? hstep
    have hhead := ih.2 _ List.mem_cons_self
    refine ⟨(hdeed.sheet_eq hhead).trans ih.1, fun chore hmem => ?_⟩
    rcases List.mem_append.1 hmem with hmem | hmem
    · exact hdeed.concerns hhead chore hmem
    · exact ih.2 chore (List.mem_cons_of_mem _ hmem)

/-- What follows from an inspection leaves the other crew as it is. -/
theorem inspect_other {t : Store}
    (h : Course now (Chore.inspectStep c now f t).fleet (Chore.inspectStep c now f t).chores es log
      now' f' chores') : f'.sheet c.other = f.sheet c.other := by
  have hdeed := Chore.deed_inspect c now f t
  have hother : (Chore.inspect c).concerns c.other = false := by
    simp [Chore.concerns, c.other_ne.symm]
  exact (h.sheet_eq (hdeed.concerns hother)).1.trans (hdeed.sheet_eq hother)

/-- No key is routed on a course. -/
theorem unrouted (h : Course now f chores es log now' f' chores') (c : Category) (key : String)
    (id : Nat) : .routed c key id ∉ es := by
  induction h with
  | start => simp
  | wait _ _ ih => exact ih
  | write _ _ _ ih => simpa using ih
  | chore _ hstep ih =>
    exact fun hmem => (List.mem_append.1 hmem).elim ih ((Chore.move_of_step? hstep).not_mem rfl)

end Course

/-! ## Resets -/

section Resets

variable {w : Writer}

/-- A reset waits until the queue is empty, unless the writer has died. -/
theorem Chore.Deed.queue_of_cleared {t : Store} (d : Chore.Deed now f t chore log' chores' f')
    (h : Run p es now f chores) (hmem : .cleared c w ∈ log') :
    w.queue = [] ∨ .died ∈ of w.id es := by
  cases d with
  | @clear c' place m f' steps due hm hqueue ha =>
    obtain ⟨rfl, rfl⟩ : c = c' ∧ w = m.writer := by simpa using hmem
    exact hqueue.imp_right (h.staff.died_of_closed (List.mem_map_of_mem (List.mem_of_getElem? hm)))
  | _ => simp at hmem

theorem Logged.queue_of_cleared (h : Logged p es log now f chores) (hmem : .cleared c w ∈ log) :
    w.queue = [] ∨ .died ∈ of w.id es := by
  have hlater : ∀ {es : List Event} (es' : List Event), (w.queue = [] ∨ .died ∈ of w.id es) →
      w.queue = [] ∨ .died ∈ of w.id (es ++ es') := by
    intro es es' hold
    rw [of_append]
    exact hold.imp_right (List.mem_append_left _)
  induction h with
  | start => simp at hmem
  | wait _ _ ih | check _ _ ih => exact ih hmem
  | write _ _ _ ih | route _ _ _ _ _ ih | send _ _ _ _ ih | dismiss _ _ ih =>
    exact hlater _ (ih hmem)
  | chore hlogged hstep ih =>
    rcases List.mem_append.1 hmem with hmem | hmem
    · exact hlater _ ((Chore.deed_of_step? hstep).queue_of_cleared hlogged.run hmem)
    · exact hlater _ (ih hmem)

end Resets

/-! ## Benches -/

section Bench

variable {b b' : Dispatch.Bench}

theorem Course.bench_step (h : Course now f chores es log b.now b.dispatch.fleet rest)
    (htasks : b.tasks = rest.map .chore) (hs : b.step? = some b') :
    ∃ es' log' rest', Course now f chores es' log' b'.now b'.dispatch.fleet rest' ∧
      b'.tasks = rest'.map .chore := by
  rcases bench_step_cases htasks hs with
    ⟨chore, rest', turn, rfl, hstep, hnow, hfleet, htasks'⟩ |
    ⟨w, turn, hw, hstep, hnow, hfleet, htasks'⟩
  · rw [hnow, hfleet]
    exact ⟨_, _, _, h.chore hstep, htasks'⟩
  · rw [hnow, hfleet]
    exact ⟨_, _, _, h.write hw hstep, htasks'⟩

/-- A bench that does some chores to their end is on a course. -/
theorem Course.bench_perform (b : Dispatch.Bench) (chores : List Chore) (fuel : Nat)
    (hdone : (b.perform fuel (chores.map .chore)).tasks.isEmpty = true) :
    ∃ es log, Course b.now b.dispatch.fleet chores es log
      (b.perform fuel (chores.map .chore)).now
      (b.perform fuel (chores.map .chore)).dispatch.fleet [] := by
  have hfinish : ∃ es log rest, Course b.now b.dispatch.fleet chores es log
      (b.perform fuel (chores.map .chore)).now
      (b.perform fuel (chores.map .chore)).dispatch.fleet rest ∧
      (b.perform fuel (chores.map .chore)).tasks = rest.map .chore := by
    refine Timed.finish_induction
      (P := fun b' : Dispatch.Bench => ∃ es log rest,
        Course b.now b.dispatch.fleet chores es log b'.now b'.dispatch.fleet rest ∧
          b'.tasks = rest.map .chore) ?_ ?_ _ fuel
      ⟨[], [], chores, .start, rfl⟩
    · rintro b' b'' ⟨es, log, rest, h, htasks⟩ hs
      exact h.bench_step htasks hs
    · rintro b' t ⟨es, log, rest, h, htasks⟩
      exact ⟨es, log, rest, h.wait (Nat.le_max_right _ _), htasks⟩
  obtain ⟨es, log, rest, h, htasks⟩ := hfinish
  rw [List.isEmpty_iff] at hdone
  obtain rfl : rest = [] := List.map_eq_nil_iff.1 (htasks.symm.trans hdone)
  exact ⟨es, log, h⟩

end Bench

end BmpFeed.Fleet
