import BmpFeed.Proofs.Intake.Step

/-!
# The tasks of an intake

`Layout` says how the tasks of an intake look while it is at something with its dispatch. Each move
of the intake leads from one layout to another, and what it does with the dispatch is a step of a
run of the dispatch; so a run of an intake contains a run of its dispatch, which has come to its end
when the intake has ended.
-/

namespace BmpFeed.Intake

open Dispatch (Desk)

/-- Tasks that may stand before others while the dispatch is left alone. -/
def Task.isPlain (t : Task) : Bool :=
  t.isAside || t.isOrder ||
    match t with
    | .handle _ | .work .drain => true
    | _ => false

/-- Tasks behind which there are none: what follows them is to be decided. -/
def Task.isLast : Task → Bool
  | .start | .cycle | .poll | .halt _ => true
  | _ => false

/-- Tasks that empty the backlog at the end. -/
def Task.isDraining : Task → Bool
  | .drainOut _ | .drainWait _ | .drainPause _ _ => true
  | _ => false

/-- Tasks of an intake whose fleet has not been dismissed, with nothing under way. -/
inductive Calm : List Task → Prop
  | last {t : Task} (h : t.isLast = true) : Calm [t]
  | lastPause (fault : Option Feed.Fault) : Calm [.lastPause, .drainOut 0, .leave fault]
  | drainOut (n : Nat) (fault : Option Feed.Fault) : Calm [.drainOut n, .leave fault]
  | drainWait (n : Nat) (fault : Option Feed.Fault) : Calm [.drainWait n, .leave fault]
  | drainPause (n due : Nat) (fault : Option Feed.Fault) : Calm [.drainPause n due, .leave fault]
  | cons {t : Task} {ts : List Task} (h : t.isPlain = true) (hts : Calm ts) : Calm (t :: ts)

/-- The tasks of an intake that is at something with its dispatch. -/
inductive Layout : Desk → List Task → Prop
  | calm {ts : List Task} (h : Calm ts) : Layout {} ts
  /-- A check begins when the bus is paused. -/
  | pause {ts : List Task} (h : Calm ts) :
      Layout {} (.pause :: (Fleet.checkChores.map chore ++ ts))
  | chores (c : Fleet.Chore) (cs : List Fleet.Chore) {ts : List Task} (h : Calm ts) :
      Layout { chores := c :: cs } (.work (.chore c) :: (cs.map chore ++ ts))
  | push (r : Request) {ts : List Task} (h : Calm ts) :
      Layout { waiting := some r } (.work (.push r) :: ts)
  | drain (r : Request) {ts : List Task} (h : Calm ts) :
      Layout { waiting := some r } (.work .drain :: .work (.rest r) :: ts)
  | rest (r : Request) {ts : List Task} (h : Calm ts) :
      Layout { waiting := some r } (.work (.rest r) :: ts)
  | retry (r : Request) (due : Nat) {ts : List Task} (h : Calm ts) :
      Layout { waiting := some r } (.work (.retry r due) :: ts)
  | pass (q : Backlog.Pass) {ts : List Task} (h : Calm ts) :
      Layout { pass := some q } (.work (.pass q) :: ts)
  | passRest (q : Backlog.Pass) (r : Request) {ts : List Task} (h : Calm ts) :
      Layout { pass := some q, waiting := some r } (.work (.pass q) :: .work (.rest r) :: ts)
  | dismissing (c : Fleet.Chore) (cs : List Fleet.Chore) (fault : Option Feed.Fault) :
      Layout { chores := c :: cs, closed := true }
        (.work (.chore c) :: (cs.map chore ++ [.leave fault]))
  | leaving (fault : Option Feed.Fault) : Layout { closed := true } [.leave fault]
  | left : Layout { closed := true } []

variable {p : Fleet.Policy} {capacity : Nat} {ds : List Dispatch.Event} {now : Nat}
  {d d' : Dispatch} {desk : Desk} {ms : List Sql.Mapping} {ts ts' rest new : List Task}
  {es : List Event} {o : Option Outcome} {task : Task}

namespace Calm

theorem append (h : Calm ts) (hnew : ∀ t ∈ new, t.isPlain = true) : Calm (new ++ ts) := by
  induction new with
  | nil => exact h
  | cons t new ih =>
    exact .cons (hnew t List.mem_cons_self) (ih fun t ht => hnew t (List.mem_cons_of_mem _ ht))

theorem of_cons (h : Calm (task :: rest)) (ht : task.isPlain = true) : Calm rest := by
  cases h with
  | cons _ h => exact h
  | last h =>
    cases task <;> simp [Task.isLast] at h
    all_goals simp [Task.isPlain, Task.isAside, Task.isOrder] at ht
  | _ => simp [Task.isPlain, Task.isAside, Task.isOrder] at ht

theorem of_last (h : Calm (task :: rest)) (ht : task.isLast = true) : rest = [] := by
  cases h with
  | last _ => rfl
  | cons h _ =>
    cases task <;> simp [Task.isLast] at ht
    all_goals simp [Task.isPlain, Task.isAside, Task.isOrder] at h
  | _ => simp [Task.isLast] at ht

/-- Nothing of the dispatch is under way, though a pass may be about to begin. -/
theorem eq_drain {work : Dispatch.Task} (h : Calm (.work work :: rest)) : work = .drain := by
  cases h with
  | last h => simp [Task.isLast] at h
  | cons h _ => cases work <;> simp [Task.isPlain, Task.isAside, Task.isOrder] at h ⊢

theorem not_leave {fault : Option Feed.Fault} (h : Calm (.leave fault :: rest)) : False := by
  cases h with
  | last h => simp [Task.isLast] at h
  | cons h _ => simp [Task.isPlain, Task.isAside, Task.isOrder] at h

/-- The tasks of the end stand where they do. -/
theorem of_lastPause (h : Calm (.lastPause :: rest)) :
    ∃ fault, rest = [.drainOut 0, .leave fault] := by
  cases h with
  | last h => simp [Task.isLast] at h
  | cons h _ => simp [Task.isPlain, Task.isAside, Task.isOrder] at h
  | lastPause fault => exact ⟨fault, rfl⟩

theorem of_isDraining (h : Calm (task :: rest)) (ht : task.isDraining = true) :
    ∃ fault, rest = [.leave fault] := by
  cases h with
  | drainOut n fault | drainWait n fault => exact ⟨fault, rfl⟩
  | drainPause n due fault => exact ⟨fault, rfl⟩
  | lastPause fault => simp [Task.isDraining] at ht
  | last h =>
    cases task <;> simp [Task.isDraining] at ht
    all_goals simp [Task.isLast] at h
  | cons h _ =>
    cases task <;> simp [Task.isDraining] at ht
    all_goals simp [Task.isPlain, Task.isAside, Task.isOrder] at h

theorem afterPoll (now : Nat) (msgs : List Feed.Message) : Calm (Intake.afterPoll now msgs) := by
  have hcycle : Calm [.depths, .cycle] := .cons rfl (.last rfl)
  cases msgs with
  | nil => exact .cons rfl (.cons rfl (.cons rfl hcycle))
  | cons m msgs =>
    have hrest : Calm [.check, .work .drain, .resume, .depths, .cycle] :=
      .cons rfl (.cons rfl (.cons rfl hcycle))
    refine .cons rfl (hrest.append fun t ht => ?_)
    obtain ⟨m, -, rfl⟩ := List.mem_map.1 ht
    rfl

end Calm

theorem isPlain_of_isAside (h : task.isAside = true) : task.isPlain = true := by
  simp [Task.isPlain, h]

theorem isPlain_of_isOrder (h : task.isOrder = true) : task.isPlain = true := by
  simp [Task.isPlain, h]

namespace Layout

theorem ofChores (cs : List Fleet.Chore) (h : Calm ts) :
    Layout { chores := cs } (cs.map chore ++ ts) := by
  cases cs with
  | nil => exact .calm h
  | cons c cs => exact .chores c cs h

theorem ofLastChores (cs : List Fleet.Chore) (fault : Option Feed.Fault) :
    Layout { chores := cs, closed := true } (cs.map chore ++ [.leave fault]) := by
  cases cs with
  | nil => exact .leaving fault
  | cons c cs => exact .dismissing c cs fault

theorem of_isLast (hl : Layout desk (task :: rest)) (ht : task.isLast = true) :
    rest = [] ∧ desk = {} := by
  cases hl with
  | calm h => exact ⟨h.of_last ht, rfl⟩
  | _ => simp [Task.isLast] at ht

theorem of_isDraining (hl : Layout desk (task :: rest)) (ht : task.isDraining = true) :
    ∃ fault, rest = [.leave fault] ∧ desk = {} := by
  cases hl with
  | calm h =>
    obtain ⟨fault, hrest⟩ := h.of_isDraining ht
    exact ⟨fault, hrest, rfl⟩
  | _ => simp [Task.isDraining] at ht

end Layout

/-- The intake is at something with its dispatch that a run of the dispatch comes to. -/
def Going (p : Fleet.Policy) (capacity : Nat) (ds : List Dispatch.Event) (now : Nat) (d : Dispatch)
    (ts : List Task) : Prop :=
  ∃ desk, Layout desk ts ∧ Dispatch.Run p capacity ds now d desk

/-- The intake has left its dispatch alone. -/
theorem Going.quiet (hl : Layout desk ts) (hd : Dispatch.Run p capacity ds now d desk)
    (hes : dispatchEvents es = []) : Going p capacity (ds ++ dispatchEvents es) now d ts :=
  ⟨desk, hl, by rwa [hes, List.append_nil]⟩

namespace Layout

/-- What a move does at work on the dispatch is a step of a run of the dispatch. -/
theorem work {work : Dispatch.Task} (hl : Layout desk (.work work :: rest))
    (hd : Dispatch.Run p capacity ds now d desk)
    (m : Move now ms d (.work work :: rest) es ts' d' o) :
    Going p capacity (ds ++ dispatchEvents es) now d' ts' := by
  have hsame : ds ++ dispatchEvents [] = ds := List.append_nil ds
  cases m with
  | aside new rest ht hnew => simp [Task.isAside] at ht
  | order rest ht => simp [Task.isOrder] at ht
  | fail rest f ht => simp [Task.isOrder] at ht
  | push rest hpush =>
    cases hl with
    | push r h => exact ⟨{}, .calm h, by rw [hsame]; exact hd.push hpush⟩
    | calm h => exact absurd h.eq_drain (by simp)
  | full r rest =>
    cases hl with
    | push r h => exact .quiet (.drain r h) hd rfl
    | calm h => exact absurd h.eq_drain (by simp)
  | rest r due rest =>
    cases hl with
    | rest r h => exact .quiet (.retry r due h) hd rfl
    | calm h => exact absurd h.eq_drain (by simp)
  | retry r due rest =>
    cases hl with
    | retry r due h => exact .quiet (.push r h) hd rfl
    | calm h => exact absurd h.eq_drain (by simp)
  | drain rest =>
    cases hl with
    | calm h => exact ⟨_, .pass _ (h.of_cons rfl), by rw [hsame]; exact hd.beginPass⟩
    | drain r h => exact ⟨_, .passRest _ r h, by rw [hsame]; exact hd.beginPass⟩
  | endPass rest hleft =>
    cases hl with
    | pass q h => exact ⟨_, .calm h, by rw [hsame]; exact hd.endPass hleft⟩
    | passRest q r h => exact ⟨_, .rest r h, by rw [hsame]; exact hd.endPass hleft⟩
    | calm h => exact absurd h.eq_drain (by simp)
  | passOn rest hleft =>
    rw [dispatchEvents_map]
    cases hl with
    | pass q h => exact ⟨_, .pass _ h, hd.passOn hleft⟩
    | passRest q r h => exact ⟨_, .passRest _ r h, hd.passOn hleft⟩
    | calm h => exact absurd h.eq_drain (by simp)
  | chore rest hstep =>
    rw [dispatchEvents_map]
    cases hl with
    | chores c cs h =>
      rw [← List.append_assoc, ← List.map_append]
      exact ⟨_, .ofChores _ h, hd.chore hstep⟩
    | dismissing c cs fault =>
      rw [← List.append_assoc, ← List.map_append]
      exact ⟨_, .ofLastChores _ fault, hd.chore hstep⟩
    | calm h => exact absurd h.eq_drain (by simp)

/-- The task at the head has to do with neither the dispatch nor the bus. -/
theorem aside (hl : Layout desk (task :: rest)) (hd : Dispatch.Run p capacity ds now d desk)
    (ht : task.isAside = true) (hnew : ∀ t ∈ new, t.isAside = true) :
    Going p capacity (ds ++ dispatchEvents []) now d (new ++ rest) := by
  cases hl with
  | calm h =>
    have hrest := h.of_cons (isPlain_of_isAside ht)
    exact .quiet (.calm (hrest.append fun t ht => isPlain_of_isAside (hnew t ht))) hd rfl
  | _ => simp [Task.isAside] at ht

/-- A call on the bus that brings nothing may come before a check. -/
theorem order (hl : Layout desk (task :: rest)) (hd : Dispatch.Run p capacity ds now d desk)
    (ht : task.isOrder = true) : Going p capacity (ds ++ dispatchEvents []) now d rest := by
  cases hl with
  | calm h => exact .quiet (.calm (h.of_cons (isPlain_of_isOrder ht))) hd rfl
  | pause h => exact ⟨_, .ofChores _ h, by simpa [dispatchEvents] using hd.check⟩
  | _ => simp [Task.isOrder] at ht

/-- A call on the bus that fails is followed by the end of the cycles. -/
theorem fail (hl : Layout desk (task :: rest)) (hd : Dispatch.Run p capacity ds now d desk)
    (ht : task.isOrder = true ∨ task = .poll) (f : Feed.Fault) :
    Going p capacity (ds ++ dispatchEvents []) now d [.halt (some f)] := by
  cases hl with
  | calm h | pause h => exact .quiet (.calm (.last rfl)) hd rfl
  | _ => simp [Task.isOrder] at ht

/-- A move of the intake is a step of a run of its dispatch. -/
theorem move (hl : Layout desk ts) (hd : Dispatch.Run p capacity ds now d desk)
    (m : Move now ms d ts es ts' d' o) (hcrash : o ≠ some .crashed) :
    Going p capacity (ds ++ dispatchEvents es) now d' ts' := by
  by_cases hwork : ∃ work rest, ts = .work work :: rest
  · obtain ⟨work, rest, rfl⟩ := hwork
    exact hl.work hd m
  cases m with
  | push | full | rest | retry | drain | endPass | passOn | chore => exact absurd ⟨_, _, rfl⟩ hwork
  | aside new rest ht hnew => exact hl.aside hd ht hnew
  | order rest ht => exact hl.order hd ht
  | fail rest f ht => exact hl.fail hd ht f
  | start rest =>
    obtain ⟨rfl, rfl⟩ := hl.of_isLast rfl
    exact .quiet (.calm (.cons rfl (.last rfl))) hd rfl
  | cycle rest =>
    obtain ⟨rfl, rfl⟩ := hl.of_isLast rfl
    exact .quiet (.calm (.cons rfl (.last rfl))) hd rfl
  | stop rest =>
    obtain ⟨rfl, rfl⟩ := hl.of_isLast rfl
    exact .quiet (.calm (.last rfl)) hd rfl
  | poll msgs rest =>
    obtain ⟨rfl, rfl⟩ := hl.of_isLast rfl
    rw [List.append_nil]
    exact .quiet (.calm (.afterPoll now msgs)) hd rfl
  | idleCheck rest =>
    cases hl with
    | calm h =>
      have hrest : Calm (.checked :: .resume :: rest) := .cons rfl (.cons rfl (h.of_cons rfl))
      exact .quiet (.pause hrest) hd rfl
  | check rest =>
    cases hl with
    | calm h =>
      have hrest : Calm (.checked :: rest) := .cons rfl (h.of_cons rfl)
      exact ⟨_, .ofChores _ hrest, by simpa [dispatchEvents] using hd.check⟩
  | receive m new rest hreq hnew =>
    cases hl with
    | calm h =>
      have hrest := (h.of_cons rfl).append fun t ht => isPlain_of_isAside (hnew t ht)
      exact .quiet (.calm hrest) hd rfl
  | request m rest hreq =>
    cases hl with
    | calm h => exact ⟨_, .push _ (h.of_cons rfl), hd.hand _⟩
  | halt fault rest =>
    obtain ⟨rfl, rfl⟩ := hl.of_isLast rfl
    exact .quiet (.calm (.lastPause fault)) hd rfl
  | lastPause rest =>
    cases hl with
    | calm h =>
      obtain ⟨fault, rfl⟩ := h.of_lastPause
      exact .quiet (.calm (.drainOut 0 fault)) hd rfl
  | dismiss n rest hempty =>
    obtain ⟨fault, rfl, rfl⟩ := hl.of_isDraining rfl
    exact ⟨_, .ofLastChores _ fault, hd.dismiss hempty⟩
  | drainOut n rest =>
    obtain ⟨fault, rfl, rfl⟩ := hl.of_isDraining rfl
    exact .quiet (.calm (.cons rfl (.drainWait _ fault))) hd rfl
  | drainWait n due rest =>
    obtain ⟨fault, rfl, rfl⟩ := hl.of_isDraining rfl
    exact .quiet (.calm (.drainPause n due fault)) hd rfl
  | drainPause n due rest =>
    obtain ⟨fault, rfl, rfl⟩ := hl.of_isDraining rfl
    exact .quiet (.calm (.drainOut n fault)) hd rfl
  | leave fault rest =>
    cases hl with
    | calm h => exact h.not_leave.elim
    | leaving fault => exact .quiet .left hd rfl
  | crash q rest => exact absurd rfl hcrash

end Layout

end BmpFeed.Intake
