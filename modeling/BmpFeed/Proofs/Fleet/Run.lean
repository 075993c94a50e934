import BmpFeed.Proofs.Fleet.Chores

/-!
# Runs of a fleet

`Run` holds of everything that can happen to a fleet: its writers make steps, with the store in any
state at each of them; keys are routed and requests sent while the fleet has no chores; it is
checked and at last dismissed; and time passes. Nothing is routed or sent once the fleet is
dismissed.
-/

namespace BmpFeed.Fleet

/-- The events of one writer. -/
def of (id : Nat) (es : List Event) : List Writer.Event :=
  es.filterMap fun
    | .writer i e => if i = id then some e else none
    | .delivered _ i r => if i = id then some (.accepted r) else none
    | _ => none

/-- The requests that were delivered, with the numbers of their writers. -/
def deliveries (es : List Event) : List (Nat × Request) :=
  es.filterMap fun | .delivered _ id r => some (id, r) | _ => none

/-- The runs of a fleet, with their events, the time, and the chores to be done. -/
inductive Run (p : Policy) : List Event → Nat → Fleet → List Chore → Prop
  | start (now : Nat) (t : Store) : Run p [] now (Fleet.start p now t).1 []
  | wait {es : List Event} {now now' : Nat} {f : Fleet} {chores : List Chore} :
      Run p es now f chores → now ≤ now' → Run p es now' f chores
  | write {es : List Event} {now : Nat} {f : Fleet} {chores : List Chore} {t : Store} {w : Writer}
      {turn : Writer.Turn} :
      Run p es now f chores → w ∈ f.writers → w.step? now t = some turn →
        Run p (es ++ (w.events t).map (.writer w.id)) now (f.replace turn.writer) chores
  | route {es : List Event} {now : Nat} {f : Fleet} (c : Category) (key : String) {post : Post} :
      Run p es now f [] → .dismissed ∉ es →
        (f.posts c)[(f.route c key).1.place]? = some post →
        Run p (es ++ [.routed c key post.writer.id]) now (f.route c key).2 []
  | send {es : List Event} {now : Nat} {f f' : Fleet} {s : Slot} {r : Request} {note : Note}
      {post : Post} :
      Run p es now f [] → .dismissed ∉ es → f.send? s r = some (f', note) →
        (f.posts s.category)[s.place]? = some post →
        Run p (es ++ [.delivered s.category post.writer.id r]) now f' []
  | check {es : List Event} {now : Nat} {f : Fleet} :
      Run p es now f [] → .dismissed ∉ es → Run p es now f checkChores
  | dismiss {es : List Event} {now : Nat} {f : Fleet} :
      Run p es now f [] → .dismissed ∉ es → Run p (es ++ [.dismissed]) now f shutdownChores
  | chore {es : List Event} {now : Nat} {f : Fleet} {chore : Chore} {chores : List Chore}
      {t : Store} {turn : Chore.Turn} :
      Run p es now f (chore :: chores) → chore.step? now f t = some turn →
        Run p (es ++ chore.events now f t) now turn.fleet (turn.chores ++ chores)

variable {id : Nat} {es es' : List Event}

@[simp] theorem of_append (id : Nat) (es es' : List Event) :
    of id (es ++ es') = of id es ++ of id es' :=
  List.filterMap_append

@[simp] theorem deliveries_append (es es' : List Event) :
    deliveries (es ++ es') = deliveries es ++ deliveries es' :=
  List.filterMap_append

@[simp] theorem deliveries_writer (id : Nat) (evs : List Writer.Event) :
    deliveries (evs.map (.writer id)) = [] := by
  simp [deliveries]

/-- Deliveries are among the events of the writers. -/
theorem deliveries_eq_nil (hof : ∀ id, of id es = []) : deliveries es = [] := by
  apply List.filterMap_eq_nil_iff.2
  intro e he
  cases e with
  | delivered c id r =>
    have hmem : .accepted r ∈ of id es := List.mem_filterMap.2 ⟨_, he, by simp⟩
    rw [hof] at hmem
    exact absurd hmem (by simp)
  | _ => rfl

theorem of_writer (id : Nat) (evs : List Writer.Event) : of id (evs.map (.writer id)) = evs := by
  unfold of
  rw [List.filterMap_map]
  simp

theorem of_writer_of_ne {i : Nat} (h : i ≠ id) (evs : List Writer.Event) :
    of id (evs.map (.writer i)) = [] := by
  unfold of
  rw [List.filterMap_map]
  simp [h]

theorem of_delivered (c : Category) (id : Nat) (r : Request) :
    of id [.delivered c id r] = [.accepted r] := by
  simp [of]

theorem of_delivered_of_ne {i : Nat} (h : i ≠ id) (c : Category) (r : Request) :
    of id [.delivered c i r] = [] := by
  simp [of, h]

/-- Events that are about no writer's own doing. -/
def Event.isOffice : Event → Bool
  | .writer _ _ | .delivered _ _ _ | .retired _ => false
  | _ => true

theorem of_office (h : ∀ e ∈ es, e.isOffice = true) (id : Nat) : of id es = [] := by
  apply List.filterMap_eq_nil_iff.2
  intro e he
  have hoffice := h e he
  cases e <;> simp_all [Event.isOffice]

/-- A chore shows nothing of the writers' own doings but the retirement of one. -/
theorem Chore.Move.office {now : Nat} {f f' : Fleet} {chore : Chore} {chores : List Chore}
    (m : Chore.Move now f chore es chores f') :
    (∀ e ∈ es, e.isOffice = true) ∨ ∃ w, chore = .join w.id ∧ es = [.retired w] := by
  cases m with
  | join hw hclosed => exact .inr ⟨_, rfl, rfl⟩
  | release => exact .inl (by simp [Event.isOffice])
  | inspect v hm h =>
    left
    intro e he
    rcases List.mem_append.1 he with he | he
    · obtain ⟨post, -, rfl⟩ := List.mem_map.1 he
      rfl
    · cases v <;> simp [Chore.verdictEvents] at he
      all_goals subst he; rfl
  | _ => exact .inl (by simp)

/-- Events that a chore can show. -/
def Event.isChore : Event → Bool
  | .replaced _ _ | .grew _ | .rebalanced _ _ | .removed _ _ | .retired _ => true
  | _ => false

theorem Chore.Move.isChore {now : Nat} {f f' : Fleet} {chore : Chore} {chores : List Chore}
    (m : Chore.Move now f chore es chores f') : ∀ e ∈ es, e.isChore = true := by
  cases m with
  | inspect v hm ha =>
    intro e he
    rcases List.mem_append.1 he with he | he
    · obtain ⟨post, -, rfl⟩ := List.mem_map.1 he
      rfl
    · cases v <;> simp [Chore.verdictEvents] at he
      all_goals subst he; rfl
  | release | join => simp [Event.isChore]
  | _ => simp

theorem Chore.Move.not_mem {now : Nat} {f f' : Fleet} {chore : Chore} {chores : List Chore}
    (m : Chore.Move now f chore es chores f') {e : Event} (he : e.isChore = false) : e ∉ es :=
  fun hmem => absurd (m.isChore e hmem) (by simp [he])

theorem Chore.Move.of_eq {now : Nat} {f f' : Fleet} {chore : Chore} {chores : List Chore}
    (m : Chore.Move now f chore es chores f') (id : Nat) : of id es = [] := by
  apply List.filterMap_eq_nil_iff.2
  intro e he
  have hchore := m.isChore e he
  cases e <;> simp_all [Event.isChore]

end BmpFeed.Fleet
