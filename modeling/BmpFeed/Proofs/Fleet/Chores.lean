import BmpFeed.Proofs.Fleet.Route
import BmpFeed.Proofs.Writer.Run

/-!
# The steps of chores

`Chore.Move` lists what one step of a chore does to the posts of a fleet, with the events that show
it and the chores that follow from it; `Chore.move_of_step?` says that there is nothing else.
-/

namespace BmpFeed.Fleet

/-- What a run of a fleet shows. -/
inductive Event
  /-- A writer made a step. -/
  | writer (id : Nat) (e : Writer.Event)
  /-- The queue of a writer of the category took a request. -/
  | delivered (c : Category) (id : Nat) (r : Request)
  /-- A key was routed to a writer of the category. -/
  | routed (c : Category) (key : String) (id : Nat)
  /-- A writer that had left its queue for good was replaced. -/
  | replaced (c : Category) (id : Nat)
  /-- A check found that the category is to grow. -/
  | grew (c : Category)
  /-- A check found that these writers are to be reset. -/
  | rebalanced (c : Category) (ids : List Nat)
  /-- The category was shrunk by this writer. -/
  | removed (c : Category) (id : Nat)
  /-- A writer outside the crews was struck, as it was then. -/
  | retired (w : Writer)
  /-- The fleet is to end. -/
  | dismissed

namespace Chore

variable {now : Nat} {f f' : Fleet} {t : Store} {c : Category}

/-! ## Inspections -/

/-- The members of a crew after the crashed writers were replaced, and the fleet then. -/
def manned (c : Category) (now : Nat) (f : Fleet) (t : Store) : List Member × Fleet :=
  ((replaceDead c now (f.crew c).members (f, t)).1,
    (replaceDead c now (f.crew c).members (f, t)).2.1.1)

/-- What an inspection finds. -/
def finding (c : Category) (now : Nat) (f : Fleet) (t : Store) : Finding :=
  let (ms, f) := manned c now f t
  f.policy.assess c (decide ((f.crew c).rebalanced + f.policy.rebalancePause ≤ now))
    (decide ((f.crew c).resized + f.policy.resizePause ≤ now)) ms

/-- What a verdict on some posts shows. -/
def verdictEvents (c : Category) (posts : List Post) : Verdict → List Event
  | .rebalance places =>
    [.rebalanced c (places.filterMap fun i => posts[i]?.map fun post => post.writer.id)]
  | .grow => [.grew c]
  | _ => []

/-- What replacing the closed writers among some posts shows. -/
def replacedEvents (c : Category) (posts : List Post) : List Event :=
  (posts.filter fun post => post.writer.isClosed).map fun post => .replaced c post.writer.id

/-- What the next step of a chore shows. -/
def events (now : Nat) (f : Fleet) (t : Store) : Chore → List Event
  | inspect c =>
    replacedEvents c (f.posts c) ++
      verdictEvents c ((manned c now f t).1.map Member.post) (finding c now f t).verdict
  | release c => ((f.posts c).getLast?.map fun post => .removed c post.writer.id).toList
  | join id =>
    ((f.leaving.find? fun w => w.id = id).filter Writer.isClosed).toList.map .retired
  | _ => []

/-- Replacing the writers that are closed among some posts, while the next writer has a number. -/
inductive Manned (p : Policy) (now : Nat) : Nat → List Post → Nat → List Post → Prop
  | nil {n : Nat} : Manned p now n [] n []
  | keep {n n' : Nat} {post : Post} {posts posts' : List Post}
      (h : post.writer.isClosed = false) (hrest : Manned p now n posts n' posts') :
      Manned p now n (post :: posts) n' (post :: posts')
  | fill {n n' : Nat} {post : Post} {posts posts' : List Post} (t : Store)
      (h : post.writer.isClosed = true) (hrest : Manned p now (n + 1) posts n' posts') :
      Manned p now n (post :: posts) n'
        (⟨(Writer.hire n p.writer p.queueSize now t).1, []⟩ :: posts')

theorem manned_replaceDead (c : Category) (now : Nat) (ms : List Member) (f : Fleet) (t : Store) :
    let s := replaceDead c now ms (f, t)
    Manned f.policy now f.nextId (ms.map Member.post) s.2.1.1.nextId (s.1.map Member.post) ∧
      s.2.1.1 = { f with nextId := s.2.1.1.nextId } := by
  induction ms generalizing f t with
  | nil => exact ⟨.nil, rfl⟩
  | cons m ms ih =>
    unfold replaceDead
    cases hm : m.writer.isClosed with
    | true =>
      obtain ⟨hrest, hsame⟩ := ih (f.hire now t).2.1 (f.hire now t).2.2
      exact ⟨.fill t hm hrest, hsame⟩
    | false =>
      obtain ⟨hrest, hsame⟩ := ih f t
      exact ⟨.keep hm hrest, hsame⟩

end Chore

/-! ## Assessments -/

namespace Policy

variable (p : Policy) (c : Category)

theorem post_weigh (size place : Nat) (m : Member) :
    (p.weigh c size place m).2.1.post = m.post := by
  unfold weigh
  dsimp only
  split_ifs <;> rfl

theorem posts_weighAll (size place : Nat) (ms : List Member) :
    (p.weighAll c size place ms).2.1.map Member.post = ms.map Member.post := by
  induction ms generalizing place with
  | nil => rfl
  | cons m ms ih =>
    unfold weighAll
    have hpost := p.post_weigh c size place m
    generalize p.weigh c size place m = s at hpost
    obtain ⟨grows, m', notes⟩ := s
    dsimp only at hpost ⊢
    split_ifs
    · simp [hpost]
    · simp [hpost, ih]

theorem posts_rebalanced (ms : List Member) :
    (p.rebalanced ms).map Member.post = ms.map Member.post := by
  unfold rebalanced
  rw [List.map_map]
  apply List.map_congr_left
  intro m _
  simp only [Function.comp_apply]
  split_ifs <;> rfl

/-- A check changes no keys. -/
theorem posts_assess (rebalanceDue shrinkDue : Bool) (ms : List Member) :
    (p.assess c rebalanceDue shrinkDue ms).members.map Member.post = ms.map Member.post := by
  have hcounted : (if rebalanceDue then p.rebalanced ms else ms).map Member.post =
      ms.map Member.post := by
    split_ifs
    · exact p.posts_rebalanced ms
    · rfl
  unfold assess
  generalize (if rebalanceDue then p.rebalanced ms else ms) = counted at hcounted
  generalize (if rebalanceDue then p.hotPlaces ms else []) = hot
  by_cases hhot : hot ≠ []
  · simpa [hhot] using hcounted
  · simpa [hhot] using (p.posts_weighAll c _ 0 counted).trans hcounted

end Policy

/-! ## Moves -/

namespace Chore

/-- The chore can find that there is nothing to do. -/
def mayIdle : Chore → Bool
  | reset _ _ | drain _ _ _ _ | grow _ | shrink _ | join _ | removed _ => true
  | _ => false

/-- What a step of a chore can do: its events, the chores that follow, and the fleet after it. -/
inductive Move (now : Nat) (f : Fleet) : Chore → List Event → List Chore → Fleet → Prop
  /-- There is nothing to do. -/
  | idle {chore : Chore} (hidle : chore.mayIdle = true)
      (hjoin : ∀ id, chore = .join id → ∀ w ∈ f.leaving, w.id ≠ id) : Move now f chore [] [] f
  | inspect {c : Category} {posts : List Post} {n : Nat} {f' : Fleet} (v : Verdict)
      (hmanned : Manned f.policy now f.nextId (f.posts c) n posts)
      (h : Alters f c posts f.leaving n f') :
      Move now f (.inspect c) (replacedEvents c (f.posts c) ++ verdictEvents c posts v)
        (ofVerdict c v).1 f'
  | reset (c : Category) (place : Nat) : Move now f (.reset c place) [] [.drain c place 0 now] f
  /-- Waits for the queue to become empty. -/
  | wait (c : Category) (place steps due steps' : Nat) :
      Move now f (.drain c place steps due) [] [.drain c place steps' (now + 1)] f
  /-- Finds the queue empty, or nobody who reads it. -/
  | clear {c : Category} {place : Nat} {post : Post} {f' : Fleet} (steps due : Nat)
      (hpost : (f.posts c)[place]? = some post)
      (hqueue : post.writer.queue = [] ∨ post.writer.isClosed = true)
      (h : Alters f c ((f.posts c).modify place Post.cleared) f.leaving f.nextId f') :
      Move now f (.drain c place steps due) [] [] f'
  | resetAll (c : Category) :
      Move now f (.resetAll c) [] ((List.range (f.posts c).length).map (.reset c)) f
  | grow {c : Category} (h : (f.posts c).length < f.policy.maxWriters) :
      Move now f (.grow c) [] [.resetAll c, .enlist c] f
  | enlist {c : Category} {f' : Fleet} (h : f.Enlists c now f') : Move now f (.enlist c) [] [] f'
  | shrink {c : Category} (h : 1 < (f.posts c).length) :
      Move now f (.shrink c) [] [.reset c ((f.posts c).length - 1), .release c] f
  /-- Finds no writer to take out of the crew. -/
  | vacant {c : Category} {f' : Fleet} (hposts : f.posts c = [])
      (h : Alters f c [] f.leaving f.nextId f') : Move now f (.release c) [] [.removed c] f'
  | release {c : Category} {posts : List Post} {post : Post} {f' : Fleet}
      (hposts : f.posts c = posts ++ [post])
      (h : Alters f c posts (f.leaving ++ [post.writer]) f.nextId f') :
      Move now f (.release c) [.removed c post.writer.id]
        [.close post.writer.id, .join post.writer.id, .removed c] f'
  | close (id : Nat) : Move now f (.close id) [] [] (f.closeQueue id)
  | join {w : Writer} (hw : w ∈ f.leaving) (hclosed : w.isClosed = true) :
      Move now f (.join w.id) [.retired w] []
        { f with leaving := f.leaving.filter fun v => v.id ≠ w.id }
  | dismiss {c : Category} {f' : Fleet}
      (h : Alters f c [] (f.leaving ++ (f.posts c).map Post.writer) f.nextId f') :
      Move now f (.dismiss c) []
        (((f.posts c).map Post.writer).flatMap fun w => [.close w.id, .join w.id]) f'

variable {now : Nat} {f f' : Fleet} {t : Store} {c : Category} {turn : Turn}

theorem move_inspect (c : Category) (now : Nat) (f : Fleet) (t : Store) :
    Move now f (.inspect c) ((inspect c).events now f t) (inspectStep c now f t).chores
      (inspectStep c now f t).fleet := by
  obtain ⟨hmanned, hsame⟩ := manned_replaceDead c now (f.crew c).members f t
  have halters :
      Alters f c (f.posts c) f.leaving (manned c now f t).2.nextId (manned c now f t).2 := by
    unfold manned
    dsimp only at hsame ⊢
    rw [hsame]
    exact ⟨rfl, by cases c <;> rfl, by cases c <;> rfl, rfl, rfl⟩
  exact .inspect (finding c now f t).verdict hmanned (halters.setCrew (Policy.posts_assess ..))

theorem move_drain (c : Category) (place steps due now : Nat) (f : Fleet) (t : Store) :
    Move now f (.drain c place steps due) [] (drainStep c place steps now f t).chores
      (drainStep c place steps now f t).fleet := by
  unfold drainStep
  cases hm : f.member? ⟨c, place⟩ with
  | none => exact .idle rfl (by simp)
  | some m =>
    dsimp only
    split_ifs with hempty hpulse
    · have hpost : (f.posts c)[place]? = some m.post := by
        unfold member? at hm
        simp [posts, hm]
      refine .clear steps due hpost ?_ ((Alters.refl f c).setCrew ?_)
      · exact hempty.imp (List.eq_nil_of_length_eq_zero ·) id
      · exact map_modify (g := Member.post) (h := Member.reset) (fun _ => rfl) _ _
    · exact .wait ..
    · exact .wait ..

theorem move_release (c : Category) (now : Nat) (f : Fleet) (t : Store) :
    Move now f (.release c) ((release c).events now f t) (releaseStep c now f t).chores
      (releaseStep c now f t).fleet := by
  have hevents : (release c).events now f t =
      ((f.posts c).getLast?.map fun post => Event.removed c post.writer.id).toList := rfl
  rw [hevents]
  unfold releaseStep
  rcases List.eq_nil_or_concat (f.crew c).members with hnil | ⟨ms, m, hms⟩
  · have hposts : f.posts c = [] := by rw [posts, hnil, List.map_nil]
    rw [hposts]
    simp only [hnil, List.getLast?_nil]
    exact .vacant hposts ((Alters.refl f c).setCrew rfl)
  · rw [List.concat_eq_append] at hms
    have hposts : f.posts c = ms.map Member.post ++ [m.post] := by simp [posts, hms]
    rw [hposts]
    simp only [hms, List.getLast?_concat, List.dropLast_concat]
    have halters : Alters f c (ms.map Member.post) f.leaving f.nextId
        (f.setCrew c { f.crew c with members := ms, resized := now }) :=
      (Alters.refl f c).setCrew rfl
    exact .release hposts (halters.addLeaving [m.writer])

theorem move_join {id : Nat} (h : joinStep? id f t = some turn) :
    Move now f (.join id) ((join id).events now f t) turn.chores turn.fleet := by
  have hevents : (join id).events now f t =
      ((f.leaving.find? fun w => w.id = id).filter Writer.isClosed).toList.map .retired := rfl
  rw [hevents]
  unfold joinStep? at h
  cases hfind : f.leaving.find? fun w => w.id = id with
  | none =>
    rw [hfind] at h
    obtain rfl := Option.some.inj h
    have hnone := List.find?_eq_none.1 hfind
    exact .idle rfl (by rintro _ ⟨⟩ w hw; simpa using hnone w hw)
  | some w =>
    simp only [hfind, Option.ite_none_right_eq_some, Option.some.injEq] at h
    obtain ⟨hclosed, rfl⟩ := h
    obtain rfl : w.id = id := by simpa using List.find?_some hfind
    have hmove : Move now f (.join w.id) [.retired w] []
        { f with leaving := f.leaving.filter fun v => v.id ≠ w.id } :=
      .join (List.mem_of_find?_eq_some hfind) hclosed
    simpa [Option.filter, hclosed] using hmove

/-- Every step of a chore is a move. -/
theorem move_of_step? {chore : Chore} (h : chore.step? now f t = some turn) :
    Move now f chore (chore.events now f t) turn.chores turn.fleet := by
  cases chore <;> simp only [step?] at h
  case inspect c =>
    obtain rfl := Option.some.inj h
    exact move_inspect c now f t
  case reset c place =>
    split at h <;> obtain rfl := Option.some.inj h
    · exact .idle rfl (by simp)
    · exact .reset c place
  case drain c place steps due =>
    split_ifs at h
    obtain rfl := Option.some.inj h
    exact move_drain c place steps due now f t
  case resetAll c =>
    obtain rfl := Option.some.inj h
    rw [← length_posts]
    exact .resetAll c
  case grow c =>
    split_ifs at h with hfull <;> obtain rfl := Option.some.inj h
    · exact .idle rfl (by simp)
    · exact .grow (by rw [length_posts]; omega)
  case enlist c =>
    obtain rfl := Option.some.inj h
    refine .enlist (f.enlists_setCrew c now t ?_)
    cases c <;> rfl
  case shrink c =>
    split_ifs at h with hsmall <;> obtain rfl := Option.some.inj h
    · exact .idle rfl (by simp)
    · rw [← length_posts] at hsmall ⊢
      exact .shrink (by omega)
  case release c =>
    obtain rfl := Option.some.inj h
    exact move_release c now f t
  case close id =>
    obtain rfl := Option.some.inj h
    exact .close id
  case join id => exact move_join h
  case removed c =>
    obtain rfl := Option.some.inj h
    exact .idle rfl (by simp)
  case dismiss c =>
    obtain rfl := Option.some.inj h
    have hwriters : (f.crew c).members.map Member.writer = (f.posts c).map Post.writer := by
      simp [posts, Function.comp_def, Member.post]
    have halters : Alters f c [] f.leaving f.nextId (f.setMembers c []) :=
      (Alters.refl f c).setCrew rfl
    dsimp only
    rw [hwriters]
    exact .dismiss (halters.setLeaving _)

end Chore

end BmpFeed.Fleet
