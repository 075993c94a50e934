import BmpFeed.Fleet.Upkeep
import Mathlib.Data.List.Basic
import Mathlib.Data.List.Perm.Basic
import Mathlib.Tactic.Common

/-!
# Posts

A post is what the theory of fleets needs to know of a member of a crew: the writer, and the keys
that belong to it. `Alters` says of two fleets that they differ in the posts of one category, in the
writers outside the crews, and in the number of the next writer; every operation on a fleet that
does not change all writers at once is described by it.
-/

namespace BmpFeed

/-- The category with the other writers. -/
def Category.other : Category → Category
  | .general => .bulk
  | .bulk => .general

theorem Category.other_ne (c : Category) : c.other ≠ c := by cases c <;> simp [other]

theorem Category.eq_or_eq_other (c c' : Category) : c' = c ∨ c' = c.other := by
  cases c <;> cases c' <;> simp [other]

namespace Fleet

/-- A writer with the keys that belong to it. -/
structure Post where
  writer : Writer
  keys : List String

namespace Post

def owns (post : Post) (key : String) : Bool := post.keys.contains key

def assign (post : Post) (key : String) : Post := { post with keys := post.keys ++ [key] }

def cleared (post : Post) : Post := { post with keys := [] }

def mapWriter (g : Writer → Writer) (post : Post) : Post := { post with writer := g post.writer }

@[simp] theorem owns_iff {post : Post} {key : String} : post.owns key = true ↔ key ∈ post.keys := by
  simp [owns]

@[simp] theorem writer_cleared (post : Post) : post.cleared.writer = post.writer := rfl

@[simp] theorem writer_mapWriter (g : Writer → Writer) (post : Post) :
    (post.mapWriter g).writer = g post.writer := rfl

end Post

def Member.post (m : Member) : Post := ⟨m.writer, m.keys⟩

/-- The posts of a category, in the order of its crew. -/
def posts (f : Fleet) (c : Category) : List Post := (f.crew c).members.map Member.post

variable {f f' : Fleet} {c : Category}

@[simp] theorem crew_setCrew (f : Fleet) (c : Category) (crew : Crew) :
    (f.setCrew c crew).crew c = crew := by
  cases c <;> rfl

theorem crew_setCrew_of_ne (f : Fleet) {c c' : Category} (crew : Crew) (h : c' ≠ c) :
    (f.setCrew c crew).crew c' = f.crew c' := by
  cases c <;> cases c' <;> first | rfl | exact absurd rfl h

theorem length_posts (f : Fleet) (c : Category) : (f.posts c).length = (f.crew c).size := by
  simp [posts, Crew.size]

theorem writers_perm (f : Fleet) (c : Category) :
    f.writers.Perm
      ((f.posts c).map Post.writer ++ ((f.posts c.other).map Post.writer ++ f.leaving)) := by
  unfold writers posts
  simp only [List.map_map]
  cases c with
  | general => simp [Category.all, crew, Category.other, Function.comp_def, Member.post]
  | bulk =>
    simp only [Category.all, crew, Category.other, List.flatMap_cons, List.flatMap_nil,
      List.append_nil, ← List.append_assoc]
    exact List.perm_append_comm.append_right f.leaving

theorem mem_writers_of_post {post : Post} (h : post ∈ f.posts c) : post.writer ∈ f.writers :=
  (f.writers_perm c).mem_iff.2 (List.mem_append_left _ (List.mem_map_of_mem h))

theorem mem_writers_of_leaving {w : Writer} (h : w ∈ f.leaving) : w ∈ f.writers :=
  List.mem_append_right _ h

theorem posts_mapWriters (g : Writer → Writer) (f : Fleet) (c : Category) :
    (f.mapWriters g).posts c = (f.posts c).map (Post.mapWriter g) := by
  cases c <;> simp [posts, mapWriters, crew, Function.comp_def, Member.post, Post.mapWriter]

theorem writers_mapWriters (g : Writer → Writer) (f : Fleet) :
    (f.mapWriters g).writers = f.writers.map g := by
  simp [writers, mapWriters, crew, Category.all, Function.comp_def]

/-! ## Fleets that differ in one category -/

/-- `f'` is `f` with these posts of a category, these writers outside the crews, and this number for
the next writer. -/
structure Alters (f : Fleet) (c : Category) (posts : List Post) (leaving : List Writer)
    (nextId : Nat) (f' : Fleet) : Prop where
  policy_eq : f'.policy = f.policy
  posts_eq : f'.posts c = posts
  other_eq : f'.posts c.other = f.posts c.other
  leaving_eq : f'.leaving = leaving
  nextId_eq : f'.nextId = nextId

theorem Alters.refl (f : Fleet) (c : Category) :
    Alters f c (f.posts c) f.leaving f.nextId f := ⟨rfl, rfl, rfl, rfl, rfl⟩

section Alters

variable {posts : List Post} {leaving : List Writer} {nextId : Nat}

theorem Alters.setCrew (h : Alters f c posts leaving nextId f') {crew : Crew}
    {posts' : List Post} (hcrew : crew.members.map Member.post = posts') :
    Alters f c posts' leaving nextId (f'.setCrew c crew) where
  policy_eq := by rw [← h.policy_eq]; cases c <;> rfl
  posts_eq := by unfold Fleet.posts; rw [crew_setCrew, hcrew]
  other_eq := by
    rw [← h.other_eq]
    unfold Fleet.posts
    rw [crew_setCrew_of_ne f' crew c.other_ne]
  leaving_eq := by rw [← h.leaving_eq]; cases c <;> rfl
  nextId_eq := by rw [← h.nextId_eq]; cases c <;> rfl

theorem Alters.setLeaving (h : Alters f c posts leaving nextId f') (leaving' : List Writer) :
    Alters f c posts leaving' nextId { f' with leaving := leaving' } where
  policy_eq := h.policy_eq
  posts_eq := by rw [← h.posts_eq]; cases c <;> rfl
  other_eq := by rw [← h.other_eq]; cases c <;> rfl
  leaving_eq := rfl
  nextId_eq := h.nextId_eq

theorem Alters.addLeaving (h : Alters f c posts leaving nextId f') (ws : List Writer) :
    Alters f c posts (leaving ++ ws) nextId { f' with leaving := f'.leaving ++ ws } := by
  rw [h.leaving_eq]
  exact h.setLeaving _

theorem Alters.writers_perm (h : Alters f c posts leaving nextId f') :
    f'.writers.Perm
      (posts.map Post.writer ++ ((f.posts c.other).map Post.writer ++ leaving)) := by
  have hperm := f'.writers_perm c
  rwa [h.posts_eq, h.other_eq, h.leaving_eq] at hperm

theorem Alters.posts_of_ne (h : Alters f c posts leaving nextId f') {c' : Category}
    (hne : c' ≠ c) : f'.posts c' = f.posts c' := by
  obtain rfl | rfl := c.eq_or_eq_other c'
  · exact absurd rfl hne
  · exact h.other_eq

end Alters

/-! ## Hiring -/

/-- The post of the writer that is hired next. -/
def opened (f : Fleet) (now : Nat) (t : Store) : Post :=
  ⟨(Writer.hire f.nextId f.policy.writer f.policy.queueSize now t).1, []⟩

theorem post_hire (f : Fleet) (now : Nat) (t : Store) :
    (f.hire now t).1.post = f.opened now t := rfl

theorem alters_hire (f : Fleet) (c : Category) (now : Nat) (t : Store) :
    Alters f c (f.posts c) f.leaving (f.nextId + 1) (f.hire now t).2.1 :=
  ⟨rfl, by cases c <;> rfl, by cases c <;> rfl, rfl, rfl⟩

/-- A fleet that has hired one more writer into a crew. -/
def Enlists (f : Fleet) (c : Category) (now : Nat) (f' : Fleet) : Prop :=
  ∃ t, Alters f c (f.posts c ++ [f.opened now t]) f.leaving (f.nextId + 1) f'

theorem enlists_setCrew (f : Fleet) (c : Category) (now : Nat) (t : Store) {crew : Crew}
    (h : crew.members = (f.crew c).members ++ [(f.hire now t).1]) :
    f.Enlists c now ((f.hire now t).2.1.setCrew c crew) := by
  refine ⟨t, (f.alters_hire c now t).setCrew ?_⟩
  rw [h, List.map_append, List.map_singleton, post_hire]
  rfl

theorem recruit_succ (c : Category) (now n : Nat) (s : Fleet × Store) :
    ∃ s', s.1.Enlists c now s'.1 ∧ recruit c now (n + 1) s = recruit c now n s' := by
  have hcrew : (s.1.hire now s.2).2.1.crew c = s.1.crew c := by cases c <;> rfl
  have hmembers := congrArg (fun crew : Crew => crew.members ++ [(s.1.hire now s.2).1]) hcrew
  exact ⟨((s.1.hire now s.2).2.1.setMembers c _, (s.1.hire now s.2).2.2),
    s.1.enlists_setCrew c now s.2 hmembers, rfl⟩

/-- What hiring writers preserves holds of a new fleet, if it holds of one without writers. -/
theorem start_induction {P : Fleet → Prop} (p : Policy) (now : Nat) (t : Store)
    (hempty : ∀ f : Fleet, f.policy = p → (∀ c, f.posts c = []) → f.leaving = [] → f.nextId = 0 →
      P f)
    (henlist : ∀ {f c f'}, P f → f.Enlists c now f' → P f') : P (start p now t).1 := by
  have hrecruit : ∀ n c s, P s.1 → P (recruit c now n s).1 := by
    intro n c
    induction n with
    | zero => exact fun s hs => hs
    | succ n ih =>
      intro s hs
      obtain ⟨s', he, hrec⟩ := recruit_succ c now n s
      rw [hrec]
      exact ih s' (henlist hs he)
  exact hrecruit _ _ _ (hrecruit _ _ _ (hempty _ rfl (fun c => by cases c <;> rfl) rfl rfl))

end Fleet

end BmpFeed
