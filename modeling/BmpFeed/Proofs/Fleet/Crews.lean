import BmpFeed.Proofs.Fleet.Run

/-!
# The size of crews

As long as a fleet is not dismissed there is a writer in every crew: a crew is shrunk by one writer
at a time, and only while it has two.
-/

namespace BmpFeed.Fleet

variable {p : Policy} {es es' : List Event} {now now' : Nat} {f f' : Fleet} {c : Category}
  {chore : Chore} {chores chores' : List Chore}

/-- The chore can lead to a smaller crew. -/
def Chore.shrinks (c : Category) : Chore → Bool
  | .inspect c' | .shrink c' | .release c' => c' = c
  | _ => false

theorem Chore.Manned.length_eq {n n' : Nat} {posts posts' : List Post}
    (h : Chore.Manned p now n posts n' posts') : posts'.length = posts.length := by
  induction h with
  | nil => rfl
  | keep _ _ ih => simp [ih]
  | fill _ _ _ ih => simp [ih]

theorem Alters.length_eq {posts : List Post} {leaving : List Writer} {n : Nat}
    (h : Alters f c posts leaving n f') (hlen : posts.length = (f.posts c).length)
    (c' : Category) : (f'.posts c').length = (f.posts c').length := by
  by_cases hc : c' = c
  · subst hc
    rwa [h.posts_eq]
  · rw [h.posts_of_ne hc]

/-- Few chores change the size of a crew. -/
theorem Chore.Move.length_eq (m : Chore.Move now f chore es' chores' f') (c : Category)
    (henlist : chore ≠ .enlist c) (hrelease : chore ≠ .release c) (hdismiss : chore ≠ .dismiss c) :
    (f'.posts c).length = (f.posts c).length := by
  cases m with
  | idle | reset | wait | resetAll | grow | shrink => rfl
  | inspect v hm ha => exact ha.length_eq hm.length_eq c
  | clear steps due hpost hqueue ha => exact ha.length_eq (List.length_modify ..) c
  | enlist he =>
    obtain ⟨t, ha⟩ := he
    rw [ha.posts_of_ne fun hc => henlist (hc ▸ rfl)]
  | vacant hposts ha => exact ha.length_eq (by rw [hposts]) c
  | release hposts ha => rw [ha.posts_of_ne fun hc => hrelease (hc ▸ rfl)]
  | close id =>
    unfold Fleet.closeQueue
    rw [posts_mapWriters, List.length_map]
  | join hw hclosed => cases c <;> rfl
  | dismiss ha => rw [ha.posts_of_ne fun hc => hdismiss (hc ▸ rfl)]

theorem Enlists.length_eq (h : f.Enlists c now f') (c' : Category) :
    (f'.posts c').length = (f.posts c').length + if c' = c then 1 else 0 := by
  obtain ⟨t, ha⟩ := h
  split_ifs with hc
  · subst hc
    rw [ha.posts_eq, List.length_append, List.length_singleton]
  · rw [ha.posts_of_ne hc, Nat.add_zero]

/-- A property of the chores that change the size of a crew. One that looks to such a change has it
only if the chore that it comes from does. -/
structure Chore.Inherited (P : Chore → Bool) : Prop where
  grow : ∀ c, P (.grow c) = true → P (.inspect c) = true
  shrink : ∀ c, P (.shrink c) = true → P (.inspect c) = true
  enlist : ∀ c, P (.enlist c) = true → P (.grow c) = true
  release : ∀ c, P (.release c) = true → P (.shrink c) = true
  reset : ∀ c place, P (.reset c place) = false
  drain : ∀ c place steps due, P (.drain c place steps due) = false
  resetAll : ∀ c, P (.resetAll c) = false
  close : ∀ id, P (.close id) = false
  join : ∀ id, P (.join id) = false
  removed : ∀ c, P (.removed c) = false

theorem Chore.inherited_shrinks (c : Category) : Chore.Inherited (Chore.shrinks c) := by
  constructor <;> simp [Chore.shrinks]

theorem countP_singleton_le {P : Chore → Bool} {chore chore' : Chore}
    (h : P chore' = true → P chore = true) : [chore'].countP P ≤ [chore].countP P := by
  rw [List.countP_singleton, List.countP_singleton]
  split_ifs with hchore' hchore
  · exact Nat.le_refl 1
  · exact absurd (h hchore') hchore
  all_goals exact Nat.zero_le _

theorem countP_map_reset {P : Chore → Bool} (hP : Chore.Inherited P) (c : Category)
    (places : List Nat) : (places.map (Chore.reset c)).countP P = 0 := by
  rw [List.countP_eq_zero]
  intro chore hmem
  obtain ⟨place, -, rfl⟩ := List.mem_map.1 hmem
  simp [hP.reset]

/-- What comes of a chore has an inherited property at most once, and only if the chore has it. -/
theorem Chore.Move.countP_le (m : Chore.Move now f chore es' chores' f') {P : Chore → Bool}
    (hP : Chore.Inherited P) : chores'.countP P ≤ [chore].countP P := by
  cases m with
  | @inspect c' posts n f' v hm ha =>
    cases v with
    | rebalance places =>
      have hnone := countP_map_reset hP c' places
      simp [Chore.ofVerdict, hnone]
    | grow => exact countP_singleton_le (hP.grow c')
    | shrink => exact countP_singleton_le (hP.shrink c')
    | hold => exact Nat.zero_le _
  | resetAll c' =>
    rw [countP_map_reset hP]
    exact Nat.zero_le _
  | @grow c' hlt =>
    rw [List.countP_cons_of_neg (by simp [hP.resetAll])]
    exact countP_singleton_le (hP.enlist c')
  | @shrink c' hlt =>
    rw [List.countP_cons_of_neg (by simp [hP.reset])]
    exact countP_singleton_le (hP.release c')
  | dismiss ha =>
    refine Nat.le_trans (Nat.le_of_eq (List.countP_eq_zero.2 fun x hx => ?_)) (Nat.zero_le _)
    obtain ⟨w, -, hx⟩ := List.mem_flatMap.1 hx
    rcases List.mem_cons.1 hx with rfl | hx
    · simp [hP.close]
    · obtain rfl := List.mem_singleton.1 hx
      simp [hP.join]
  | reset | wait | vacant | release => simp [hP.drain, hP.close, hP.join, hP.removed]
  | idle | clear | enlist | close | join => exact Nat.zero_le _

/-- If one chore at most has an inherited property, so it stays. -/
theorem Chore.Move.countP_le_one (m : Chore.Move now f chore es' chores' f') {P : Chore → Bool}
    (hP : Chore.Inherited P) (h : (chore :: chores).countP P ≤ 1) :
    (chores' ++ chores).countP P ≤ 1 := by
  have hle := m.countP_le hP
  rw [← List.singleton_append, List.countP_append] at h
  rw [List.countP_append]
  omega

/-- If one chore at most has a property, the first is the only one. -/
theorem not_mem_of_countP_le_one {P : Chore → Bool} {chore' : Chore}
    (h : (chore :: chores).countP P ≤ 1) (hchore : P chore = true) (hchore' : P chore' = true) :
    chore' ∉ chores := by
  intro hmem
  rw [List.countP_cons_of_pos hchore] at h
  have hpos : 0 < chores.countP P := List.countP_pos_iff.2 ⟨_, hmem, hchore'⟩
  omega

theorem Chore.Move.release_of_mem (m : Chore.Move now f chore es' chores' f')
    (h : .release c ∈ chores') : chore = .shrink c ∧ 1 < (f.posts c).length := by
  cases m with
  | inspect v hm ha => cases v <;> simp [Chore.ofVerdict] at h
  | resetAll => simp at h
  | @shrink c' hlt =>
    obtain rfl : c = c' := by simpa using h
    exact ⟨rfl, hlt⟩
  | dismiss ha => simp at h
  | _ => simp at h

theorem Chore.Move.no_dismiss (m : Chore.Move now f chore es' chores' f') :
    .dismiss c ∉ chores' := by
  cases m with
  | inspect v hm ha => cases v <;> simp [Chore.ofVerdict]
  | _ => simp

/-- What keeps the crews manned while the fleet is not dismissed. -/
structure Crewed (f : Fleet) (chores : List Chore) : Prop where
  ne_nil : ∀ c, f.posts c ≠ []
  shrinks : ∀ c, chores.countP (Chore.shrinks c) ≤ 1
  release : ∀ c, .release c ∈ chores → 1 < (f.posts c).length
  dismiss : ∀ c, .dismiss c ∉ chores

namespace Crewed

/-- While one writer is to be taken out of a crew, no other is. -/
theorem no_release (h : Crewed f (.release c :: chores)) : .release c ∉ chores :=
  not_mem_of_countP_le_one (h.shrinks c) (by simp [Chore.shrinks]) (by simp [Chore.shrinks])

theorem chore_step (h : Crewed f (chore :: chores)) (m : Chore.Move now f chore es' chores' f') :
    Crewed f' (chores' ++ chores) := by
  have hdismiss : ∀ c, chore ≠ .dismiss c := fun c he => h.dismiss c (he ▸ List.mem_cons_self)
  have hlen : ∀ c, chore ≠ .release c → (f.posts c).length ≤ (f'.posts c).length := by
    intro c hrelease
    by_cases henlist : chore = .enlist c
    · cases m with
      | enlist he =>
        rw [he.length_eq]
        exact Nat.le_add_right _ _
      | idle hidle => simp [henlist, Chore.mayIdle] at hidle
      | _ => simp at henlist
    · exact Nat.le_of_eq (m.length_eq c henlist hrelease (hdismiss c)).symm
  constructor
  · intro c
    have hpos := List.length_pos_iff.2 (h.ne_nil c)
    refine List.length_pos_iff.1 ?_
    by_cases hrelease : chore = .release c
    · have hlt := h.release c (hrelease ▸ List.mem_cons_self)
      subst hrelease
      cases m with
      | idle hidle => simp [Chore.mayIdle] at hidle
      | vacant hposts ha => exact absurd hposts (h.ne_nil c)
      | release hposts ha =>
        rw [ha.posts_eq]
        rw [hposts, List.length_append, List.length_singleton] at hlt
        omega
    · exact Nat.lt_of_lt_of_le hpos (hlen c hrelease)
  · exact fun c => m.countP_le_one (Chore.inherited_shrinks c) (h.shrinks c)
  · intro c hmem
    have hne : chore ≠ .release c := by
      rintro rfl
      rcases List.mem_append.1 hmem with hmem | hmem
      · exact absurd (m.release_of_mem hmem).1 (by simp)
      · exact h.no_release hmem
    refine Nat.lt_of_lt_of_le ?_ (hlen c hne)
    rcases List.mem_append.1 hmem with hmem | hmem
    · exact (m.release_of_mem hmem).2
    · exact h.release c (List.mem_cons_of_mem _ hmem)
  · intro c hmem
    rcases List.mem_append.1 hmem with hmem | hmem
    · exact m.no_dismiss hmem
    · exact h.dismiss c (List.mem_cons_of_mem _ hmem)

/-- The chores are done and the sizes are as they were. -/
theorem resize (h : Crewed f chores) (hlen : ∀ c, (f'.posts c).length = (f.posts c).length) :
    Crewed f' chores where
  ne_nil c := by
    rw [← List.length_pos_iff, hlen]
    exact List.length_pos_iff.2 (h.ne_nil c)
  shrinks := h.shrinks
  release c hmem := by
    rw [hlen]
    exact h.release c hmem
  dismiss := h.dismiss

end Crewed

theorem length_recruit (c c' : Category) (now n : Nat) (s : Fleet × Store) :
    ((recruit c now n s).1.posts c').length =
      (s.1.posts c').length + if c' = c then n else 0 := by
  induction n generalizing s with
  | zero => simp [recruit]
  | succ n ih =>
    obtain ⟨s', he, hrec⟩ := recruit_succ c now n s
    rw [hrec, ih, he.length_eq]
    split_ifs <;> omega

/-- A new fleet has as many writers as it may have. -/
theorem length_posts_start (p : Policy) (now : Nat) (t : Store) (c : Category) :
    ((Fleet.start p now t).1.posts c).length = max p.maxWriters 1 := by
  show ((recruit .bulk now (max p.maxWriters 1)
    (recruit .general now (max p.maxWriters 1) _)).1.posts c).length = _
  rw [length_recruit, length_recruit]
  cases c <;> exact Nat.zero_add _

theorem start_posts_ne_nil (p : Policy) (now : Nat) (t : Store) (c : Category) :
    (Fleet.start p now t).1.posts c ≠ [] := by
  refine List.length_pos_iff.1 ?_
  rw [length_posts_start]
  exact Nat.le_max_right _ _

/-- There is a writer in every crew until the fleet is dismissed. -/
theorem Run.crewed (h : Run p es now f chores) (hopen : .dismissed ∉ es) : Crewed f chores := by
  induction h with
  | start now t =>
    exact ⟨start_posts_ne_nil p now t, by simp, by simp, by simp⟩
  | wait _ _ ih => exact ih hopen
  | write _ _ _ ih =>
    refine (ih fun hmem => hopen (List.mem_append_left _ hmem)).resize fun c => ?_
    unfold Fleet.replace
    rw [posts_mapWriters, List.length_map]
  | @route es now f c' key post hrun hopen' hpost ih =>
    have h := ih hopen'
    obtain ⟨place, posts', -, hroutes, ha⟩ := route_spec key (h.ne_nil c')
    exact h.resize (ha.length_eq hroutes.length_eq)
  | send _ hopen' hs _ ih =>
    obtain ⟨post, w, -, -, ha⟩ := send_spec hs
    exact (ih hopen').resize (ha.length_eq (List.length_set ..))
  | check _ _ ih =>
    have h := ih hopen
    exact ⟨h.ne_nil, fun c => by cases c <;> decide, by simp [checkChores], by simp [checkChores]⟩
  | dismiss _ _ _ => exact absurd (List.mem_append_right _ (List.mem_singleton_self _)) hopen
  | chore _ hstep ih =>
    exact (ih fun hmem => hopen (List.mem_append_left _ hmem)).chore_step
      (Chore.move_of_step? hstep)

end BmpFeed.Fleet
