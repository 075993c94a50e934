import BmpFeed.Proofs.Fleet.Run

/-!
# Keys and crews

A key belongs to at most one writer of a category at any time, and as long as the fleet is not
dismissed there is a writer in every crew. The former is because chores only take keys away and
routing assigns a key that belongs to nobody; the latter because a crew is shrunk by one writer at a
time, and only while it has two.
-/

namespace BmpFeed.Fleet

variable {p : Policy} {es es' : List Event} {now now' : Nat} {f f' : Fleet} {c : Category}
  {chore : Chore} {chores chores' : List Chore}

/-- The keys of all posts, in the order of the posts. -/
def keysOf (posts : List Post) : List String := posts.flatMap Post.keys

theorem keysOf_modify_sublist {g : Post → Post} (hg : ∀ post, (g post).keys.Sublist post.keys)
    (posts : List Post) (i : Nat) : (keysOf (posts.modify i g)).Sublist (keysOf posts) := by
  by_cases hi : i < posts.length
  · obtain ⟨l, post, l', hposts, -, hmod⟩ := List.exists_of_modify g hi
    rw [hmod, hposts, keysOf, keysOf, List.flatMap_append, List.flatMap_append, List.flatMap_cons,
      List.flatMap_cons]
    exact (((hg post).append_right _).append_left _)
  · rw [List.modify_eq_self (Nat.le_of_not_lt hi)]

theorem keysOf_assign {posts : List Post} {i : Nat} (hi : i < posts.length) (key : String) :
    (keysOf (posts.modify i fun post => post.assign key)).Perm (key :: keysOf posts) := by
  obtain ⟨l, post, l', hposts, -, hmod⟩ := List.exists_of_modify (fun post => post.assign key) hi
  rw [hmod, hposts, keysOf, keysOf, List.flatMap_append, List.flatMap_append, List.flatMap_cons,
    List.flatMap_cons, Post.assign, List.append_assoc]
  refine .trans ?_ List.perm_middle
  refine List.Perm.append_left _ ?_
  exact List.perm_middle

/-- A writer in the place of another changes no keys. -/
theorem map_keys_set {posts : List Post} {i : Nat} {post : Post} (h : posts[i]? = some post)
    (w : Writer) : (posts.set i { post with writer := w }).map Post.keys = posts.map Post.keys := by
  apply List.ext_getElem?
  intro j
  rw [List.map_set, List.getElem?_set]
  split_ifs with hij hlt
  · rw [← hij, List.getElem?_map, h]
    rfl
  · rw [List.length_map] at hlt
    exact absurd (List.getElem?_eq_some_iff.1 h).1 (hij ▸ hlt)
  · rfl

theorem keysOf_set {posts : List Post} {i : Nat} {post : Post} (h : posts[i]? = some post)
    (w : Writer) : keysOf (posts.set i { post with writer := w }) = keysOf posts := by
  unfold keysOf
  rw [List.flatMap_def, List.flatMap_def, map_keys_set h]

theorem mem_keysOf {posts : List Post} {post : Post} {key : String} (hpost : post ∈ posts)
    (hkey : key ∈ post.keys) : key ∈ keysOf posts :=
  List.mem_flatMap.2 ⟨post, hpost, hkey⟩

/-- Two posts that own one key are at one place. -/
theorem place_eq_of_owns {posts : List Post} (hnodup : (keysOf posts).Nodup) {i j : Nat}
    {post post' : Post} {key : String} (hi : posts[i]? = some post) (hj : posts[j]? = some post')
    (hkey : key ∈ post.keys) (hkey' : key ∈ post'.keys) : i = j := by
  induction posts generalizing i j with
  | nil => simp at hi
  | cons a posts ih =>
    rw [keysOf, List.flatMap_cons] at hnodup
    have hdisj := List.disjoint_of_nodup_append hnodup
    cases i with
    | zero =>
      cases j with
      | zero => rfl
      | succ j =>
        obtain rfl : a = post := by simpa using hi
        rw [List.getElem?_cons_succ] at hj
        exact absurd (mem_keysOf (List.mem_of_getElem? hj) hkey') (hdisj hkey)
    | succ i =>
      rw [List.getElem?_cons_succ] at hi
      cases j with
      | zero =>
        obtain rfl : a = post' := by simpa using hj
        exact absurd (mem_keysOf (List.mem_of_getElem? hi) hkey) (hdisj hkey')
      | succ j =>
        rw [List.getElem?_cons_succ] at hj
        exact congrArg _ (ih hnodup.of_append_right hi hj)

theorem Chore.Manned.keys_sublist {n n' : Nat} {posts posts' : List Post}
    (h : Chore.Manned p now n posts n' posts') : (keysOf posts').Sublist (keysOf posts) := by
  induction h with
  | nil => exact List.Sublist.refl _
  | keep _ _ ih => exact ih.append_left _
  | fill _ _ _ ih => exact ih.trans (List.sublist_append_right _ _)

theorem Alters.keys_sublist {posts : List Post} {leaving : List Writer} {n : Nat}
    (h : Alters f c posts leaving n f') (hkeys : (keysOf posts).Sublist (keysOf (f.posts c)))
    (c' : Category) : (keysOf (f'.posts c')).Sublist (keysOf (f.posts c')) := by
  by_cases hc : c' = c
  · subst hc
    rwa [h.posts_eq]
  · rw [h.posts_of_ne hc]

theorem keysOf_mapWriters (g : Writer → Writer) (f : Fleet) (c : Category) :
    keysOf ((f.mapWriters g).posts c) = keysOf (f.posts c) := by
  rw [posts_mapWriters, keysOf, List.flatMap_map]
  rfl

/-- A chore assigns no keys. -/
theorem Chore.Move.keys_sublist (m : Chore.Move now f chore es' chores' f') (c' : Category) :
    (keysOf (f'.posts c')).Sublist (keysOf (f.posts c')) := by
  cases m with
  | idle | reset | wait | resetAll | grow | shrink => exact List.Sublist.refl _
  | inspect v hm ha => exact ha.keys_sublist hm.keys_sublist c'
  | clear steps due hpost hqueue ha =>
    exact ha.keys_sublist (keysOf_modify_sublist (fun _ => List.nil_sublist _) _ _) c'
  | enlist he =>
    obtain ⟨t, ha⟩ := he
    refine ha.keys_sublist ?_ c'
    simp [keysOf, opened]
  | vacant hposts ha => exact ha.keys_sublist (List.nil_sublist _) c'
  | release hposts ha =>
    refine ha.keys_sublist ?_ c'
    rw [hposts, keysOf, keysOf, List.flatMap_append]
    exact List.sublist_append_left _ _
  | close id =>
    unfold Fleet.closeQueue
    rw [keysOf_mapWriters]
  | join hw hclosed => cases c' <;> exact List.Sublist.refl _
  | dismiss ha => exact ha.keys_sublist (List.nil_sublist _) c'

theorem Routes.nodup_keys {posts posts' : List Post} {key : String} {place : Nat}
    (h : Routes posts key place posts') (hnodup : (keysOf posts).Nodup) :
    (keysOf posts').Nodup := by
  cases h with
  | owned => exact hnodup
  | new hplace hkey =>
    refine (keysOf_assign hplace key).nodup_iff.2 (List.nodup_cons.2 ⟨fun hmem => ?_, hnodup⟩)
    obtain ⟨post, hpost, hmem⟩ := List.mem_flatMap.1 hmem
    exact hkey post hpost hmem

/-- A key belongs to at most one writer of a category. -/
theorem Run.nodup_keys (h : Run p es now f chores) (c : Category) : (keysOf (f.posts c)).Nodup := by
  induction h with
  | start now t =>
    refine start_induction (P := fun f => (keysOf (f.posts c)).Nodup) p now t ?_ ?_
    · intro f _ hposts _ _
      simp [hposts, keysOf]
    · intro f c' f' h he
      exact h.sublist ((Chore.Move.enlist he).keys_sublist c)
  | wait _ _ ih => exact ih
  | write _ _ _ ih =>
    unfold Fleet.replace
    rwa [keysOf_mapWriters]
  | @route es now f c' key post _ _ hpost ih =>
    obtain ⟨place, posts', -, hroutes, ha⟩ :=
      route_spec key (List.ne_nil_of_mem (List.mem_of_getElem? hpost))
    by_cases hc : c = c'
    · subst hc
      rw [ha.posts_eq]
      exact hroutes.nodup_keys ih
    · rwa [ha.posts_of_ne hc]
  | send _ _ hs _ ih =>
    obtain ⟨post, w, hpost, -, ha⟩ := send_spec hs
    refine ih.sublist (ha.keys_sublist ?_ c)
    rw [keysOf_set hpost]
  | check _ _ ih => exact ih
  | dismiss _ _ ih => exact ih
  | chore _ hstep ih => exact ih.sublist ((Chore.move_of_step? hstep).keys_sublist c)

end BmpFeed.Fleet
