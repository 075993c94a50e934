import BmpFeed.Proofs.Fleet.Posts

/-!
# Routing and sending

What routing a key and sending a request do to the posts of a category. A key that has an owner goes
there and nothing changes; a new key is assigned to one post, and the other posts stay as they are.
-/

namespace BmpFeed

theorem map_modify {α β : Type} {g : α → β} {h : α → α} {h' : β → β}
    (hg : ∀ a, g (h a) = h' (g a)) (l : List α) (i : Nat) :
    (l.modify i h).map g = (l.map g).modify i h' := by
  apply List.ext_getElem?
  intro j
  simp only [List.getElem?_map, List.getElem?_modify]
  cases l[j]? with
  | none => rfl
  | some a =>
    by_cases hij : i = j
    · simp [hij, hg]
    · simp [hij]

theorem map_modify_same {α β : Type} {g : α → β} {h : α → α} (hg : ∀ a, g (h a) = g a)
    (l : List α) (i : Nat) : (l.modify i h).map g = l.map g :=
  (map_modify hg l i).trans (List.modify_id i _)

namespace Fleet

/-! ## Choosing a post -/

theorem Crew.scan_lt (mid : Nat) (ms : List Member) {best : Nat × Member} {place n : Nat}
    (hbest : best.1 < n) (hplace : place + ms.length ≤ n) :
    (scan mid best place ms).1 < n := by
  induction ms generalizing best place with
  | nil => exact hbest
  | cons m ms ih =>
    unfold scan
    rw [List.length_cons] at hplace
    refine ih ?_ (by omega)
    split_ifs
    · show place < n
      omega
    · exact hbest

theorem Crew.choose_lt (mid : Nat) {ms : List Member} (h : ms ≠ []) :
    choose mid ms < ms.length := by
  cases ms with
  | nil => exact absurd rfl h
  | cons m ms =>
    refine scan_lt mid ms (Nat.zero_lt_succ _) ?_
    rw [List.length_cons]
    omega

/-! ## Routing -/

/-- What routing a key to a place does to some posts. -/
inductive Routes (posts : List Post) (key : String) (place : Nat) : List Post → Prop
  /-- The key belongs to the post already. -/
  | owned {post : Post} (h : posts[place]? = some post) (hkey : key ∈ post.keys) :
      Routes posts key place posts
  /-- The key belongs to nobody and is assigned to the post. -/
  | new (h : place < posts.length) (hkey : ∀ post ∈ posts, key ∉ post.keys) :
      Routes posts key place (posts.modify place fun post => post.assign key)

/-- Routing moves no writers. -/
theorem Routes.writers_eq {posts posts' : List Post} {key : String} {place : Nat}
    (h : Routes posts key place posts') : posts'.map Post.writer = posts.map Post.writer := by
  cases h with
  | owned => rfl
  | new =>
    exact map_modify_same (g := Post.writer) (h := fun post => post.assign key) (fun _ => rfl) _ _

theorem Routes.length_eq {posts posts' : List Post} {key : String} {place : Nat}
    (h : Routes posts key place posts') : posts'.length = posts.length := by
  have hlen := congrArg List.length h.writers_eq
  rwa [List.length_map, List.length_map] at hlen

variable {f f' : Fleet} {c : Category} {key : String}

theorem ownerPlace?_eq (f : Fleet) (c : Category) (key : String) :
    (f.crew c).ownerPlace? key = (f.posts c).findIdx? fun post => post.owns key := by
  unfold posts
  rw [List.findIdx?_map]
  rfl

theorem route_spec (key : String) (hposts : f.posts c ≠ []) :
    ∃ place posts', (f.route c key).1 = ⟨c, place⟩ ∧ Routes (f.posts c) key place posts' ∧
      Alters f c posts' f.leaving f.nextId (f.route c key).2 := by
  unfold Fleet.route Crew.route
  rw [ownerPlace?_eq]
  cases hown : (f.posts c).findIdx? fun post => post.owns key with
  | some i =>
    obtain ⟨hi, howns, -⟩ := List.findIdx?_eq_some_iff_getElem.1 hown
    refine ⟨i, _, rfl, .owned (List.getElem?_eq_getElem hi) (Post.owns_iff.1 howns),
      (Alters.refl f c).setCrew ?_⟩
    exact map_modify_same (g := Member.post) (h := Member.count) (fun _ => rfl) _ i
  | none =>
    have hmembers : (f.crew c).members.map Member.refreshed ≠ [] := fun hnil =>
      hposts (by rw [posts, List.map_eq_nil_iff.1 hnil, List.map_nil])
    have hlt := Crew.choose_lt f.mid hmembers
    have hsame : ((f.crew c).members.map Member.refreshed).map Member.post = f.posts c := by
      unfold posts
      rw [List.map_map]
      apply List.map_congr_left
      intro m _
      simp only [Function.comp_apply, Member.refreshed]
      split_ifs <;> rfl
    have hplace : Crew.choose f.mid ((f.crew c).members.map Member.refreshed) <
        (f.posts c).length := by
      simpa [length_posts, Crew.size] using hlt
    refine ⟨_, _, rfl, .new hplace ?_, (Alters.refl f c).setCrew ?_⟩
    · intro post hpost hkey
      have hnone := List.findIdx?_eq_none_iff.1 hown post hpost
      simp [Post.owns, hkey] at hnone
    · rw [← hsame]
      exact map_modify (g := Member.post) (h := fun m => (m.assign key).count) (fun _ => rfl) _ _

/-! ## Sending -/

theorem send_spec {s : Slot} {r : Request} {note : Note} (h : f.send? s r = some (f', note)) :
    ∃ post w, (f.posts s.category)[s.place]? = some post ∧ post.writer.send? r = some w ∧
      Alters f s.category ((f.posts s.category).set s.place { post with writer := w })
        f.leaving f.nextId f' := by
  unfold send? at h
  simp only [Option.bind_eq_bind, Option.bind_eq_some_iff, Option.some.injEq, Prod.mk.injEq] at h
  obtain ⟨m, hm, w, hw, rfl, -⟩ := h
  refine ⟨m.post, w, ?_, hw, ?_⟩
  · unfold member? at hm
    simp [posts, hm]
  · exact (Alters.refl f s.category).setCrew (List.map_set ..)

/-- Sending notes the writer at the place. -/
theorem note_send {s : Slot} {r : Request} {note : Note} (h : f.send? s r = some (f', note)) :
    ∃ post, (f.posts s.category)[s.place]? = some post ∧
      note = .requestDelivered post.writer.id r := by
  unfold send? at h
  simp only [Option.bind_eq_bind, Option.bind_eq_some_iff, Option.some.injEq, Prod.mk.injEq] at h
  obtain ⟨m, hm, w, hw, -, rfl⟩ := h
  refine ⟨m.post, ?_, ?_⟩
  · unfold member? at hm
    simp [posts, hm]
  · unfold Writer.send? at hw
    split_ifs at hw
    obtain rfl := Option.some.inj hw
    rfl

end Fleet

end BmpFeed
