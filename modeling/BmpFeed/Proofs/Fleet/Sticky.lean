import BmpFeed.Proofs.Fleet.Crews
import BmpFeed.Proofs.Fleet.Keys
import BmpFeed.Proofs.Fleet.Staff

/-!
# Sticky routing

Once a key was routed to a writer it stays with it until an event frees it: the category is to grow,
a rebalance names the writer, or the writer is removed or replaced. `Held` is what a chore preserves
of this; `Run.held` carries it through a run.
-/

namespace BmpFeed.Fleet

variable {p : Policy} {es es' : List Event} {now now' : Nat} {f f' : Fleet} {c : Category}
  {key : String} {id : Nat} {chore : Chore} {chores chores' : List Chore}

/-- The event takes its keys from a writer of the category. -/
inductive Frees (c : Category) (id : Nat) : Event → Prop
  | grew : Frees c id (.grew c)
  | rebalanced {ids : List Nat} (h : id ∈ ids) : Frees c id (.rebalanced c ids)
  | removed : Frees c id (.removed c id)
  | replaced : Frees c id (.replaced c id)

/-- The chore leaves the writer at a place of a crew of `size` where it is, and its keys. -/
def Chore.Spares (c : Category) (place size : Nat) : Chore → Prop
  | .reset c' i | .drain c' i _ _ => c' = c → i ≠ place
  | .release c' => c' = c → place + 1 < size
  | .resetAll c' | .grow c' | .enlist c' | .dismiss c' => c' ≠ c
  | _ => True

/-- The chore changes the size of the crew, unless it releases a writer. -/
def Chore.Staffs (c : Category) (chore : Chore) : Prop :=
  chore = .grow c ∨ chore = .enlist c ∨ chore = .dismiss c

/-- The key belongs to a writer that keeps it while the chores are done, or to the one that is about
to be taken out of the crew. -/
inductive Held (f : Fleet) (chores : List Chore) (c : Category) (key : String) (id : Nat) : Prop
  | keeps {place : Nat} {post : Post} (hpost : (f.posts c)[place]? = some post)
      (hid : post.writer.id = id) (hkey : key ∈ post.keys)
      (hspare : ∀ chore ∈ chores, chore.Spares c place (f.posts c).length)
  | leaves {place : Nat} {post : Post} (hpost : (f.posts c)[place]? = some post)
      (hid : post.writer.id = id) (hlast : place + 1 = (f.posts c).length)
      (hrelease : .release c ∈ chores) (hstaff : ∀ chore ∈ chores, ¬chore.Staffs c)

/-! ## Posts that stay -/

theorem Chore.Manned.stays {n n' : Nat} {posts posts' : List Post}
    (h : Chore.Manned p now n posts n' posts') {place : Nat} {post : Post}
    (hpost : posts[place]? = some post) :
    post.writer.isClosed = true ∨ posts'[place]? = some post := by
  induction h generalizing place with
  | nil => simp at hpost
  | keep hopen _ ih =>
    cases place with
    | zero => exact .inr hpost
    | succ place => exact ih (by simpa using hpost)
  | fill t hclosed _ ih =>
    cases place with
    | zero =>
      obtain rfl := Option.some.inj hpost
      exact .inl hclosed
    | succ place => exact ih (by simpa using hpost)

theorem replaced_mem_events {post : Post} (hpost : post ∈ f.posts c)
    (hclosed : post.writer.isClosed = true) :
    .replaced c post.writer.id ∈ Chore.replacedEvents c (f.posts c) :=
  List.mem_map.2 ⟨post, List.mem_filter.2 ⟨hpost, hclosed⟩, rfl⟩

/-- A writer stays at its place, and so do its keys unless the chore resets just this writer. -/
theorem Chore.Move.stays (m : Chore.Move now f chore es' chores' f') {place : Nat} {post : Post}
    (hpost : (f.posts c)[place]? = some post)
    (hrelease : chore = .release c → place + 1 < (f.posts c).length)
    (hdismiss : chore ≠ .dismiss c) :
    .replaced c post.writer.id ∈ es' ∨
      ∃ post', (f'.posts c)[place]? = some post' ∧ post'.writer.id = post.writer.id ∧
        ((∀ steps due, chore ≠ .drain c place steps due) → post'.keys = post.keys) := by
  cases m with
  | idle | reset | wait | resetAll | grow | shrink => exact .inr ⟨post, hpost, rfl, fun _ => rfl⟩
  | @inspect c' posts n f' v hm ha =>
    by_cases hc : c = c'
    · subst hc
      rcases hm.stays hpost with hclosed | hpost'
      · exact .inl (List.mem_append_left _
          (replaced_mem_events (List.mem_of_getElem? hpost) hclosed))
      · exact .inr ⟨post, by rw [ha.posts_eq]; exact hpost', rfl, fun _ => rfl⟩
    · exact .inr ⟨post, by rw [ha.posts_of_ne hc]; exact hpost, rfl, fun _ => rfl⟩
  | @clear c' place' post' f' steps due hpost' hqueue ha =>
    right
    by_cases hc : c = c'
    · subst hc
      rw [ha.posts_eq]
      by_cases hplace : place' = place
      · subst hplace
        exact ⟨post.cleared, by rw [List.getElem?_modify_eq, hpost]; rfl, rfl,
          fun hne => absurd rfl (hne steps due)⟩
      · exact ⟨post, by rw [List.getElem?_modify_ne _ _ hplace, hpost], rfl, fun _ => rfl⟩
    · exact ⟨post, by rw [ha.posts_of_ne hc]; exact hpost, rfl, fun _ => rfl⟩
  | @enlist c' f' he =>
    right
    obtain ⟨t, ha⟩ := he
    by_cases hc : c = c'
    · subst hc
      rw [ha.posts_eq, List.getElem?_append_left (List.getElem?_eq_some_iff.1 hpost).1]
      exact ⟨post, hpost, rfl, fun _ => rfl⟩
    · exact ⟨post, by rw [ha.posts_of_ne hc]; exact hpost, rfl, fun _ => rfl⟩
  | @vacant c' f' hposts ha =>
    right
    by_cases hc : c = c'
    · subst hc
      simp [hposts] at hpost
    · exact ⟨post, by rw [ha.posts_of_ne hc]; exact hpost, rfl, fun _ => rfl⟩
  | @release c' posts last f' hposts ha =>
    right
    by_cases hc : c = c'
    · subst hc
      have hlt := hrelease rfl
      rw [hposts] at hpost hlt
      rw [List.length_append, List.length_singleton] at hlt
      rw [List.getElem?_append_left (by omega)] at hpost
      exact ⟨post, by rw [ha.posts_eq]; exact hpost, rfl, fun _ => rfl⟩
    · exact ⟨post, by rw [ha.posts_of_ne hc]; exact hpost, rfl, fun _ => rfl⟩
  | close id =>
    right
    unfold Fleet.closeQueue
    rw [posts_mapWriters, List.getElem?_map, hpost]
    refine ⟨_, rfl, ?_, fun _ => rfl⟩
    rw [Post.writer_mapWriter]
    split_ifs <;> rfl
  | join hw hclosed => exact .inr ⟨post, by cases c <;> exact hpost, rfl, fun _ => rfl⟩
  | @dismiss c' f' ha =>
    have hc : c ≠ c' := fun hc => hdismiss (hc ▸ rfl)
    exact .inr ⟨post, by rw [ha.posts_of_ne hc]; exact hpost, rfl, fun _ => rfl⟩

/-! ## Chores that spare a post -/

/-- What a check of the category concludes frees the writer, or leads to chores that spare it. -/
theorem frees_or_spares_of_verdict (v : Verdict) {posts : List Post} {place size : Nat}
    {post : Post} (hpost : posts[place]? = some post) :
    (∃ e ∈ Chore.verdictEvents c posts v, Frees c post.writer.id e) ∨
      ∀ chore ∈ (Chore.ofVerdict c v).1, chore.Spares c place size := by
  cases v with
  | rebalance places =>
    by_cases hplace : place ∈ places
    · refine .inl ⟨_, List.mem_singleton_self _, .rebalanced ?_⟩
      exact List.mem_filterMap.2 ⟨place, hplace, by rw [hpost]; rfl⟩
    · refine .inr fun chore hmem => ?_
      obtain ⟨i, hi, rfl⟩ := List.mem_map.1 hmem
      exact fun _ he => hplace (he ▸ hi)
  | grow => exact .inl ⟨_, List.mem_singleton_self _, .grew⟩
  | shrink => exact .inr (by simp [Chore.ofVerdict, Chore.Spares])
  | hold => exact .inr (by simp [Chore.ofVerdict])

theorem spares_of_verdict_of_ne (v : Verdict) {c' : Category} {place size : Nat} (hc : c' ≠ c) :
    ∀ chore ∈ (Chore.ofVerdict c' v).1, chore.Spares c place size := by
  intro chore hmem
  cases v with
  | rebalance places =>
    obtain ⟨i, -, rfl⟩ := List.mem_map.1 hmem
    exact fun hc' => absurd hc' hc
  | grow =>
    obtain rfl := List.mem_singleton.1 hmem
    exact hc
  | shrink =>
    obtain rfl := List.mem_singleton.1 hmem
    trivial
  | hold => simp [Chore.ofVerdict] at hmem

/-- A chore that spares a post leads to such chores, or it shows that the post is freed, or it is
about to take the last writer out of the crew. -/
theorem Chore.Move.spares (m : Chore.Move now f chore es' chores' f') {place : Nat} {post : Post}
    (hpost : (f.posts c)[place]? = some post)
    (hspare : chore.Spares c place (f.posts c).length) :
    (∃ e ∈ es', Frees c post.writer.id e) ∨
      (.release c ∈ chores' ∧ place + 1 = (f.posts c).length) ∨
      ∀ chore' ∈ chores', chore'.Spares c place (f.posts c).length := by
  have hlt := (List.getElem?_eq_some_iff.1 hpost).1
  cases m with
  | idle | clear | enlist | vacant | close | join => exact .inr (.inr (by simp [Chore.Spares]))
  | reset c' i => exact .inr (.inr (by simpa [Chore.Spares] using hspare))
  | wait c' i => exact .inr (.inr (by simpa [Chore.Spares] using hspare))
  | release => exact .inr (.inr (by simp [Chore.Spares]))
  | resetAll c' =>
    refine .inr (.inr fun chore' hmem => ?_)
    obtain ⟨i, -, rfl⟩ := List.mem_map.1 hmem
    exact fun hc => absurd hc hspare
  | grow h =>
    refine .inr (.inr fun chore' hmem => ?_)
    simp only [List.mem_cons, List.not_mem_nil, or_false] at hmem
    rcases hmem with rfl | rfl <;> exact hspare
  | dismiss ha =>
    refine .inr (.inr fun chore' hmem => ?_)
    obtain ⟨w, -, hmem⟩ := List.mem_flatMap.1 hmem
    simp only [List.mem_cons, List.not_mem_nil, or_false] at hmem
    rcases hmem with rfl | rfl <;> trivial
  | @shrink c' h =>
    by_cases hc : c' = c
    · subst hc
      by_cases hlast : place + 1 = (f.posts c').length
      · exact .inr (.inl ⟨by simp, hlast⟩)
      · refine .inr (.inr fun chore' hmem => ?_)
        simp only [List.mem_cons, List.not_mem_nil, or_false] at hmem
        rcases hmem with rfl | rfl
        · exact fun _ => by omega
        · exact fun _ => by omega
    · refine .inr (.inr fun chore' hmem => ?_)
      simp only [List.mem_cons, List.not_mem_nil, or_false] at hmem
      rcases hmem with rfl | rfl <;> exact fun hc' => absurd hc' hc
  | @inspect c' posts n f' v hm ha =>
    by_cases hc : c' = c
    · subst hc
      rcases hm.stays hpost with hclosed | hpost'
      · exact .inl ⟨_, List.mem_append_left _
          (replaced_mem_events (List.mem_of_getElem? hpost) hclosed), .replaced⟩
      · rcases frees_or_spares_of_verdict v hpost' with ⟨e, he, hfrees⟩ | hnext
        · exact .inl ⟨e, List.mem_append_right _ he, hfrees⟩
        · exact .inr (.inr hnext)
    · exact .inr (.inr (spares_of_verdict_of_ne v hc))

theorem Chore.Spares.resize {place size size' : Nat} (h : chore.Spares c place size)
    (hne : chore ≠ .release c) : chore.Spares c place size' := by
  cases chore with
  | release c' => exact fun hc => absurd (congrArg Chore.release hc) hne
  | _ => exact h

theorem Chore.Spares.not_staffs {place size : Nat} (h : chore.Spares c place size) :
    ¬chore.Staffs c := by
  rintro (rfl | rfl | rfl) <;> exact h rfl

/-- Chores come to change the size of a crew only when the category is to grow. -/
theorem Chore.Move.not_staffs (m : Chore.Move now f chore es' chores' f')
    (hstaff : ¬chore.Staffs c) : .grew c ∈ es' ∨ ∀ chore' ∈ chores', ¬chore'.Staffs c := by
  cases m with
  | idle | clear | enlist | close | join => exact .inr (by simp)
  | reset | wait | vacant | release => exact .inr (by simp [Chore.Staffs])
  | shrink => exact .inr (by simp [Chore.Staffs])
  | resetAll => exact .inr (by simp [Chore.Staffs])
  | @grow c' h =>
    have hc : c' ≠ c := fun hc => hstaff (.inl (hc ▸ rfl))
    exact .inr (by simp [Chore.Staffs, hc])
  | dismiss ha =>
    refine .inr fun chore' hmem => ?_
    obtain ⟨w, -, hmem⟩ := List.mem_flatMap.1 hmem
    simp only [List.mem_cons, List.not_mem_nil, or_false] at hmem
    rcases hmem with rfl | rfl <;> simp [Chore.Staffs]
  | @inspect c' posts n f' v hm ha =>
    cases v with
    | grow =>
      by_cases hc : c' = c
      · subst hc
        exact .inl (List.mem_append_right _ (List.mem_singleton_self _))
      · exact .inr (by simp [Chore.ofVerdict, Chore.Staffs, hc])
    | _ => exact .inr (by simp [Chore.ofVerdict, Chore.Staffs])

/-- The chores that take a writer out of a crew change its size in no other way. -/
theorem Chore.Move.not_staffs_of_release (m : Chore.Move now f chore es' chores' f')
    (hrelease : .release c ∈ chores') : ∀ chore' ∈ chores', ¬chore'.Staffs c := by
  obtain ⟨rfl, -⟩ := m.release_of_mem hrelease
  cases m with
  | idle => simp
  | shrink => simp [Chore.Staffs]

/-! ## Fleets in which keys stay -/

/-- Every post is at its place with the keys it had, and perhaps new ones. -/
structure Keeps (f f' : Fleet) : Prop where
  stays : ∀ (c : Category) (place : Nat) (post : Post), (f.posts c)[place]? = some post →
    ∃ post' : Post, (f'.posts c)[place]? = some post' ∧ post'.writer.id = post.writer.id ∧
      ∀ k ∈ post.keys, k ∈ post'.keys
  length_eq : ∀ c, (f'.posts c).length = (f.posts c).length

theorem Routes.mono {posts posts' : List Post} {place : Nat} (h : Routes posts key place posts')
    {i : Nat} {post : Post} (hpost : posts[i]? = some post) :
    ∃ post', posts'[i]? = some post' ∧ post'.writer.id = post.writer.id ∧
      ∀ k ∈ post.keys, k ∈ post'.keys := by
  cases h with
  | owned => exact ⟨post, hpost, rfl, fun _ hk => hk⟩
  | new =>
    rw [List.getElem?_modify, hpost]
    split_ifs
    · exact ⟨_, rfl, rfl, fun k hk => List.mem_append_left _ hk⟩
    · exact ⟨_, rfl, rfl, fun k hk => hk⟩

theorem Routes.mem_keys {posts posts' : List Post} {place : Nat} (h : Routes posts key place posts')
    {post : Post} (hpost : posts[place]? = some post) :
    ∃ post', posts'[place]? = some post' ∧ post'.writer.id = post.writer.id ∧ key ∈ post'.keys := by
  cases h with
  | owned hpost' hkey =>
    obtain rfl := Option.some.inj (hpost.symm.trans hpost')
    exact ⟨post, hpost, rfl, hkey⟩
  | new =>
    rw [List.getElem?_modify_eq, hpost]
    exact ⟨_, rfl, rfl, List.mem_append_right _ (List.mem_singleton_self _)⟩

/-- Whatever is done to the writers, each by itself, moves no keys. -/
theorem keeps_mapWriters {g : Writer → Writer} (hid : ∀ w, (g w).id = w.id) (f : Fleet) :
    Keeps f (f.mapWriters g) where
  stays c place post hpost := by
    rw [posts_mapWriters, List.getElem?_map, hpost]
    exact ⟨_, rfl, hid post.writer, fun k hk => hk⟩
  length_eq c := by rw [posts_mapWriters, List.length_map]

theorem keeps_replace (f : Fleet) (w : Writer) : Keeps f (f.replace w) := by
  apply keeps_mapWriters
  intro v
  split_ifs with he
  · exact he.symm
  · rfl

theorem Keeps.refl (f : Fleet) : Keeps f f :=
  ⟨fun _ _ post hpost => ⟨post, hpost, rfl, fun _ hk => hk⟩, fun _ => rfl⟩

theorem Keeps.trans {f₁ f₂ f₃ : Fleet} (h : Keeps f₁ f₂) (h' : Keeps f₂ f₃) : Keeps f₁ f₃ where
  stays c place post hpost := by
    obtain ⟨post', hpost', hid, hkeys⟩ := h.stays c place post hpost
    obtain ⟨post'', hpost'', hid', hkeys'⟩ := h'.stays c place post' hpost'
    exact ⟨post'', hpost'', hid'.trans hid, fun k hk => hkeys' k (hkeys k hk)⟩
  length_eq c := (h'.length_eq c).trans (h.length_eq c)

theorem keeps_send {s : Slot} {r : Request} {note : Note} (hs : f.send? s r = some (f', note)) :
    Keeps f f' := by
  obtain ⟨post', w, hpost', hw, ha⟩ := send_spec hs
  refine ⟨fun c place post hpost => ?_, ha.length_eq (List.length_set ..)⟩
  by_cases hc : c = s.category
  · subst hc
    rw [ha.posts_eq, List.getElem?_set]
    split_ifs with hplace hlt
    · subst hplace
      obtain rfl := Option.some.inj (hpost.symm.trans hpost')
      exact ⟨_, rfl, (Writer.send?_frame hw).1, fun k hk => hk⟩
    · exact absurd (List.getElem?_eq_some_iff.1 hpost).1 (hplace ▸ hlt)
    · exact ⟨post, hpost, rfl, fun k hk => hk⟩
  · exact ⟨post, by rw [ha.posts_of_ne hc]; exact hpost, rfl, fun k hk => hk⟩

theorem keeps_route (hposts : f.posts c ≠ []) (key : String) : Keeps f (f.route c key).2 := by
  obtain ⟨place', posts', -, hroutes, ha⟩ := route_spec key hposts
  refine ⟨fun c' place post hpost => ?_, ha.length_eq hroutes.length_eq⟩
  by_cases hc : c' = c
  · subst hc
    rw [ha.posts_eq]
    exact hroutes.mono hpost
  · exact ⟨post, by rw [ha.posts_of_ne hc]; exact hpost, rfl, fun k hk => hk⟩

/-! ## Keys that are held -/

namespace Held

/-- A chore that spares the post leaves the key where it is, or leads to one that takes the writer
out of the crew. -/
theorem keeps_step {place : Nat} {post : Post} (hpost : (f.posts c)[place]? = some post)
    (hkey : key ∈ post.keys)
    (hspare : ∀ chore' ∈ chore :: chores, chore'.Spares c place (f.posts c).length)
    (hcrewed : Crewed f (chore :: chores)) (m : Chore.Move now f chore es' chores' f') :
    (∃ e ∈ es', Frees c post.writer.id e) ∨ Held f' (chores' ++ chores) c key post.writer.id := by
  have hdismiss : chore ≠ .dismiss c := fun he => hcrewed.dismiss c (he ▸ List.mem_cons_self)
  have hhead := hspare chore List.mem_cons_self
  have henlist : chore ≠ .enlist c := fun he => hhead.not_staffs (.inr (.inl he))
  rcases m.spares hpost hhead with hfreed | hnext
  · exact .inl hfreed
  rcases m.stays hpost (fun he => by subst he; exact hhead rfl) hdismiss with
    hreplaced | ⟨post', hpost', hid', hkeys⟩
  · exact .inl ⟨_, hreplaced, .replaced⟩
  right
  rcases hnext with ⟨hrelease, hlast⟩ | hnext
  · have hshrink := (m.release_of_mem hrelease).1
    have hlen := m.length_eq c henlist (by simp [hshrink]) hdismiss
    refine .leaves hpost' hid' (by rw [hlen]; exact hlast) (List.mem_append_left _ hrelease) ?_
    intro chore' hmem
    rcases List.mem_append.1 hmem with hmem | hmem
    · exact m.not_staffs_of_release hrelease chore' hmem
    · exact (hspare chore' (List.mem_cons_of_mem _ hmem)).not_staffs
  · have hkeys' := hkeys fun steps due he => by subst he; exact hhead rfl rfl
    refine .keeps hpost' hid' (by rw [hkeys']; exact hkey) ?_
    intro chore' hmem
    have hold : chore'.Spares c place (f.posts c).length := by
      rcases List.mem_append.1 hmem with hmem | hmem
      · exact hnext chore' hmem
      · exact hspare chore' (List.mem_cons_of_mem _ hmem)
    by_cases hrelease : chore = .release c
    · apply hold.resize
      intro he
      subst hrelease he
      rcases List.mem_append.1 hmem with hmem | hmem
      · exact absurd (m.release_of_mem hmem).1 (by simp)
      · exact hcrewed.no_release hmem
    · rwa [m.length_eq c henlist hrelease hdismiss]

/-- The last writer of a crew that is about to be taken out of it stays until then. -/
theorem leaves_step {place : Nat} {post : Post} (hpost : (f.posts c)[place]? = some post)
    (hlast : place + 1 = (f.posts c).length) (hrelease : .release c ∈ chore :: chores)
    (hstaff : ∀ chore' ∈ chore :: chores, ¬chore'.Staffs c)
    (m : Chore.Move now f chore es' chores' f') :
    (∃ e ∈ es', Frees c post.writer.id e) ∨ Held f' (chores' ++ chores) c key post.writer.id := by
  have hhead := hstaff chore List.mem_cons_self
  have hdismiss : chore ≠ .dismiss c := fun he => hhead (.inr (.inr he))
  by_cases he : chore = .release c
  · subst he
    left
    cases m with
    | idle hidle => simp [Chore.mayIdle] at hidle
    | vacant hposts ha => simp [hposts] at hpost
    | @release c posts last f' hposts ha =>
      refine ⟨_, List.mem_singleton_self _, ?_⟩
      rw [hposts, List.length_append, List.length_singleton] at hlast
      rw [hposts, List.getElem?_append_right (by omega)] at hpost
      obtain rfl : last = post := by simpa [show place - posts.length = 0 by omega] using hpost
      exact .removed
  rcases m.stays hpost (fun he' => absurd he' he) hdismiss with
    hreplaced | ⟨post', hpost', hid', -⟩
  · exact .inl ⟨_, hreplaced, .replaced⟩
  rcases m.not_staffs hhead with hgrew | hnext
  · exact .inl ⟨_, hgrew, .grew⟩
  right
  have hlen := m.length_eq c (fun he' => hhead (.inr (.inl he'))) he hdismiss
  have hrelease' := (List.mem_cons.1 hrelease).resolve_left fun he' => he he'.symm
  refine .leaves hpost' hid' (by rw [hlen]; exact hlast) (List.mem_append_right _ hrelease') ?_
  intro chore' hmem
  rcases List.mem_append.1 hmem with hmem | hmem
  · exact hnext chore' hmem
  · exact hstaff chore' (List.mem_cons_of_mem _ hmem)

/-- While chores are done a key stays with its writer, unless an event frees it. -/
theorem chore_step (h : Held f (chore :: chores) c key id) (hcrewed : Crewed f (chore :: chores))
    (m : Chore.Move now f chore es' chores' f') :
    (∃ e ∈ es', Frees c id e) ∨ Held f' (chores' ++ chores) c key id := by
  cases h with
  | keeps hpost hid hkey hspare =>
    subst hid
    exact keeps_step hpost hkey hspare hcrewed m
  | leaves hpost hid hlast hrelease hstaff =>
    subst hid
    exact leaves_step hpost hlast hrelease hstaff m

/-- Where posts stay and keep their keys, a key is held as it was. -/
theorem congr (h : Held f chores c key id) (hk : Keeps f f') : Held f' chores c key id := by
  have hlen := hk.length_eq c
  cases h with
  | @keeps place post hpost hid hkey hspare =>
    obtain ⟨post', hpost', hid', hkeys⟩ := hk.stays c place post hpost
    exact .keeps hpost' (hid'.trans hid) (hkeys key hkey) (by rwa [hlen])
  | @leaves place post hpost hid hlast hrelease hstaff =>
    obtain ⟨post', hpost', hid', -⟩ := hk.stays c place post hpost
    exact .leaves hpost' (hid'.trans hid) (hlast.trans hlen.symm) hrelease hstaff

theorem owned (h : Held f [] c key id) :
    ∃ (place : Nat) (post : Post), (f.posts c)[place]? = some post ∧ post.writer.id = id ∧
      key ∈ post.keys := by
  cases h with
  | keeps hpost hid hkey _ => exact ⟨_, _, hpost, hid, hkey⟩
  | leaves _ _ _ hrelease _ => exact absurd hrelease (by simp)

theorem check (h : Held f [] c key id) : Held f checkChores c key id := by
  obtain ⟨place, post, hpost, hid, hkey⟩ := h.owned
  exact .keeps hpost hid hkey (by simp [checkChores, Chore.Spares])

end Held

/-! ## Runs -/

/-- The events from the last time on that the key was routed to the writer free no keys of its. -/
def Since (c : Category) (key : String) (id : Nat) (es : List Event) : Prop :=
  ∃ past later, es = past ++ .routed c key id :: later ∧ ∀ e ∈ later, ¬Frees c id e

theorem split_of_not_mem {α : Type} {l r es ev : List α} {a : α} (h : es ++ ev = l ++ a :: r)
    (ha : a ∉ ev) : ∃ r', r = r' ++ ev ∧ es = l ++ a :: r' := by
  rcases List.append_eq_append_iff.1 h with ⟨m, -, hev⟩ | ⟨m, hes, hr⟩
  · exact absurd (hev ▸ List.mem_append_right _ List.mem_cons_self) ha
  · cases m with
    | nil => exact absurd (hr ▸ List.mem_cons_self : a ∈ [] ++ ev) ha
    | cons b m =>
      obtain ⟨rfl, rfl⟩ := List.cons.inj hr
      exact ⟨m, rfl, hes⟩

theorem split_of_rerouted {ev past between later : List Event} {id' : Nat}
    (hmem : .routed c key id' ∉ ev)
    (he : es ++ ev = past ++ .routed c key id :: (between ++ .routed c key id' :: later)) :
    ∃ later', es = past ++ .routed c key id :: (between ++ .routed c key id' :: later') := by
  rw [← List.cons_append, ← List.append_assoc] at he
  obtain ⟨later', -, hes⟩ := split_of_not_mem he hmem
  exact ⟨later', by rw [hes]; simp⟩

theorem Since.of_append (h : Since c key id (es ++ es')) (hrouted : .routed c key id ∉ es') :
    Since c key id es ∧ ∀ e ∈ es', ¬Frees c id e := by
  obtain ⟨past, later, he, hfree⟩ := h
  obtain ⟨later', rfl, hes⟩ := split_of_not_mem he hrouted
  exact ⟨⟨past, later', hes, fun e hmem => hfree e (List.mem_append_left _ hmem)⟩,
    fun e hmem => hfree e (List.mem_append_right _ hmem)⟩

/-- The key is held by the writer to which it was routed. -/
theorem held_of_route {post : Post} (hpost : (f.posts c)[(f.route c key).1.place]? = some post) :
    Held (f.route c key).2 [] c key post.writer.id := by
  obtain ⟨place, posts', hslot, hroutes, ha⟩ :=
    route_spec key (List.ne_nil_of_mem (List.mem_of_getElem? hpost))
  rw [hslot] at hpost
  obtain ⟨post', hpost', hid, hkey⟩ := hroutes.mem_keys hpost
  exact .keeps (by rw [ha.posts_eq]; exact hpost') hid hkey (by simp)

namespace Run

/-- A key stays with the writer to which it was routed last, until an event frees it. -/
theorem held (h : Run p es now f chores) (hopen : .dismissed ∉ es) (hsince : Since c key id es) :
    Held f chores c key id := by
  induction h with
  | start now t =>
    obtain ⟨past, later, he, -⟩ := hsince
    exact absurd he (by simp)
  | wait _ _ ih => exact ih hopen hsince
  | write _ _ _ ih =>
    obtain ⟨hsince, -⟩ := hsince.of_append (by simp)
    exact (ih (fun hmem => hopen (List.mem_append_left _ hmem)) hsince).congr (keeps_replace _ _)
  | @route es now f c' key' post hrun hopen' hpost ih =>
    by_cases hmem : Event.routed c key id ∈ [Event.routed c' key' post.writer.id]
    · obtain ⟨rfl, rfl, rfl⟩ : c = c' ∧ key = key' ∧ id = post.writer.id := by simpa using hmem
      exact held_of_route hpost
    · obtain ⟨hsince, -⟩ := hsince.of_append hmem
      exact (ih hopen' hsince).congr (keeps_route ((hrun.crewed hopen').ne_nil c') key')
  | send _ hopen' hs _ ih =>
    obtain ⟨hsince, -⟩ := hsince.of_append (by simp)
    exact (ih hopen' hsince).congr (keeps_send hs)
  | check _ _ ih => exact (ih hopen hsince).check
  | dismiss _ _ _ => exact absurd (List.mem_append_right _ (List.mem_singleton_self _)) hopen
  | chore hrun hstep ih =>
    have hmove := Chore.move_of_step? hstep
    have hopen' := fun hmem => hopen (List.mem_append_left _ hmem)
    obtain ⟨hsince, hfree⟩ := hsince.of_append (hmove.not_mem rfl)
    rcases (ih hopen' hsince).chore_step (hrun.crewed hopen') hmove with ⟨e, hmem, hfrees⟩ | hheld
    · exact absurd hfrees (hfree e hmem)
    · exact hheld

/-- Routing a key that is held leads to its writer. -/
theorem route_of_held (h : Run p es now f []) (hheld : Held f [] c key id) {post : Post}
    (hpost : (f.posts c)[(f.route c key).1.place]? = some post) : post.writer.id = id := by
  obtain ⟨place, owner, howner, hid, hkey⟩ := hheld.owned
  obtain ⟨place', posts', hslot, hroutes, -⟩ :=
    route_spec key (List.ne_nil_of_mem (List.mem_of_getElem? hpost))
  rw [hslot] at hpost
  cases hroutes with
  | owned hpost' hkey' =>
    obtain rfl := place_eq_of_owns (h.nodup_keys c) howner hpost' hkey hkey'
    rw [← hid, Option.some.inj (hpost.symm.trans howner)]
  | new hlt hnew => exact absurd hkey (hnew owner (List.mem_of_getElem? howner))

/-- Between two routings of one key to different writers an event took it from the former. -/
theorem frees_between (h : Run p es now f chores) (hopen : .dismissed ∉ es)
    {past between later : List Event} {id' : Nat}
    (he : es = past ++ .routed c key id :: (between ++ .routed c key id' :: later))
    (hne : id ≠ id') : ∃ e ∈ between, Frees c id e := by
  by_contra hfree
  have hfree : ∀ e ∈ between, ¬Frees c id e := fun e hmem hfrees => hfree ⟨e, hmem, hfrees⟩
  induction h generalizing later with
  | start now t => exact absurd he (by simp)
  | wait _ _ ih => exact ih hopen he
  | write _ _ _ ih =>
    obtain ⟨later', hes⟩ := split_of_rerouted (by simp) he
    exact ih (fun hmem => hopen (List.mem_append_left _ hmem)) hes
  | @route es now f c' key' post hrun hopen' hpost ih =>
    rcases List.eq_nil_or_concat later with rfl | ⟨later', last, rfl⟩
    · rw [← List.cons_append, ← List.append_assoc] at he
      obtain ⟨hes, hlast⟩ := List.append_inj' he rfl
      obtain ⟨rfl, rfl, rfl⟩ : c' = c ∧ key' = key ∧ post.writer.id = id' := by simpa using hlast
      exact hne (hrun.route_of_held (hrun.held hopen' ⟨past, between, hes, hfree⟩) hpost).symm
    · rw [List.concat_eq_append, ← List.cons_append, ← List.append_assoc, ← List.cons_append,
        ← List.append_assoc] at he
      exact ih hopen' ((List.append_inj' he rfl).1.trans (List.append_assoc ..))
  | send _ hopen' _ _ ih =>
    obtain ⟨later', hes⟩ := split_of_rerouted (by simp) he
    exact ih hopen' hes
  | check _ _ ih => exact ih hopen he
  | dismiss _ _ _ => exact absurd (List.mem_append_right _ (List.mem_singleton_self _)) hopen
  | chore _ hstep ih =>
    obtain ⟨later', hes⟩ := split_of_rerouted ((Chore.move_of_step? hstep).not_mem rfl) he
    exact ih (fun hmem => hopen (List.mem_append_left _ hmem)) hes

end Run

end BmpFeed.Fleet
