import BmpFeed.Proofs.Fleet.Roster
import BmpFeed.Proofs.Writer.Leaving

/-!
# The staff of a fleet

`Staff` says which writers are in the crews of a fleet and which are not: those in a crew take
requests, those outside are waited for, and those that were taken out do not come back. `Run.staff`
shows that it holds all through a run, together with the roster of the writers.
-/

namespace BmpFeed.Fleet

/-- What holds of a fleet at any time. -/
structure Staff (p : Policy) (es : List Event) (now : Nat) (f : Fleet) (chores : List Chore) :
    Prop where
  policy_eq : f.policy = p
  roster : Roster p es now f.nextId f.writers
  /-- Nobody has closed the queue of a writer in a crew. -/
  open_ : ∀ c, ∀ post ∈ f.posts c, post.writer.closing = false
  /-- Only queues of writers outside the crews are to be closed. -/
  closes : ∀ id, .close id ∈ chores → id < f.nextId ∧ ∀ c, ∀ post ∈ f.posts c, post.writer.id ≠ id
  /-- The writers outside the crews are waited for. -/
  joins : ∀ w ∈ f.leaving, .join w.id ∈ chores
  /-- A writer that was taken out of a crew does not come back. -/
  removed : ∀ c id, .removed c id ∈ es →
    id < f.nextId ∧ ∀ c', ∀ post ∈ f.posts c', post.writer.id ≠ id
  /-- Only writers that had died were replaced. -/
  replaced : ∀ c id, .replaced c id ∈ es → .died ∈ of id es

variable {p : Policy} {es es' : List Event} {now now' : Nat} {f f' : Fleet} {c : Category}
  {chore : Chore} {chores chores' : List Chore}

theorem Roster.leaving_ne_post {n : Nat} (h : Roster p es now n f.writers) {w : Writer}
    (hw : w ∈ f.leaving) {post : Post} (hpost : post ∈ f.posts c) : post.writer.id ≠ w.id := by
  have hnodup := ((f.writers_perm c).map Writer.id).nodup_iff.1 h.nodup
  rw [List.map_append] at hnodup
  intro he
  refine List.disjoint_of_nodup_append hnodup
    (List.mem_map_of_mem (List.mem_map_of_mem hpost)) ?_
  rw [he]
  exact List.mem_map_of_mem (List.mem_append_right _ hw)

/-- Writers differ in their numbers, so that one is changed where it is. -/
theorem map_update_eq_set {ws : List Writer} {w w' : Writer} {i : Nat}
    (hnodup : (ws.map Writer.id).Nodup) (hi : ws[i]? = some w) (hid : w'.id = w.id) :
    (ws.map fun v => if v.id = w'.id then w' else v) = ws.set i w' := by
  apply List.ext_getElem?
  intro j
  rw [List.getElem?_map, List.getElem?_set]
  split_ifs with hij hlt
  · subst hij
    rw [hi, Option.map_some, if_pos hid.symm]
  · exact absurd (List.getElem?_eq_some_iff.1 hi).1 (hij ▸ hlt)
  · cases hj : ws[j]? with
    | none => rfl
    | some v =>
      refine congrArg some (if_neg fun he => hij ?_)
      obtain ⟨hi', hwi⟩ := List.getElem?_eq_some_iff.1 hi
      obtain ⟨hj', hvj⟩ := List.getElem?_eq_some_iff.1 hj
      refine (List.getElem?_inj (by simpa using hi') hnodup).1 ?_
      rw [List.getElem?_map, List.getElem?_map, hi, hj, Option.map_some, Option.map_some, he, hid]

/-! ## Where posts come from -/

theorem Chore.Manned.le {n n' : Nat} {posts posts' : List Post}
    (h : Chore.Manned p now n posts n' posts') : n ≤ n' := by
  induction h with
  | nil => exact Nat.le_refl _
  | keep _ _ ih => exact ih
  | fill _ _ _ ih => exact Nat.le_of_succ_le ih

theorem Chore.Manned.origin {n n' : Nat} {posts posts' : List Post}
    (h : Chore.Manned p now n posts n' posts') :
    ∀ post' ∈ posts', post' ∈ posts ∨ (n ≤ post'.writer.id ∧ post'.writer.closing = false) := by
  induction h with
  | nil => simp
  | keep hopen _ ih =>
    intro post' hpost'
    rcases List.mem_cons.1 hpost' with rfl | hpost'
    · exact .inl List.mem_cons_self
    · exact (ih post' hpost').imp_left (List.mem_cons_of_mem _)
  | fill t hclosed _ ih =>
    intro post' hpost'
    rcases List.mem_cons.1 hpost' with rfl | hpost'
    · exact .inr ⟨Nat.le_refl _, rfl⟩
    · rcases ih post' hpost' with hpost' | ⟨hle, hopen⟩
      · exact .inl (List.mem_cons_of_mem _ hpost')
      · exact .inr ⟨Nat.le_of_succ_le hle, hopen⟩

/-- The writer of a post was in the crew before, or it is new. -/
def Origin (f : Fleet) (c : Category) (post' : Post) : Prop :=
  (∃ post ∈ f.posts c, post.writer = post'.writer) ∨
    f.nextId ≤ post'.writer.id ∧ post'.writer.closing = false

theorem Alters.origin {posts : List Post} {leaving : List Writer} {n : Nat}
    (h : Alters f c posts leaving n f') (hposts : ∀ post' ∈ posts, Origin f c post')
    {c' : Category} {post' : Post} (hpost' : post' ∈ f'.posts c') : Origin f c' post' := by
  by_cases hc : c' = c
  · subst hc
    rw [h.posts_eq] at hpost'
    exact hposts post' hpost'
  · rw [h.posts_of_ne hc] at hpost'
    exact .inl ⟨post', hpost', rfl⟩

theorem closeQueue_posts {id : Nat} (h : ∀ c, ∀ post ∈ f.posts c, post.writer.id ≠ id)
    (c : Category) : (f.closeQueue id).posts c = f.posts c := by
  unfold Fleet.closeQueue
  rw [posts_mapWriters]
  refine (List.map_congr_left fun post hpost => ?_).trans (List.map_id _)
  unfold Post.mapWriter
  dsimp only
  rw [if_neg (h c post hpost)]
  rfl

/-- A chore hires, or it leaves the writers of the crews as they are. -/
theorem Chore.Move.origin (m : Chore.Move now f chore es' chores' f')
    (hclose : ∀ id, chore = .close id → ∀ c, ∀ post ∈ f.posts c, post.writer.id ≠ id)
    {c' : Category} {post' : Post} (hpost' : post' ∈ f'.posts c') : Origin f c' post' := by
  cases m with
  | idle | reset | wait | resetAll | grow | shrink => exact .inl ⟨post', hpost', rfl⟩
  | inspect v hm ha =>
    refine ha.origin (fun post hpost => ?_) hpost'
    exact (hm.origin post hpost).imp_left fun h => ⟨post, h, rfl⟩
  | @clear c place post f' steps due hpost hqueue ha =>
    refine ha.origin (fun post hpost => ?_) hpost'
    have hmem := List.mem_map_of_mem (f := Post.writer) hpost
    rw [map_modify_same Post.writer_cleared] at hmem
    exact .inl (List.mem_map.1 hmem)
  | enlist he =>
    obtain ⟨t, ha⟩ := he
    refine ha.origin (fun post hpost => ?_) hpost'
    rcases List.mem_append.1 hpost with hpost | hpost
    · exact .inl ⟨post, hpost, rfl⟩
    · rw [List.mem_singleton.1 hpost]
      exact .inr ⟨Nat.le_refl _, rfl⟩
  | vacant hposts ha => exact ha.origin (by simp) hpost'
  | release hposts ha =>
    refine ha.origin (fun post hpost => ?_) hpost'
    exact .inl ⟨post, by rw [hposts]; exact List.mem_append_left _ hpost, rfl⟩
  | close id =>
    rw [closeQueue_posts (hclose id rfl)] at hpost'
    exact .inl ⟨post', hpost', rfl⟩
  | join hw hclosed =>
    refine .inl ⟨post', ?_, rfl⟩
    cases c' <;> exact hpost'
  | dismiss ha => exact ha.origin (by simp) hpost'

theorem Chore.Move.nextId_le (m : Chore.Move now f chore es' chores' f') :
    f.nextId ≤ f'.nextId := by
  cases m with
  | inspect v hm ha => rw [ha.nextId_eq]; exact hm.le
  | enlist he =>
    obtain ⟨t, ha⟩ := he
    rw [ha.nextId_eq]
    exact Nat.le_succ _
  | clear _ _ _ _ ha | vacant _ ha | release _ ha | dismiss ha =>
    exact Nat.le_of_eq ha.nextId_eq.symm
  | _ => exact Nat.le_refl _

theorem Chore.Move.policy_eq (m : Chore.Move now f chore es' chores' f') :
    f'.policy = f.policy := by
  cases m with
  | enlist he =>
    obtain ⟨t, ha⟩ := he
    exact ha.policy_eq
  | inspect _ _ ha | clear _ _ _ _ ha | vacant _ ha | release _ ha | dismiss ha =>
    exact ha.policy_eq
  | _ => rfl

/-! ## What a chore leaves behind -/

/-- Whoever is outside the crews after a chore was there before, or is to be waited for. -/
theorem Chore.Move.leaving (m : Chore.Move now f chore es' chores' f') {id : Nat}
    (hid : id ∈ f'.leaving.map Writer.id) :
    (id ∈ f.leaving.map Writer.id ∧ chore ≠ .join id) ∨ .join id ∈ chores' := by
  cases m with
  | idle hidle hjoin =>
    refine .inl ⟨hid, fun he => ?_⟩
    obtain ⟨w, hw, hwid⟩ := List.mem_map.1 hid
    exact hjoin id he w hw hwid
  | reset | wait | resetAll | grow | shrink => exact .inl ⟨hid, by simp⟩
  | inspect _ _ ha | clear _ _ _ _ ha | vacant _ ha =>
    rw [ha.leaving_eq] at hid
    exact .inl ⟨hid, by simp⟩
  | enlist he =>
    obtain ⟨t, ha⟩ := he
    rw [ha.leaving_eq] at hid
    exact .inl ⟨hid, by simp⟩
  | release _ ha =>
    rw [ha.leaving_eq, List.map_append, List.mem_append] at hid
    rcases hid with hid | hid
    · exact .inl ⟨hid, by simp⟩
    · obtain rfl := List.mem_singleton.1 hid
      exact .inr (by simp)
  | close id' =>
    refine .inl ⟨?_, by simp⟩
    obtain ⟨w, hw, rfl⟩ := List.mem_map.1 hid
    obtain ⟨v, hv, rfl⟩ := List.mem_map.1 hw
    refine List.mem_map.2 ⟨v, hv, ?_⟩
    split_ifs <;> rfl
  | join hw hclosed =>
    obtain ⟨v, hv, rfl⟩ := List.mem_map.1 hid
    obtain ⟨hv, hne⟩ := List.mem_filter.1 hv
    refine .inl ⟨List.mem_map_of_mem hv, fun he => ?_⟩
    rw [Chore.join.injEq] at he
    simp [he] at hne
  | dismiss ha =>
    rw [ha.leaving_eq, List.map_append, List.mem_append] at hid
    rcases hid with hid | hid
    · exact .inl ⟨hid, by simp⟩
    · obtain ⟨w, hw, rfl⟩ := List.mem_map.1 hid
      exact .inr (List.mem_flatMap.2 ⟨w, hw, by simp⟩)

/-- Only queues of writers outside the crews come to be closed. -/
theorem Chore.Move.mem_leaving_of_close (m : Chore.Move now f chore es' chores' f') {id : Nat}
    (hclose : .close id ∈ chores') : ∃ w ∈ f'.leaving, w.id = id := by
  cases m with
  | inspect v hm ha => cases v <;> simp [Chore.ofVerdict] at hclose
  | resetAll => simp at hclose
  | @release c posts post f' hposts ha =>
    rw [ha.leaving_eq]
    obtain rfl : id = post.writer.id := by simpa using hclose
    exact ⟨_, List.mem_append_right _ (List.mem_singleton_self _), rfl⟩
  | dismiss ha =>
    rw [ha.leaving_eq]
    obtain ⟨w, hw, hmem⟩ := List.mem_flatMap.1 hclose
    obtain rfl : id = w.id := by simpa using hmem
    exact ⟨w, List.mem_append_right _ hw, rfl⟩
  | _ => simp at hclose

theorem Chore.Move.mem_leaving_of_removed (m : Chore.Move now f chore es' chores' f') {id : Nat}
    (hremoved : .removed c id ∈ es') : ∃ w ∈ f'.leaving, w.id = id := by
  cases m with
  | inspect v hm ha =>
    rcases List.mem_append.1 hremoved with h | h
    · simp [Chore.replacedEvents] at h
    · cases v <;> simp [Chore.verdictEvents] at h
  | @release c posts post f' hposts ha =>
    rw [ha.leaving_eq]
    obtain ⟨-, rfl⟩ : _ ∧ id = post.writer.id := by simpa using hremoved
    exact ⟨_, List.mem_append_right _ (List.mem_singleton_self _), rfl⟩
  | _ => simp at hremoved

theorem Chore.Move.closed_of_replaced (m : Chore.Move now f chore es' chores' f') {id : Nat}
    (hreplaced : .replaced c id ∈ es') :
    ∃ post ∈ f.posts c, post.writer.isClosed = true ∧ post.writer.id = id := by
  cases m with
  | inspect v hm ha =>
    rcases List.mem_append.1 hreplaced with h | h
    · obtain ⟨post, hpost, he⟩ := List.mem_map.1 h
      obtain ⟨hpost, hclosed⟩ := List.mem_filter.1 hpost
      obtain ⟨rfl, rfl⟩ := Event.replaced.injEq .. ▸ he
      exact ⟨post, hpost, hclosed, rfl⟩
    · cases v <;> simp [Chore.verdictEvents] at h
  | _ => simp at hreplaced

/-! ## The invariant -/

namespace Staff

/-- A writer in a crew that reads its queue no more has died. -/
theorem died_of_closed (h : Staff p es now f chores) {post : Post} (hpost : post ∈ f.posts c)
    (hclosed : post.writer.isClosed = true) : .died ∈ of post.writer.id es :=
  (h.roster.runs _ (mem_writers_of_post hpost)).died_of_closed (h.open_ c post hpost) hclosed

/-- A writer in a crew that still reads its queue has not died. -/
theorem not_died (h : Staff p es now f chores) {post : Post} (hpost : post ∈ f.posts c)
    (hopen : post.writer.isClosed = false) : .died ∉ of post.writer.id es := by
  intro hdied
  have hcrashed := (h.roster.runs _ (mem_writers_of_post hpost)).crashed_of_died hdied
  simp [Writer.isClosed, hcrashed] at hopen

theorem chore_step (h : Staff p es now f (chore :: chores))
    (m : Chore.Move now f chore es' chores' f') :
    Staff p (es ++ es') now f' (chores' ++ chores) := by
  have hroster := h.roster.chore h.policy_eq m
  have hclose : ∀ id, chore = .close id → ∀ c, ∀ post ∈ f.posts c, post.writer.id ≠ id :=
    fun id he => (h.closes id (he ▸ List.mem_cons_self)).2
  -- a number that no post had is not given to one
  have hnever : ∀ {id}, id < f.nextId → (∀ c, ∀ post ∈ f.posts c, post.writer.id ≠ id) →
      id < f'.nextId ∧ ∀ c, ∀ post ∈ f'.posts c, post.writer.id ≠ id := by
    refine fun hlt hne => ⟨Nat.lt_of_lt_of_le hlt m.nextId_le, fun c post hpost => ?_⟩
    rcases m.origin hclose hpost with ⟨post', hpost', he⟩ | ⟨hle, -⟩
    · rw [← he]
      exact hne c post' hpost'
    · omega
  -- and neither is that of a writer outside the crews
  have houtside : ∀ {id}, (∃ w ∈ f'.leaving, w.id = id) →
      id < f'.nextId ∧ ∀ c, ∀ post ∈ f'.posts c, post.writer.id ≠ id := by
    rintro _ ⟨w, hw, rfl⟩
    exact ⟨hroster.lt w (mem_writers_of_leaving hw), fun c post hpost =>
      hroster.leaving_ne_post hw hpost⟩
  constructor
  · rw [m.policy_eq, h.policy_eq]
  · exact hroster
  · intro c post hpost
    rcases m.origin hclose hpost with ⟨post', hpost', he⟩ | ⟨-, hopen⟩
    · rw [← he]
      exact h.open_ c post' hpost'
    · exact hopen
  · intro id hid
    rcases List.mem_append.1 hid with hid | hid
    · exact houtside (m.mem_leaving_of_close hid)
    · obtain ⟨hlt, hne⟩ := h.closes id (List.mem_cons_of_mem _ hid)
      exact hnever hlt hne
  · intro w hw
    rcases m.leaving (List.mem_map_of_mem hw) with ⟨hold, hne⟩ | hjoin
    · obtain ⟨v, hv, he⟩ := List.mem_map.1 hold
      have hjoin := h.joins v hv
      rw [he] at hjoin
      exact List.mem_append_right _ ((List.mem_cons.1 hjoin).resolve_left fun he => hne he.symm)
    · exact List.mem_append_left _ hjoin
  · intro c id hid
    rcases List.mem_append.1 hid with hid | hid
    · obtain ⟨hlt, hne⟩ := h.removed c id hid
      exact hnever hlt hne
    · exact houtside (m.mem_leaving_of_removed hid)
  · intro c id hid
    rw [of_append]
    rcases List.mem_append.1 hid with hid | hid
    · exact List.mem_append_left _ (h.replaced c id hid)
    · obtain ⟨post, hpost, hclosed, rfl⟩ := m.closed_of_replaced hid
      exact List.mem_append_left _ (h.died_of_closed hpost hclosed)

theorem start (p : Policy) (now : Nat) (t : Store) : Staff p [] now (Fleet.start p now t).1 [] := by
  refine start_induction (P := fun f => Staff p [] now f []) p now t ?_ ?_
  · intro f hp hposts hleaving hid
    have hwriters : f.writers = [] := by
      simpa [hposts, hleaving] using f.writers_perm .general
    exact ⟨hp, by rw [hwriters, hid]; exact .empty p now, by simp [hposts], by simp,
      by simp [hleaving], by simp, by simp⟩
  · intro f c f' h he
    have hmove : Chore.Move now f (.enlist c) [] [] f' := .enlist he
    have hwait : Staff p [] now f [.enlist c] :=
      { h with closes := by simp, joins := fun w hw => by simpa using h.joins w hw }
    exact hwait.chore_step hmove

theorem wait (h : Staff p es now f chores) (hle : now ≤ now') : Staff p es now' f chores :=
  { h with roster := h.roster.wait hle }

/-- Chores come up that close no queue. -/
theorem assign (h : Staff p es now f []) (hchores : ∀ id, .close id ∉ chores) :
    Staff p es now f chores :=
  { h with
    closes := fun id hid => absurd hid (hchores id)
    joins := fun w hw => absurd (h.joins w hw) (by simp) }

/-- Events that are about no writer's own doing. -/
theorem office (h : Staff p es now f chores) (hoff : ∀ e ∈ es', e.isOffice = true)
    (hremoved : ∀ c id, .removed c id ∉ es') (hreplaced : ∀ c id, .replaced c id ∉ es') :
    Staff p (es ++ es') now f chores :=
  { h with
    roster := h.roster.office hoff
    removed := fun c id hid =>
      h.removed c id ((List.mem_append.1 hid).resolve_right (hremoved c id))
    replaced := fun c id hid => by
      rw [of_append]
      exact List.mem_append_left _
        (h.replaced c id ((List.mem_append.1 hid).resolve_right (hreplaced c id))) }

/-- Writers go on in their runs where they are. -/
theorem update (h : Staff p es now f chores)
    (hroster : Roster p (es ++ es') now f'.nextId f'.writers) (hp : f'.policy = f.policy)
    (hnext : f'.nextId = f.nextId)
    (hposts : ∀ c, ∀ post' ∈ f'.posts c, ∃ post ∈ f.posts c,
      post'.writer.id = post.writer.id ∧ post'.writer.closing = post.writer.closing)
    (hleaving : f'.leaving.map Writer.id = f.leaving.map Writer.id)
    (hremoved : ∀ c id, .removed c id ∉ es') (hreplaced : ∀ c id, .replaced c id ∉ es') :
    Staff p (es ++ es') now f' chores where
  policy_eq := hp.trans h.policy_eq
  roster := hroster
  open_ c post' hpost' := by
    obtain ⟨post, hpost, -, he⟩ := hposts c post' hpost'
    exact he.trans (h.open_ c post hpost)
  closes id hid := by
    obtain ⟨hlt, hne⟩ := h.closes id hid
    refine ⟨hnext ▸ hlt, fun c post' hpost' => ?_⟩
    obtain ⟨post, hpost, he, -⟩ := hposts c post' hpost'
    exact he ▸ hne c post hpost
  joins w hw := by
    have hmem := List.mem_map_of_mem (f := Writer.id) hw
    rw [hleaving] at hmem
    obtain ⟨v, hv, he⟩ := List.mem_map.1 hmem
    exact he ▸ h.joins v hv
  removed c id hid := by
    obtain ⟨hlt, hne⟩ := h.removed c id ((List.mem_append.1 hid).resolve_right (hremoved c id))
    refine ⟨hnext ▸ hlt, fun c' post' hpost' => ?_⟩
    obtain ⟨post, hpost, he, -⟩ := hposts c' post' hpost'
    exact he ▸ hne c' post hpost
  replaced c id hid := by
    rw [of_append]
    exact List.mem_append_left _
      (h.replaced c id ((List.mem_append.1 hid).resolve_right (hreplaced c id)))

theorem write {t : Store} {w : Writer} {turn : Writer.Turn} (h : Staff p es now f chores)
    (hw : w ∈ f.writers) (hstep : w.step? now t = some turn) :
    Staff p (es ++ (w.events t).map (.writer w.id)) now (f.replace turn.writer) chores := by
  have hmove := Writer.move_of_step? hstep
  unfold Fleet.replace
  refine h.update ?_ rfl rfl (fun c post' hpost' => ?_) ?_ (by simp) (by simp)
  · rw [writers_mapWriters]
    refine h.roster.update hw hmove.frame.1 (fun id hne => of_writer_of_ne hne.symm _) ?_ (by simp)
    rw [of_writer]
    exact (h.roster.runs w hw).step hstep
  · rw [posts_mapWriters] at hpost'
    obtain ⟨post, hpost, rfl⟩ := List.mem_map.1 hpost'
    refine ⟨post, hpost, ?_⟩
    rw [Post.writer_mapWriter]
    split_ifs with he
    · have hsame : post.writer = w :=
        List.inj_on_of_nodup_map h.roster.nodup (mem_writers_of_post hpost) hw
          (he.trans hmove.frame.1)
      exact ⟨he.symm, hsame ▸ hmove.frame.2⟩
    · exact ⟨rfl, rfl⟩
  · unfold mapWriters
    rw [List.map_map]
    apply List.map_congr_left
    intro v _
    simp only [Function.comp_apply]
    split_ifs with he
    · exact he.symm
    · rfl

theorem route {key : String} {post : Post} (h : Staff p es now f chores)
    (hpost : (f.posts c)[(f.route c key).1.place]? = some post) :
    Staff p (es ++ [.routed c key post.writer.id]) now (f.route c key).2 chores := by
  obtain ⟨place, posts', -, hroutes, ha⟩ :=
    route_spec key (List.ne_nil_of_mem (List.mem_of_getElem? hpost))
  have hoffice : ∀ e ∈ [Event.routed c key post.writer.id], e.isOffice = true := by
    simp [Event.isOffice]
  have hwriters := hroutes.writers_eq
  refine h.update ((h.roster.office hoffice).alters ha ?_) ha.policy_eq ha.nextId_eq
    (fun c' post' hpost' => ?_) (by rw [ha.leaving_eq]) (by simp) (by simp)
  · rw [hwriters]
  · by_cases hc : c' = c
    · subst hc
      rw [ha.posts_eq] at hpost'
      have hmem := List.mem_map_of_mem (f := Post.writer) hpost'
      rw [hwriters] at hmem
      obtain ⟨post, hpost, he⟩ := List.mem_map.1 hmem
      exact ⟨post, hpost, by rw [he], by rw [he]⟩
    · rw [ha.posts_of_ne hc] at hpost'
      exact ⟨post', hpost', rfl, rfl⟩

theorem send {s : Slot} {r : Request} {note : Note} {post : Post} (h : Staff p es now f chores)
    (hs : f.send? s r = some (f', note)) (hpost : (f.posts s.category)[s.place]? = some post) :
    Staff p (es ++ [.delivered s.category post.writer.id r]) now f' chores := by
  obtain ⟨post', w, hpost', hw, ha⟩ := send_spec hs
  obtain rfl : post = post' := Option.some.inj (hpost.symm.trans hpost')
  have hmem : post ∈ f.posts s.category := List.mem_of_getElem? hpost
  have hopen := h.open_ _ post hmem
  have hrun := (h.roster.runs _ (mem_writers_of_post hmem)).send hopen hw
  obtain ⟨hid, hclosing⟩ := Writer.send?_frame hw
  refine h.update ?_ ha.policy_eq ha.nextId_eq (fun c' post' hpost' => ?_)
    (by rw [ha.leaving_eq]) (by simp) (by simp)
  · have hperm := f.writers_perm s.category
    have hnodup := (hperm.map Writer.id).nodup_iff.1 h.roster.nodup
    rw [ha.nextId_eq]
    refine (h.roster.update (mem_writers_of_post hmem) hid
      (fun id hne => of_delivered_of_ne hne.symm _ _) (by rwa [of_delivered]) (by simp)).perm ?_
    refine (hperm.map _).trans (.trans (.of_eq ?_) ha.writers_perm.symm)
    have hplace : s.place < ((f.posts s.category).map Post.writer).length := by
      rw [List.length_map]
      exact (List.getElem?_eq_some_iff.1 hpost).1
    rw [map_update_eq_set hnodup (i := s.place) (w := post.writer) ?_ hid,
      List.set_append_left _ _ hplace, List.map_set]
    rw [List.getElem?_append_left hplace, List.getElem?_map, hpost]
    rfl
  · by_cases hc : c' = s.category
    · subst hc
      rw [ha.posts_eq] at hpost'
      rcases List.mem_or_eq_of_mem_set hpost' with hpost' | rfl
      · exact ⟨post', hpost', rfl, rfl⟩
      · exact ⟨post, hmem, hid, hclosing⟩
    · rw [ha.posts_of_ne hc] at hpost'
      exact ⟨post', hpost', rfl, rfl⟩

end Staff

/-- The staff is in order all through a run. -/
theorem Run.staff (h : Run p es now f chores) : Staff p es now f chores := by
  induction h with
  | start now t => exact .start p now t
  | wait _ hle ih => exact ih.wait hle
  | write _ hw hstep ih => exact ih.write hw hstep
  | route c key _ _ hpost ih => exact ih.route hpost
  | send _ _ hs hpost ih => exact ih.send hs hpost
  | check _ _ ih => exact ih.assign (by simp [checkChores])
  | dismiss _ _ ih =>
    exact (ih.assign (by simp [shutdownChores])).office (by simp [Event.isOffice]) (by simp)
      (by simp)
  | chore _ hstep ih => exact ih.chore_step (Chore.move_of_step? hstep)

end BmpFeed.Fleet
