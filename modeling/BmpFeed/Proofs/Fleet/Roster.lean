import BmpFeed.Proofs.Fleet.Run
import Mathlib.Data.List.Nodup

/-!
# The roster of a fleet

No two writers have the same number, each of them is in a run of its own, and whoever was hired and
is no longer there has been retired or replaced. The lemmas show how a roster changes when writers
are hired, closed, replaced or struck, and when one of them makes a step; `Roster.chore` puts them
together for the chores of a fleet.
-/

namespace BmpFeed.Fleet

/-- What is known of some writers when the next one has the number `nextId`. -/
structure Roster (p : Policy) (es : List Event) (now nextId : Nat) (ws : List Writer) : Prop where
  nodup : (ws.map Writer.id).Nodup
  lt : ∀ w ∈ ws, w.id < nextId
  runs : ∀ w ∈ ws, Writer.Run p.writer p.queueSize (of w.id es) now w
  fresh : ∀ id, nextId ≤ id → of id es = []
  retired : ∀ w, .retired w ∈ es → w.isClosed = true ∧ w.id < nextId ∧ w.id ∉ ws.map Writer.id ∧
    ∃ n, Writer.Run p.writer p.queueSize (of w.id es) n w
  known : ∀ id < nextId,
    id ∈ ws.map Writer.id ∨ (∃ w, .retired w ∈ es ∧ w.id = id) ∨ ∃ c, .replaced c id ∈ es

namespace Roster

variable {p : Policy} {es es' : List Event} {now now' n : Nat} {ws ws' : List Writer}
  {w w' : Writer}

theorem empty (p : Policy) (now : Nat) : Roster p [] now 0 [] :=
  ⟨by simp, by simp, by simp, fun _ _ => rfl, by simp, by simp⟩

theorem perm (h : Roster p es now n ws) (hperm : ws.Perm ws') : Roster p es now n ws' where
  nodup := (hperm.map Writer.id).nodup_iff.1 h.nodup
  lt w hw := h.lt w (hperm.mem_iff.2 hw)
  runs w hw := h.runs w (hperm.mem_iff.2 hw)
  fresh := h.fresh
  retired w hw := by
    rw [← (hperm.map Writer.id).mem_iff]
    exact h.retired w hw
  known id hid := by
    rw [← (hperm.map Writer.id).mem_iff]
    exact h.known id hid

theorem wait (h : Roster p es now n ws) (hle : now ≤ now') : Roster p es now' n ws :=
  { h with runs := fun w hw => (h.runs w hw).wait hle }

/-- Every writer that was not replaced is or was in a run of its own. -/
theorem exists_run (h : Roster p es now n ws) {id : Nat} (hrep : ∀ c, .replaced c id ∉ es) :
    of id es = [] ∨ ∃ n w, Writer.Run p.writer p.queueSize (of id es) n w := by
  by_cases hlt : id < n
  · rcases h.known id hlt with hmem | ⟨w, hw, rfl⟩ | ⟨c, hc⟩
    · obtain ⟨w, hw, rfl⟩ := List.mem_map.1 hmem
      exact .inr ⟨now, w, h.runs w hw⟩
    · obtain ⟨-, -, -, n', hrun⟩ := h.retired w hw
      exact .inr ⟨n', w, hrun⟩
    · exact absurd hc (hrep c)
  · exact .inl (h.fresh id (Nat.le_of_not_lt hlt))

/-- Events that are about no writer's own doing change nothing. -/
theorem office (h : Roster p es now n ws) (hoff : ∀ e ∈ es', e.isOffice = true) :
    Roster p (es ++ es') now n ws where
  nodup := h.nodup
  lt := h.lt
  runs w hw := by
    rw [of_append, of_office hoff, List.append_nil]
    exact h.runs w hw
  fresh id hid := by
    rw [of_append, of_office hoff, List.append_nil]
    exact h.fresh id hid
  retired w hw := by
    rw [of_append, of_office hoff, List.append_nil]
    rcases List.mem_append.1 hw with hw | hw
    · exact h.retired w hw
    · exact absurd (hoff _ hw) (by simp [Event.isOffice])
  known id hid := by
    rcases h.known id hid with hid | ⟨w, hw, he⟩ | ⟨c, hc⟩
    · exact .inl hid
    · exact .inr (.inl ⟨w, List.mem_append_left _ hw, he⟩)
    · exact .inr (.inr ⟨c, List.mem_append_left _ hc⟩)

theorem hire (h : Roster p es now n ws) (t : Store) :
    Roster p es now (n + 1) (ws ++ [(Writer.hire n p.writer p.queueSize now t).1]) := by
  have hid : (Writer.hire n p.writer p.queueSize now t).1.id = n := rfl
  have hnew : n ∉ ws.map Writer.id := by
    intro hmem
    obtain ⟨w, hw, he⟩ := List.mem_map.1 hmem
    exact absurd (h.lt w hw) (by omega)
  constructor
  · rw [List.map_append, List.map_singleton, hid]
    exact h.nodup.append (List.nodup_singleton n) (by simpa using hnew)
  · intro w hw
    rcases List.mem_append.1 hw with hw | hw
    · exact Nat.lt_succ_of_lt (h.lt w hw)
    · rw [List.mem_singleton.1 hw, hid]
      exact Nat.lt_succ_self n
  · intro w hw
    rcases List.mem_append.1 hw with hw | hw
    · exact h.runs w hw
    · rw [List.mem_singleton.1 hw, hid, h.fresh n (Nat.le_refl n)]
      exact .hire n now t
  · exact fun id hle => h.fresh id (Nat.le_of_succ_le hle)
  · intro w hw
    obtain ⟨hclosed, hlt, hnot, hrun⟩ := h.retired w hw
    refine ⟨hclosed, Nat.lt_succ_of_lt hlt, ?_, hrun⟩
    rw [List.map_append, List.map_singleton, hid, List.mem_append, List.mem_singleton]
    exact not_or.2 ⟨hnot, Nat.ne_of_lt hlt⟩
  · intro id hlt
    rw [List.map_append, List.map_singleton, hid, List.mem_append, List.mem_singleton]
    rcases Nat.lt_succ_iff_lt_or_eq.1 hlt with hlt | rfl
    · exact (h.known id hlt).imp_left .inl
    · exact .inl (.inr rfl)

/-- Whatever is done to the writers, each by itself and without events. -/
theorem map (h : Roster p es now n ws) {g : Writer → Writer} (hid : ∀ w, (g w).id = w.id)
    (hrun : ∀ evs w, Writer.Run p.writer p.queueSize evs now w →
      Writer.Run p.writer p.queueSize evs now (g w)) : Roster p es now n (ws.map g) := by
  have hids : (ws.map g).map Writer.id = ws.map Writer.id := by
    rw [List.map_map]
    exact List.map_congr_left fun w _ => hid w
  constructor
  · rw [hids]
    exact h.nodup
  · intro w hw
    obtain ⟨v, hv, rfl⟩ := List.mem_map.1 hw
    rw [hid]
    exact h.lt v hv
  · intro w hw
    obtain ⟨v, hv, rfl⟩ := List.mem_map.1 hw
    rw [hid]
    exact hrun _ v (h.runs v hv)
  · exact h.fresh
  · rw [hids]
    exact h.retired
  · rw [hids]
    exact h.known

/-- One writer goes on in its run. -/
theorem update (h : Roster p es now n ws) (hw : w ∈ ws) (hid : w'.id = w.id)
    (hof : ∀ id, id ≠ w.id → of id es' = [])
    (hrun : Writer.Run p.writer p.queueSize (of w.id es ++ of w.id es') now w')
    (hret : ∀ v, .retired v ∉ es') :
    Roster p (es ++ es') now n (ws.map fun v => if v.id = w'.id then w' else v) := by
  have hids : (ws.map fun v => if v.id = w'.id then w' else v).map Writer.id =
      ws.map Writer.id := by
    rw [List.map_map]
    apply List.map_congr_left
    intro v _
    simp only [Function.comp_apply]
    split_ifs with he
    · exact he.symm
    · rfl
  have hlt := h.lt w hw
  constructor
  · rw [hids]
    exact h.nodup
  · intro v hv
    obtain ⟨u, hu, rfl⟩ := List.mem_map.1 hv
    split_ifs with he
    · rwa [hid]
    · exact h.lt u hu
  · intro v hv
    obtain ⟨u, hu, rfl⟩ := List.mem_map.1 hv
    rw [of_append]
    split_ifs with he
    · rwa [hid]
    · rw [hof u.id (hid ▸ he), List.append_nil]
      exact h.runs u hu
  · intro id hle
    rw [of_append, h.fresh id hle, hof id (by omega), List.nil_append]
  · intro v hv
    rcases List.mem_append.1 hv with hv | hv
    · obtain ⟨hclosed, hlt', hnot, hrun'⟩ := h.retired v hv
      have hne : v.id ≠ w.id := fun he => hnot (he ▸ List.mem_map_of_mem hw)
      rw [hids, of_append, hof v.id hne, List.append_nil]
      exact ⟨hclosed, hlt', hnot, hrun'⟩
    · exact absurd hv (hret v)
  · intro id hid'
    rw [hids]
    rcases h.known id hid' with hid' | ⟨v, hv, he⟩ | ⟨c, hc⟩
    · exact .inl hid'
    · exact .inr (.inl ⟨v, List.mem_append_left _ hv, he⟩)
    · exact .inr (.inr ⟨c, List.mem_append_left _ hc⟩)

/-- A writer that was replaced is no longer there. -/
theorem drop (h : Roster p es now n (w :: ws)) {c : Category} (hrep : .replaced c w.id ∈ es) :
    Roster p es now n ws where
  nodup := (List.nodup_cons.1 h.nodup).2
  lt v hv := h.lt v (List.mem_cons_of_mem _ hv)
  runs v hv := h.runs v (List.mem_cons_of_mem _ hv)
  fresh := h.fresh
  retired v hv := by
    obtain ⟨hclosed, hlt, hnot, hrun⟩ := h.retired v hv
    exact ⟨hclosed, hlt, fun hmem => hnot (List.mem_cons_of_mem _ hmem), hrun⟩
  known id hid := by
    rcases h.known id hid with hid | hid
    · rcases List.mem_cons.1 hid with rfl | hid
      · exact .inr (.inr ⟨c, hrep⟩)
      · exact .inl hid
    · exact .inr hid

/-- A writer that is closed is struck. -/
theorem strike (h : Roster p es now n ws) (hw : w ∈ ws) (hclosed : w.isClosed = true) :
    Roster p (es ++ [.retired w]) now n (ws.filter fun v => v.id ≠ w.id) := by
  have hof : ∀ id, of id [.retired w] = [] := fun id => rfl
  constructor
  · exact h.nodup.sublist (List.filter_sublist.map _)
  · exact fun v hv => h.lt v (List.mem_of_mem_filter hv)
  · intro v hv
    rw [of_append, hof, List.append_nil]
    exact h.runs v (List.mem_of_mem_filter hv)
  · intro id hid
    rw [of_append, hof, List.append_nil]
    exact h.fresh id hid
  · intro v hv
    rw [of_append, hof, List.append_nil]
    rcases List.mem_append.1 hv with hv | hv
    · obtain ⟨hclosed', hlt, hnot, hrun⟩ := h.retired v hv
      exact ⟨hclosed', hlt, fun hmem => hnot ((List.filter_sublist.map _).subset hmem), hrun⟩
    · obtain rfl : v = w := by simpa using hv
      refine ⟨hclosed, h.lt v hw, ?_, now, h.runs v hw⟩
      simp
  · intro id hid
    rcases h.known id hid with hid | ⟨v, hv, he⟩ | ⟨c, hc⟩
    · obtain ⟨v, hv, rfl⟩ := List.mem_map.1 hid
      by_cases he : v.id = w.id
      · exact .inr (.inl ⟨w, by simp, he.symm⟩)
      · exact .inl (List.mem_map_of_mem (List.mem_filter.2 ⟨hv, by simpa using he⟩))
    · exact .inr (.inl ⟨v, List.mem_append_left _ hv, he⟩)
    · exact .inr (.inr ⟨c, List.mem_append_left _ hc⟩)

/-- The closed writers among some posts are replaced. -/
theorem manned {c : Category} {posts posts' : List Post} {n' : Nat}
    (hm : Chore.Manned p now n posts n' posts')
    (h : Roster p es now n (posts.map Post.writer ++ ws))
    (hrep : ∀ post ∈ posts, post.writer.isClosed = true → .replaced c post.writer.id ∈ es) :
    Roster p es now n' (posts'.map Post.writer ++ ws) := by
  induction hm generalizing ws with
  | nil => exact h
  | keep hopen hrest ih =>
    have hrest' := ih (h.perm (List.perm_middle.symm))
      fun post hpost => hrep post (List.mem_cons_of_mem _ hpost)
    exact hrest'.perm List.perm_middle
  | @fill n n' post posts posts' t hclosed hrest ih =>
    have hdrop : Roster p es now n (posts.map Post.writer ++ ws) :=
      h.drop (hrep post List.mem_cons_self hclosed)
    have hhire := hdrop.hire t
    rw [List.append_assoc] at hhire
    have hrest' := ih hhire fun post hpost => hrep post (List.mem_cons_of_mem _ hpost)
    refine hrest'.perm ?_
    rw [← List.append_assoc]
    exact List.perm_append_singleton ..

section Chores

variable {f f' : Fleet} {c : Category} {posts : List Post}

/-- The writers are the same, wherever they are. -/
theorem alters {leaving : List Writer} (h : Roster p es now f.nextId f.writers)
    (ha : Alters f c posts leaving f.nextId f')
    (hperm : ((f.posts c).map Post.writer ++ f.leaving).Perm (posts.map Post.writer ++ leaving)) :
    Roster p es now f'.nextId f'.writers := by
  rw [ha.nextId_eq]
  refine h.perm ((f.writers_perm c).trans (.trans ?_ ha.writers_perm.symm))
  refine (List.perm_append_comm_assoc ..).trans (.trans ?_ (List.perm_append_comm_assoc ..))
  exact hperm.append_left _

theorem enlist (hp : f.policy = p) (h : Roster p es now f.nextId f.writers)
    (he : f.Enlists c now f') : Roster p es now f'.nextId f'.writers := by
  obtain ⟨t, ha⟩ := he
  rw [ha.nextId_eq]
  refine (h.hire t).perm (.trans ?_ ha.writers_perm.symm)
  rw [List.map_append, List.map_singleton, List.append_assoc, opened, hp]
  refine ((f.writers_perm c).append_right _).trans ?_
  rw [List.append_assoc]
  exact List.perm_append_comm.append_left _

theorem closeQueue (h : Roster p es now n f.writers) (id : Nat) :
    Roster p es now n (f.closeQueue id).writers := by
  unfold Fleet.closeQueue
  rw [writers_mapWriters]
  refine h.map (fun w => ?_) fun evs w hrun => ?_
  · split_ifs <;> rfl
  · split_ifs
    · exact hrun.shut
    · exact hrun

/-- The crews do not know the writers outside of them. -/
theorem filter_leaving (h : Roster p es now n f.writers) (hw : w ∈ f.leaving) :
    f.writers.filter (fun v => v.id ≠ w.id) =
      { f with leaving := f.leaving.filter fun v => v.id ≠ w.id : Fleet }.writers := by
  have hnodup := h.nodup
  unfold writers at hnodup ⊢
  rw [List.filter_append]
  refine congrArg (· ++ _) (List.filter_eq_self.2 fun v hv => ?_)
  rw [List.map_append] at hnodup
  have hne := List.disjoint_of_nodup_append hnodup (List.mem_map_of_mem hv)
  simpa using fun he : v.id = w.id => hne (he ▸ List.mem_map_of_mem hw)

/-- A step of a chore keeps the roster. -/
theorem chore {chore : Chore} {chores : List Chore} (hp : f.policy = p)
    (h : Roster p es now f.nextId f.writers) (m : Chore.Move now f chore es' chores f') :
    Roster p (es ++ es') now f'.nextId f'.writers := by
  have hoffice := m.office
  cases m with
  | idle => simpa using h
  | reset => simpa using h
  | wait => simpa using h
  | resetAll => simpa using h
  | grow => simpa using h
  | shrink => simpa using h
  | inspect v hm ha =>
    rename_i c posts n
    rcases hoffice with hoffice | ⟨w, hw, -⟩
    swap
    · exact absurd hw (by simp)
    have hrest := ((h.office hoffice).perm (f.writers_perm c))
    rw [hp] at hm
    rw [ha.nextId_eq]
    refine (manned (c := c) hm hrest fun post hpost hclosed => ?_).perm ha.writers_perm.symm
    refine List.mem_append_right _ (List.mem_append_left _ (List.mem_map.2 ⟨post, ?_, rfl⟩))
    exact List.mem_filter.2 ⟨hpost, hclosed⟩
  | @clear c place post f' steps due hpost hqueue ha =>
    rw [List.append_nil]
    refine h.alters ha (.of_eq ?_)
    rw [map_modify_same Post.writer_cleared]
  | enlist he =>
    rw [List.append_nil]
    exact h.enlist hp he
  | vacant hposts ha =>
    rw [List.append_nil]
    exact h.alters ha (by rw [hposts])
  | @release c posts post f' hposts ha =>
    rcases hoffice with hoffice | ⟨w, hw, -⟩
    swap
    · exact absurd hw (by simp)
    refine (h.office hoffice).alters ha ?_
    rw [hposts, List.map_append, List.append_assoc]
    exact List.perm_append_comm.append_left _
  | close id =>
    rw [List.append_nil]
    exact h.closeQueue id
  | @join w hw hclosed =>
    rw [← h.filter_leaving hw]
    exact h.strike (mem_writers_of_leaving hw) hclosed
  | dismiss ha =>
    rw [List.append_nil]
    exact h.alters ha (List.perm_append_comm)

end Chores

end Roster

end BmpFeed.Fleet
