import BmpFeed.Proofs.Fleet.Sticky

/-!
# Deliveries

What the queues of the writers took, seen from the fleet: every delivery is in the queue of one
writer, and all deliveries to a writer came through the crew of one category, for it is never in
another.
-/

namespace BmpFeed.Fleet

variable {p : Policy} {es es' : List Event} {now : Nat} {f f' : Fleet} {c c' : Category}
  {chores : List Chore} {id : Nat} {r r' : Request}

/-- The requests that were delivered, in order. -/
def delivered (es : List Event) : List Request := (deliveries es).map Prod.snd

@[simp] theorem delivered_append (es es' : List Event) :
    delivered (es ++ es') = delivered es ++ delivered es' := by
  simp [delivered]

theorem delivered_eq_nil {es : List Event} (hof : ∀ id, of id es = []) :
    delivered es = [] := by
  rw [delivered, deliveries_eq_nil hof, List.map_nil]

theorem delivered_writer (id : Nat) (evs : List Writer.Event) :
    delivered (evs.map (.writer id)) = [] := by
  rw [delivered, deliveries_writer, List.map_nil]

/-! ## What the queues took -/

/-- The queue of a writer takes what is delivered to it, and nothing else. -/
theorem Run.accepted_of (h : Run p es now f chores) (id : Nat) :
    Writer.accepted (of id es) = ((deliveries es).filter fun x => x.1 = id).map Prod.snd := by
  induction h with
  | start => rfl
  | wait _ _ ih => exact ih
  | @write es now f chores t w turn _ _ hstep ih =>
    rw [deliveries_append, deliveries_writer, List.append_nil, of_append, Writer.accepted_append,
      ih]
    by_cases hid : w.id = id
    · subst hid
      rw [of_writer, (Writer.move_of_step? hstep).accepted_eq, List.append_nil]
    · rw [of_writer_of_ne hid]
      exact List.append_nil _
  | route _ _ _ _ _ ih => simpa [of, deliveries] using ih
  | @send es now f f' s r note post _ _ _ _ ih =>
    rw [of_append, Writer.accepted_append, deliveries_append, List.filter_append, List.map_append,
      ih]
    by_cases hid : post.writer.id = id <;> simp [of, deliveries, Writer.accepted, hid]
  | check _ _ ih => exact ih
  | dismiss _ _ ih => simpa [of, deliveries] using ih
  | chore _ hstep ih =>
    have hmove := Chore.move_of_step? hstep
    rw [of_append, hmove.of_eq, List.append_nil, deliveries_append,
      deliveries_eq_nil hmove.of_eq, List.append_nil]
    exact ih

theorem Run.exists_delivered (h : Run p es now f chores)
    (hmem : r ∈ Writer.accepted (of id es)) : ∃ c, .delivered c id r ∈ es := by
  rw [h.accepted_of] at hmem
  obtain ⟨⟨i, r'⟩, hx, rfl⟩ := List.mem_map.1 hmem
  obtain ⟨hx, hi⟩ := List.mem_filter.1 hx
  obtain ⟨e, he, hdelivery⟩ := List.mem_filterMap.1 hx
  cases e with
  | delivered c i' r'' =>
    obtain ⟨rfl, rfl⟩ : i' = i ∧ r'' = r' := by simpa using hdelivery
    obtain rfl : i' = id := by simpa using hi
    exact ⟨c, he⟩
  | _ => simp at hdelivery

theorem Run.lt_of_delivered (h : Run p es now f chores) {id : Nat} {r : Request}
    (hmem : (id, r) ∈ deliveries es) : id < f.nextId := by
  by_contra hle
  have hacc : r ∈ Writer.accepted (of id es) := by
    rw [h.accepted_of]
    exact List.mem_map_of_mem (List.mem_filter.2 ⟨hmem, by simp⟩)
  rw [h.staff.roster.fresh id (Nat.le_of_not_lt hle)] at hacc
  exact absurd hacc (by simp [Writer.accepted])

theorem perm_flatMap_filter {α : Type} {n : Nat} {l : List (Nat × α)} (h : ∀ x ∈ l, x.1 < n) :
    ((List.range n).flatMap fun i => (l.filter fun x => x.1 = i).map Prod.snd).Perm
      (l.map Prod.snd) := by
  induction n generalizing l with
  | zero =>
    obtain rfl : l = [] := List.eq_nil_iff_forall_not_mem.2 fun x hx => absurd (h x hx) (by simp)
    exact .refl _
  | succ n ih =>
    have hlast : (l.filter fun x => x.1 = n) = l.filter fun x => !decide (x.1 < n) := by
      apply List.filter_congr
      intro x hx
      have hlt := h x hx
      by_cases he : x.1 = n
      · simp [he]
      · simp [he, show x.1 < n by omega]
    have hfirst : ∀ i ∈ List.range n, ((l.filter fun x => x.1 = i).map Prod.snd) =
        ((l.filter fun x => x.1 < n).filter fun x => x.1 = i).map Prod.snd := by
      intro i hi
      rw [List.filter_filter]
      refine congrArg _ (List.filter_congr fun x _ => ?_)
      by_cases he : x.1 = i
      · simp [he, List.mem_range.1 hi]
      · simp [he]
    rw [List.range_succ, List.flatMap_append, List.flatMap_singleton, hlast,
      List.flatMap_congr hfirst]
    refine ((ih (by simp)).append_right _).trans ?_
    rw [← List.map_append]
    exact (List.filter_append_perm _ l).map _

/-- What was delivered is in the queues of the writers, each request in one. -/
theorem Run.accepted_perm (h : Run p es now f chores) :
    ((List.range f.nextId).flatMap fun id => Writer.accepted (of id es)).Perm
      ((deliveries es).map Prod.snd) := by
  simp only [h.accepted_of]
  exact perm_flatMap_filter fun x hx => h.lt_of_delivered hx

/-! ## Crews -/

theorem Keeps.origin (h : Keeps f f') {post' : Post} (hpost' : post' ∈ f'.posts c) :
    ∃ post ∈ f.posts c, post.writer.id = post'.writer.id := by
  obtain ⟨place, hlt, hplace⟩ := List.getElem_of_mem hpost'
  have hlt' : place < (f.posts c).length := h.length_eq c ▸ hlt
  obtain ⟨post, hpost, hid, -⟩ := h.stays c place _ (List.getElem?_eq_getElem hlt')
  obtain rfl : post = post' :=
    Option.some.inj (hpost.symm.trans (List.getElem?_eq_some_iff.2 ⟨hlt, hplace⟩))
  exact ⟨_, List.getElem_mem hlt', hid.symm⟩

/-- A writer is in one crew at most. -/
theorem category_eq_of_posts (hnodup : (f.writers.map Writer.id).Nodup) {post post' : Post}
    (hpost : post ∈ f.posts c) (hpost' : post' ∈ f.posts c')
    (hid : post'.writer.id = post.writer.id) : c' = c := by
  by_contra hne
  obtain rfl := (Category.eq_or_eq_other c c').resolve_left hne
  have hnodup := ((f.writers_perm c).map Writer.id).nodup_iff.1 hnodup
  rw [List.map_append, List.map_append] at hnodup
  refine List.disjoint_of_nodup_append hnodup
    (List.mem_map_of_mem (List.mem_map_of_mem hpost)) (List.mem_append_left _ ?_)
  rw [← hid]
  exact List.mem_map_of_mem (List.mem_map_of_mem hpost')

namespace Run

/-- A writer to which something was delivered is in no other crew. -/
theorem category_of_delivered (h : Run p es now f chores) (hmem : .delivered c id r ∈ es)
    {post' : Post} (hpost' : post' ∈ f.posts c') (hid : post'.writer.id = id) : c' = c := by
  induction h generalizing c' post' with
  | start => simp at hmem
  | wait _ _ ih => exact ih hmem hpost' hid
  | check _ _ ih => exact ih hmem hpost' hid
  | dismiss _ _ ih =>
    exact ih ((List.mem_append.1 hmem).resolve_right (by simp)) hpost' hid
  | write _ _ _ ih =>
    obtain ⟨post, hpost, he⟩ := (keeps_replace _ _).origin hpost'
    exact ih ((List.mem_append.1 hmem).resolve_right (by simp)) hpost (he.trans hid)
  | route c₀ key hrun hopen _ ih =>
    obtain ⟨post, hpost, he⟩ := (keeps_route ((hrun.crewed hopen).ne_nil c₀) key).origin hpost'
    exact ih ((List.mem_append.1 hmem).resolve_right (by simp)) hpost (he.trans hid)
  | send hrun _ hs howner ih =>
    obtain ⟨post, hpost, he⟩ := (keeps_send hs).origin hpost'
    rcases List.mem_append.1 hmem with hmem | hmem
    · exact ih hmem hpost (he.trans hid)
    · simp only [List.mem_singleton, Event.delivered.injEq] at hmem
      obtain ⟨rfl, rfl, -⟩ := hmem
      exact category_eq_of_posts hrun.staff.roster.nodup (List.mem_of_getElem? howner) hpost
        (he.trans hid)
  | @chore es now f chore chores t turn hrun hstep ih =>
    have hmove := Chore.move_of_step? hstep
    have hpast := (List.mem_append.1 hmem).resolve_right (hmove.not_mem rfl)
    have hclose : ∀ id, chore = .close id → ∀ c, ∀ post ∈ f.posts c, post.writer.id ≠ id :=
      fun id he => (hrun.staff.closes id (by simp [he])).2
    rcases hmove.origin hclose hpost' with ⟨post, hpost, he⟩ | ⟨hnew, -⟩
    · exact ih hpast hpost (he ▸ hid)
    · have hlt := hrun.lt_of_delivered (List.mem_filterMap.2 ⟨_, hpast, rfl⟩)
      omega

/-- All that was delivered to a writer came through one crew. -/
theorem category_unique (h : Run p es now f chores) (hmem : .delivered c id r ∈ es)
    (hmem' : .delivered c' id r' ∈ es) : c' = c := by
  induction h with
  | start => simp at hmem
  | wait _ _ ih => exact ih hmem hmem'
  | check _ _ ih => exact ih hmem hmem'
  | dismiss _ _ ih | write _ _ _ ih | route _ _ _ _ _ ih =>
    exact ih ((List.mem_append.1 hmem).resolve_right (by simp))
      ((List.mem_append.1 hmem').resolve_right (by simp))
  | chore _ hstep ih =>
    have hmove := Chore.move_of_step? hstep
    exact ih ((List.mem_append.1 hmem).resolve_right (hmove.not_mem rfl))
      ((List.mem_append.1 hmem').resolve_right (hmove.not_mem rfl))
  | send hrun _ _ howner ih =>
    have hpost := List.mem_of_getElem? howner
    rcases List.mem_append.1 hmem with hmem | hmem <;>
      rcases List.mem_append.1 hmem' with hmem' | hmem'
    · exact ih hmem hmem'
    · simp only [List.mem_singleton, Event.delivered.injEq] at hmem'
      obtain ⟨rfl, rfl, -⟩ := hmem'
      exact hrun.category_of_delivered hmem hpost rfl
    · simp only [List.mem_singleton, Event.delivered.injEq] at hmem
      obtain ⟨rfl, rfl, -⟩ := hmem
      exact (hrun.category_of_delivered hmem' hpost rfl).symm
    · simp only [List.mem_singleton, Event.delivered.injEq] at hmem hmem'
      exact hmem'.1.trans hmem.1.symm

end Run

end BmpFeed.Fleet
