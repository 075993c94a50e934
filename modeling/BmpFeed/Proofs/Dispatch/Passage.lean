import BmpFeed.Proofs.Backlog
import BmpFeed.Proofs.Dispatch.Deeds
import BmpFeed.Proofs.Fleet.Sticky

/-!
# One pass over a backlog

A pass takes every request that waits when it begins to its writer or to the end of the queue, while
the writers go on with their own affairs. `Passage` holds of everything that can happen meanwhile:
before and after each routing the queues may fill, empty or close in any way. `Passage.progress` is
the invariant of a pass under way; at its end, `Orderly` tells the requests that were delivered from
those that remain.
-/

namespace BmpFeed.Dispatch

open Backlog (Fate Offered)

/-- A request that a pass has looked at. -/
structure Handling where
  request : Request
  /-- The place of the writer to which it was routed. -/
  slot : Fleet.Slot
  fate : Fate

namespace Handling

def isDelivered (h : Handling) : Bool := h.fate = .delivered

/-- The handling is a delivery to the writer at a place. -/
def isDeliveredTo (s : Fleet.Slot) (h : Handling) : Bool := h.slot = s ∧ h.isDelivered

end Handling

/-- The requests that were delivered. -/
def deliveredOf (hs : List Handling) : List Request :=
  (hs.filter Handling.isDelivered).map Handling.request

/-- The requests that were not delivered. -/
def keptOf (hs : List Handling) : List Request :=
  (hs.filter fun h => !h.isDelivered).map Handling.request

/-- The requests that were delivered to the writer at a place. -/
def deliveredTo (s : Fleet.Slot) (hs : List Handling) : List Request :=
  (hs.filter (Handling.isDeliveredTo s)).map Handling.request

@[simp] theorem deliveredTo_append (s : Fleet.Slot) (hs hs' : List Handling) :
    deliveredTo s (hs ++ hs') = deliveredTo s hs ++ deliveredTo s hs' := by
  simp [deliveredTo]

/-! ## Passes under way -/

variable {q q' : Backlog.Pass} {d d' d₀ : Dispatch} {s : Fleet.Slot} {r : Request}
  {others : List Request} {hs : List Handling} {notes : List Note} {b' : Backlog} {f f' : Fleet}
  {may : (Writer → Writer) → Prop}

/-- The writers change in any way, each one by itself. -/
def Interleaved (g : Writer → Writer) : Prop := ∀ w, (g w).id = w.id

/-- What can happen from the beginning of a pass over the backlog of `d₀` when the writers can
change by every `g` with `may g`: the requests that the pass has looked at, its notes, how far it
has come, and the dispatch then. -/
inductive Passage (may : (Writer → Writer) → Prop) (d₀ : Dispatch) :
    List Handling → List Note → Backlog.Pass → Dispatch → Prop
  | begin_ : Passage may d₀ [] [] d₀.backlog.begin_ d₀
  | change {hs : List Handling} {notes : List Note} {q : Backlog.Pass} {d : Dispatch}
      {g : Writer → Writer} :
      Passage may d₀ hs notes q d → may g →
        Passage may d₀ hs notes q { d with fleet := d.fleet.mapWriters g }
  /-- The oldest request is routed, the writers change, and the request is offered. -/
  | step {hs : List Handling} {notes told : List Note} {q q' : Backlog.Pass} {d : Dispatch}
      {r : Request} {others : List Request} {s : Fleet.Slot} {f f' : Fleet} {g : Writer → Writer}
      {b' : Backlog} :
      Passage may d₀ hs notes q d → q.left ≠ 0 → d.backlog.items = r :: others →
        d.fleet.route r.category r.key = (s, f) → may g →
        Backlog.offer q { d.backlog with items := others } (f.mapWriters g) s r =
          (q', b', f', told) →
        Passage may d₀ (hs ++ [⟨r, s, q.fate q'⟩]) (notes ++ told) q' { fleet := f', backlog := b' }

/-- The note tells of this delivery. -/
def Tells (f : Fleet) (note : Note) (h : Handling) : Prop :=
  ∃ post, (f.posts h.slot.category)[h.slot.place]? = some post ∧
    note = .requestDelivered post.writer.id h.request

/-- An offer leaves the writers at their places. -/
theorem keeps_offered {b : Backlog} {fate : Fate} {told : List Note}
    (h : Offered q b f s r fate q' b' f' told) : f.Keeps f' := by
  rcases h.fleet_eq with ⟨rfl, -⟩ | ⟨note, hsend, -⟩
  · exact .refl _
  · exact Fleet.keeps_send hsend

theorem Tells.mono {note : Note} {h : Handling} (ht : Tells f note h) (hk : f.Keeps f') :
    Tells f' note h := by
  obtain ⟨post, hpost, rfl⟩ := ht
  obtain ⟨post', hpost', hid, -⟩ := hk.stays _ _ _ hpost
  exact ⟨post', hpost', by rw [hid]⟩

/-- The key of the request belongs to the writer to which it was routed. -/
def Handling.Routed (f : Fleet) (h : Handling) : Prop :=
  h.slot.category = h.request.category ∧
    ∃ post, (f.posts h.slot.category)[h.slot.place]? = some post ∧ h.request.key ∈ post.keys

theorem Handling.Routed.mono {h : Handling} (hr : h.Routed f) (hk : f.Keeps f') :
    h.Routed f' := by
  obtain ⟨hcategory, post, hpost, hkey⟩ := hr
  obtain ⟨post', hpost', -, hkeys⟩ := hk.stays _ _ _ hpost
  exact ⟨hcategory, post', hpost', hkeys _ hkey⟩

/-- What holds of the requests that a pass has looked at. -/
structure Accounts (f : Fleet) (hs : List Handling) (notes : List Note) (q : Backlog.Pass) :
    Prop where
  delivered_eq : q.delivered = (deliveredOf hs).length
  told : List.Forall₂ (Tells f) notes (hs.filter Handling.isDelivered)
  routed : ∀ h ∈ hs, h.Routed f
  /-- For one writer, no request is delivered after another one was kept. -/
  not_overtaken : hs.Pairwise fun (h h' : Handling) =>
    h.slot = h'.slot → h'.isDelivered = true → h.isDelivered = true
  /-- A request is kept only if its writer refused this one or one before it. -/
  refused : ∀ (i : Nat) (h : Handling), hs[i]? = some h → h.isDelivered = false →
    ∃ j ≤ i, ∃ h', hs[j]? = some h' ∧ h'.slot = h.slot ∧ h'.fate = .refused

/-- Where a pass stands. The requests of the backlog are the ones that it has still to look at, and
behind them those that it has kept. -/
structure Progress (d₀ : Dispatch) (hs : List Handling) (notes : List Note) (q : Backlog.Pass)
    (d : Dispatch) : Prop extends Accounts d.fleet hs notes q where
  ahead : ∃ ahead, d₀.backlog.items = hs.map Handling.request ++ ahead ∧
    d.backlog.items = ahead ++ keptOf hs ∧ q.left = ahead.length
  capacity_eq : d.backlog.capacity = d₀.backlog.capacity
  keeps : d₀.fleet.Keeps d.fleet
  /-- The busy writers are those that have refused a request. -/
  busy_iff : ∀ s, s ∈ q.busy ↔ ∃ h ∈ hs, h.slot = s ∧ h.fate = .refused

namespace Progress

theorem begin_ (d₀ : Dispatch) : Progress d₀ [] [] d₀.backlog.begin_ d₀ where
  ahead := ⟨d₀.backlog.items, rfl, (List.append_nil _).symm, rfl⟩
  capacity_eq := rfl
  delivered_eq := rfl
  told := .nil
  keeps := .refl _
  routed := by simp
  busy_iff := by simp [Backlog.begin_]
  not_overtaken := .nil
  refused := by simp

/-- The writers may change as long as they stay at their places. -/
theorem congr (h : Progress d₀ hs notes q d) (hbacklog : d'.backlog = d.backlog)
    (hk : d.fleet.Keeps d'.fleet) : Progress d₀ hs notes q d' where
  ahead := by rw [hbacklog]; exact h.ahead
  capacity_eq := by rw [hbacklog]; exact h.capacity_eq
  delivered_eq := h.delivered_eq
  told := h.told.imp fun _ _ ht => ht.mono hk
  keeps := h.keeps.trans hk
  routed a ha := (h.routed a ha).mono hk
  busy_iff := h.busy_iff
  not_overtaken := h.not_overtaken
  refused := h.refused

/-- A request that was kept has its writer busy. -/
theorem busy_of_kept (h : Progress d₀ hs notes q d) {a : Handling} (ha : a ∈ hs)
    (hkept : a.isDelivered = false) : a.slot ∈ q.busy := by
  obtain ⟨i, hi⟩ := List.mem_iff_getElem?.1 ha
  obtain ⟨j, -, b, hb, hslot, hrefused⟩ := h.refused i a hi hkept
  exact (h.busy_iff _).2 ⟨b, List.mem_of_getElem? hb, hslot, hrefused⟩

/-- The next request is kept behind the others. -/
theorem ahead_keep (h : Progress d₀ hs notes q d) (hleft : q.left ≠ 0)
    (hitems : d.backlog.items = r :: others) {a : Handling} (hrequest : a.request = r)
    (hkept : a.isDelivered = false) :
    ∃ ahead, d₀.backlog.items = (hs ++ [a]).map Handling.request ++ ahead ∧
      others ++ [r] = ahead ++ keptOf (hs ++ [a]) ∧ q.left - 1 = ahead.length := by
  obtain ⟨ahead, hall, hrest, hlen⟩ := h.ahead
  cases ahead with
  | nil => exact absurd hlen hleft
  | cons r' ahead =>
    rw [hitems, List.cons_append] at hrest
    obtain ⟨rfl, rfl⟩ := List.cons.inj hrest
    refine ⟨ahead, by simp [hall, hrequest], ?_, by simp [hlen]⟩
    simp [keptOf, hkept, hrequest]

/-- The next request is delivered. -/
theorem ahead_deliver (h : Progress d₀ hs notes q d) (hleft : q.left ≠ 0)
    (hitems : d.backlog.items = r :: others) {a : Handling} (hrequest : a.request = r)
    (hdelivered : a.isDelivered = true) :
    ∃ ahead, d₀.backlog.items = (hs ++ [a]).map Handling.request ++ ahead ∧
      others = ahead ++ keptOf (hs ++ [a]) ∧ q.left - 1 = ahead.length := by
  obtain ⟨ahead, hall, hrest, hlen⟩ := h.ahead
  cases ahead with
  | nil => exact absurd hlen hleft
  | cons r' ahead =>
    rw [hitems, List.cons_append] at hrest
    obtain ⟨rfl, rfl⟩ := List.cons.inj hrest
    refine ⟨ahead, by simp [hall, hrequest], ?_, by simp [hlen]⟩
    simp [keptOf, hdelivered]

/-- One more request was looked at that a refusal explains if it was kept. -/
theorem refused_append (h : Progress d₀ hs notes q d) {a : Handling}
    (hexplained : a.isDelivered = false →
      ∃ b ∈ hs ++ [a], b.slot = a.slot ∧ b.fate = .refused) :
    ∀ (i : Nat) (b : Handling), (hs ++ [a])[i]? = some b → b.isDelivered = false →
      ∃ j ≤ i, ∃ b', (hs ++ [a])[j]? = some b' ∧ b'.slot = b.slot ∧ b'.fate = .refused := by
  intro i b hb hkept
  rcases Nat.lt_or_ge i hs.length with hi | hi
  · rw [List.getElem?_append_left hi] at hb
    obtain ⟨j, hj, b', hb', hrest⟩ := h.refused i b hb hkept
    exact ⟨j, hj, b', by rw [List.getElem?_append_left (by omega)]; exact hb', hrest⟩
  · have hlen := (List.getElem?_eq_some_iff.1 hb).1
    rw [List.length_append, List.length_singleton] at hlen
    obtain rfl : i = hs.length := by omega
    obtain rfl : a = b := by simpa using hb
    obtain ⟨b', hmem, hrest⟩ := hexplained hkept
    obtain ⟨j, hj⟩ := List.mem_iff_getElem?.1 hmem
    have hlt := (List.getElem?_eq_some_iff.1 hj).1
    rw [List.length_append, List.length_singleton] at hlt
    exact ⟨j, by omega, b', hj, hrest⟩

/-- One more request was looked at, and if it was delivered, its writer was not busy. -/
theorem not_overtaken_append (h : Progress d₀ hs notes q d) {a : Handling}
    (hfree : a.isDelivered = true → a.slot ∉ q.busy) :
    (hs ++ [a]).Pairwise fun (b b' : Handling) =>
      b.slot = b'.slot → b'.isDelivered = true → b.isDelivered = true := by
  refine List.pairwise_append.2 ⟨h.not_overtaken, List.pairwise_singleton _ _, ?_⟩
  intro b hb b' hb' hslot hdelivered
  obtain rfl := List.mem_singleton.1 hb'
  by_contra hkept
  exact hfree hdelivered (hslot ▸ h.busy_of_kept hb (by simpa using hkept))

/-- The step lemma of a pass. -/
theorem offer (h : Progress d₀ hs notes q d) (hleft : q.left ≠ 0)
    (hitems : d.backlog.items = r :: others) {fate : Fate} {told : List Note}
    (hrouted : Handling.Routed d.fleet ⟨r, s, fate⟩)
    (ho : Offered q { d.backlog with items := others } d.fleet s r fate q' b' f' told) :
    Progress d₀ (hs ++ [⟨r, s, fate⟩]) (notes ++ told) q' { fleet := f', backlog := b' } := by
  have hk := keeps_offered ho
  have hearlier := h.told.imp fun _ _ ht => Tells.mono ht hk
  have hrouted' : ∀ a ∈ hs ++ [⟨r, s, fate⟩], Handling.Routed f' a := by
    intro a ha
    rcases List.mem_append.1 ha with ha | ha
    · exact (h.routed a ha).mono hk
    · rw [List.mem_singleton.1 ha]
      exact hrouted.mono hk
  cases ho with
  | held hbusy =>
    have hkept : Handling.isDelivered ⟨r, s, .held⟩ = false := rfl
    obtain ⟨b, hb, hslot, hrefused⟩ := (h.busy_iff s).1 hbusy
    refine ⟨⟨?_, ?_, hrouted', ?_, ?_⟩, ?_, h.capacity_eq, h.keeps, ?_⟩
    · simpa [deliveredOf, hkept] using h.delivered_eq
    · simpa [hkept] using hearlier
    · exact h.not_overtaken_append (by simp [hkept])
    · exact h.refused_append fun _ => ⟨b, List.mem_append_left _ hb, hslot, hrefused⟩
    · exact h.ahead_keep hleft hitems rfl hkept
    · simpa using h.busy_iff
  | refused hbusy hsend =>
    have hkept : Handling.isDelivered ⟨r, s, .refused⟩ = false := rfl
    refine ⟨⟨?_, ?_, hrouted', ?_, ?_⟩, ?_, h.capacity_eq, h.keeps, ?_⟩
    · simpa [deliveredOf, hkept] using h.delivered_eq
    · simpa [hkept] using hearlier
    · exact h.not_overtaken_append (by simp [hkept])
    · exact h.refused_append fun _ => ⟨_, List.mem_append_right _ (by simp), rfl, rfl⟩
    · exact h.ahead_keep hleft hitems rfl hkept
    · intro s'
      rw [List.mem_cons, h.busy_iff]
      simp [or_comm, eq_comm, or_and_right, exists_or]
  | @delivered _ note hbusy hsend =>
    have hdelivered : Handling.isDelivered ⟨r, s, .delivered⟩ = true := rfl
    obtain ⟨post, hpost, hnote⟩ := Fleet.note_send hsend
    have htells : Tells f' note ⟨r, s, .delivered⟩ :=
      Tells.mono ⟨post, hpost, hnote⟩ hk
    refine ⟨⟨?_, ?_, hrouted', ?_, ?_⟩, ?_, h.capacity_eq, h.keeps.trans hk, ?_⟩
    · simp [deliveredOf, hdelivered, h.delivered_eq]
    · simpa [hdelivered] using List.rel_append hearlier (.cons htells .nil)
    · exact h.not_overtaken_append fun _ => hbusy
    · exact h.refused_append (by simp [hdelivered])
    · exact h.ahead_deliver hleft hitems rfl hdelivered
    · simpa using h.busy_iff

end Progress

/-- A request is routed to the writer that its key then belongs to. -/
theorem routed_route (hposts : d.fleet.posts r.category ≠ [])
    (hroute : d.fleet.route r.category r.key = (s, f)) (fate : Fate) :
    Handling.Routed f ⟨r, s, fate⟩ := by
  obtain ⟨place, posts', hslot, hroutes, ha⟩ := Fleet.route_spec r.key hposts
  rw [hroute] at hslot ha
  have hlt : place < (d.fleet.posts r.category).length := by
    cases hroutes with
    | owned hpost _ => exact (List.getElem?_eq_some_iff.1 hpost).1
    | new hlt _ => exact hlt
  obtain ⟨post, hpost, -, hkey⟩ := hroutes.mem_keys (List.getElem?_eq_getElem hlt)
  obtain rfl : s = ⟨r.category, place⟩ := hslot
  refine ⟨rfl, post, ?_, hkey⟩
  rw [← ha.posts_eq] at hpost
  exact hpost

/-- There is still a writer to route to. -/
theorem Progress.posts_ne_nil (h : Progress d₀ hs notes q d) (hcrews : ∀ c, d₀.fleet.posts c ≠ [])
    (c : Category) : d.fleet.posts c ≠ [] := by
  intro hnil
  have hlen := h.keeps.length_eq c
  rw [hnil] at hlen
  exact hcrews _ (List.length_eq_zero_iff.1 hlen.symm)

/-- The run lemma of a pass. -/
theorem Passage.progress (h : Passage may d₀ hs notes q d) (hmay : ∀ g, may g → Interleaved g)
    (hcrews : ∀ c, d₀.fleet.posts c ≠ []) : Progress d₀ hs notes q d := by
  induction h with
  | begin_ => exact .begin_ d₀
  | change _ hg ih => exact ih.congr rfl (Fleet.keeps_mapWriters (hmay _ hg) _)
  | @step hs notes told q q' d r others s f f' g b' _ hleft hitems hroute hg hoffer ih =>
    have hposts := ih.posts_ne_nil hcrews r.category
    have hkept : d.fleet.Keeps f := by
      have hk := Fleet.keeps_route hposts r.key
      rwa [hroute] at hk
    have hchange := Fleet.keeps_mapWriters (hmay _ hg) f
    have hrouted : Progress _ _ _ _ { d with fleet := f.mapWriters g } :=
      ih.congr rfl (hkept.trans hchange)
    exact hrouted.offer hleft hitems ((routed_route hposts hroute _).mono hchange)
      (Backlog.offered hoffer)

/-! ## Whole passes -/

/-- What a whole pass did: `hs` lists the requests of the backlog in their order, those that were
delivered and those that remain are two parts of it, each in that order. -/
structure Orderly (d₀ : Dispatch) (hs : List Handling) (notes : List Note) (q : Backlog.Pass)
    (d : Dispatch) : Prop extends Accounts d.fleet hs notes q where
  requests_eq : hs.map Handling.request = d₀.backlog.items
  remaining_eq : d.backlog.items = keptOf hs
  capacity_eq : d.backlog.capacity = d₀.backlog.capacity
  /-- The writers are at their places and have kept their keys. -/
  keeps : d₀.fleet.Keeps d.fleet

theorem Progress.orderly (h : Progress d₀ hs notes q d) (hleft : q.left = 0) :
    Orderly d₀ hs notes q d := by
  obtain ⟨ahead, hall, hrest, hlen⟩ := h.ahead
  obtain rfl : ahead = [] := List.length_eq_zero_iff.1 (hlen.symm.trans hleft)
  rw [List.append_nil] at hall
  exact { h with requests_eq := hall.symm, remaining_eq := hrest }

/-- The queue of the writer at a place. -/
def queueAt? (f : Fleet) (s : Fleet.Slot) : Option (List Request) :=
  ((f.posts s.category).map Fleet.Post.writer)[s.place]?.map Writer.queue

theorem queueAt?_route (hposts : f.posts r.category ≠ []) (s : Fleet.Slot) :
    queueAt? (f.route r.category r.key).2 s = queueAt? f s := by
  obtain ⟨place, posts', -, hroutes, ha⟩ := Fleet.route_spec r.key hposts
  unfold queueAt?
  by_cases hs : s.category = r.category
  · rw [hs, ha.posts_eq, hroutes.writers_eq]
  · rw [ha.posts_of_ne hs]

theorem queueAt?_send {note : Note} (h : f.send? s r = some (f', note)) (s' : Fleet.Slot) :
    queueAt? f' s' = (queueAt? f s').map (· ++ if s = s' then [r] else []) := by
  obtain ⟨post, w, hpost, hw, ha⟩ := Fleet.send_spec h
  have hqueue : w.queue = post.writer.queue ++ [r] :=
    congrArg Writer.queue (Writer.send?_spec hw).2.2
  unfold queueAt?
  by_cases hcategory : s'.category = s.category
  · obtain ⟨category, place⟩ := s
    obtain ⟨category', place'⟩ := s'
    obtain rfl : category' = category := hcategory
    rw [ha.posts_eq, List.map_set, List.getElem?_set]
    by_cases hplace : place = place'
    · subst hplace
      have hlt := (List.getElem?_eq_some_iff.1 hpost).1
      simp only [List.length_map, hlt, if_true, List.getElem?_map, hpost, Option.map_some, hqueue]
    · have hne : (⟨category', place⟩ : Fleet.Slot) ≠ ⟨category', place'⟩ :=
        fun he => hplace (congrArg Fleet.Slot.place he)
      simp only [hplace, hne, if_false, List.append_nil, Option.map_id']
  · have hne : s ≠ s' := fun he => hcategory (congrArg Fleet.Slot.category he).symm
    simp only [ha.posts_of_ne hcategory, hne, if_false, List.append_nil, Option.map_id']

/-- Behind what it held in `f₀`, every queue holds what was delivered to it. -/
def Queued (f₀ : Fleet) (hs : List Handling) (f : Fleet) : Prop :=
  ∀ s, queueAt? f s = (queueAt? f₀ s).map (· ++ deliveredTo s hs)

/-- An offer appends to the queue of the writer what it delivers. -/
theorem Queued.offer {b : Backlog} {fate : Fate} {told : List Note} {f₀ : Fleet}
    (hq : Queued f₀ hs f) (h : Offered q b f s r fate q' b' f' told) :
    Queued f₀ (hs ++ [⟨r, s, fate⟩]) f' := by
  intro s'
  cases h with
  | held | refused => simpa [deliveredTo, Handling.isDeliveredTo, Handling.isDelivered] using hq s'
  | delivered _ hsend =>
    rw [queueAt?_send hsend, hq s', Option.map_map]
    refine congrArg (fun g => (queueAt? f₀ s').map g) (funext fun queue => ?_)
    rw [deliveredTo_append, Function.comp_apply, List.append_assoc]
    refine congrArg (fun rs => queue ++ (deliveredTo s' hs ++ rs)) ?_
    by_cases hs' : s = s'
    · simp [deliveredTo, Handling.isDeliveredTo, Handling.isDelivered, hs']
    · simp [deliveredTo, Handling.isDeliveredTo, hs']

theorem mapWriters_id (f : Fleet) : f.mapWriters id = f := by
  simp [Fleet.mapWriters]

/-- A step of the program continues a pass. -/
theorem Passage.passStep (h : Passage may d₀ hs notes q d) (hmay : ∀ g, may g → Interleaved g)
    (hid : may id) (hcrews : ∀ c, d₀.fleet.posts c ≠ []) (hleft : q.left ≠ 0) :
    ∃ a, Passage may d₀ (hs ++ [a]) (notes ++ (d.passStep q).2.2) (d.passStep q).1
        (d.passStep q).2.1 ∧
      (d.passStep q).1.left = q.left - 1 ∧
      ∀ f₀, Queued f₀ hs d.fleet → Queued f₀ (hs ++ [a]) (d.passStep q).2.1.fleet := by
  have hprogress := h.progress hmay hcrews
  obtain ⟨ahead, -, hrest, hlen⟩ := hprogress.ahead
  cases ahead with
  | nil => exact absurd hlen hleft
  | cons r ahead =>
    rw [List.cons_append] at hrest
    have hposts := hprogress.posts_ne_nil hcrews r.category
    have hstep := h.step hleft hrest rfl hid rfl
    have ho := Backlog.offered (q := q) (b := { d.backlog with items := ahead ++ keptOf hs })
      (f := (d.fleet.route r.category r.key).2) (s := (d.fleet.route r.category r.key).1)
      (r := r) rfl
    rw [mapWriters_id] at hstep
    unfold Dispatch.passStep Backlog.passOn
    rw [hrest]
    exact ⟨_, hstep, ho.left_eq,
      fun f₀ hq => Queued.offer (fun s => (queueAt?_route hposts s).trans (hq s)) ho⟩

/-- A pass that nothing interrupts comes to its end. -/
theorem Passage.finish (hmay : ∀ g, may g → Interleaved g) (hid : may id)
    (hcrews : ∀ c, d₀.fleet.posts c ≠ []) {fuel : Nat} (h : Passage may d₀ hs notes q d)
    (hq : Queued d₀.fleet hs d.fleet) (hfuel : q.left ≤ fuel) :
    ∃ hs', Passage may d₀ hs' (notes ++ (finishPass fuel q d).2.2) (finishPass fuel q d).1
        (finishPass fuel q d).2.1 ∧
      (finishPass fuel q d).1.left = 0 ∧
      Queued d₀.fleet hs' (finishPass fuel q d).2.1.fleet := by
  induction fuel generalizing hs notes q d with
  | zero =>
    refine ⟨hs, ?_, Nat.le_zero.1 hfuel, hq⟩
    simpa [finishPass] using h
  | succ fuel ih =>
    unfold finishPass
    by_cases hleft : q.left = 0
    · rw [if_pos hleft, List.append_nil]
      exact ⟨hs, h, hleft, hq⟩
    · obtain ⟨a, hpassage, hless, hqueued⟩ := h.passStep hmay hid hcrews hleft
      rw [if_neg hleft]
      dsimp only
      rw [← List.append_assoc]
      exact ih hpassage (hqueued _ hq) (by omega)

/-! ## The size of a backlog -/

/-- What can become of a dispatch with a new backlog. -/
inductive Reached (capacity : Nat) : Dispatch → Prop
  | start (fleet : Fleet) : Reached capacity { fleet, backlog := { capacity } }
  /-- Whatever happens to the fleet. -/
  | fleet {d : Dispatch} (fleet : Fleet) : Reached capacity d → Reached capacity { d with fleet }
  | push {d : Dispatch} {r : Request} {backlog : Backlog} :
      Reached capacity d → d.backlog.push? r = some backlog → Reached capacity { d with backlog }
  | drain {d : Dispatch} : Reached capacity d → Reached capacity d.drain.2.1
  | passage {d d' : Dispatch} {hs : List Handling} {notes : List Note} {q : Backlog.Pass} :
      Reached capacity d → Passage Interleaved d hs notes q d' → Reached capacity d'
  | task {d : Dispatch} {now : Nat} {t : Store} {task : Task} {turn : Turn} :
      Reached capacity d → d.taskStep? now t task = some turn → Reached capacity turn.dispatch

/-- The second backlog is not larger than the first, and has the same capacity. -/
def NotLarger (b b' : Backlog) : Prop := b'.size ≤ b.size ∧ b'.capacity = b.capacity

theorem NotLarger.refl (b : Backlog) : NotLarger b b := ⟨Nat.le_refl _, rfl⟩

theorem NotLarger.trans {b₁ b₂ b₃ : Backlog} (h : NotLarger b₁ b₂) (h' : NotLarger b₂ b₃) :
    NotLarger b₁ b₃ :=
  ⟨Nat.le_trans h'.1 h.1, h'.2.trans h.2⟩

theorem notLarger_offered {fate : Fate} (hitems : d.backlog.items = r :: others)
    (h : Offered q { d.backlog with items := others } f s r fate q' b' f' notes) :
    NotLarger d.backlog b' := by
  cases h <;> exact ⟨by simp [Backlog.size, hitems], rfl⟩

theorem Passage.notLarger (h : Passage may d₀ hs notes q d) :
    NotLarger d₀.backlog d.backlog := by
  induction h with
  | begin_ => exact .refl _
  | change _ _ ih => exact ih
  | step _ _ hitems _ _ hoffer ih =>
    exact ih.trans (notLarger_offered hitems (Backlog.offered hoffer))

theorem notLarger_passStep (q : Backlog.Pass) (d : Dispatch) :
    NotLarger d.backlog (d.passStep q).2.1.backlog := by
  unfold Dispatch.passStep
  dsimp only
  rcases Backlog.passOn_cases q d.backlog d.fleet with ⟨-, heq⟩ | ⟨r, rest, hitems, ho⟩
  · rw [heq]
    exact .refl _
  · exact notLarger_offered hitems ho

theorem notLarger_finishPass (fuel : Nat) (q : Backlog.Pass) (d : Dispatch) :
    NotLarger d.backlog (finishPass fuel q d).2.1.backlog := by
  induction fuel generalizing q d with
  | zero => exact .refl _
  | succ fuel ih =>
    unfold finishPass
    split_ifs
    · exact .refl _
    · exact (notLarger_passStep q d).trans (ih _ _)

/-- A task makes the backlog larger by a request at most, and only if there is room. -/
theorem taskStep_backlog {now : Nat} {t : Store} {task : Task} {turn : Turn}
    (h : d.taskStep? now t task = some turn) :
    NotLarger d.backlog turn.dispatch.backlog ∨
      ∃ r, d.backlog.push? r = some turn.dispatch.backlog := by
  cases deed_of_step? h with
  | push hpush => exact .inr ⟨_, hpush⟩
  | passOn => exact .inl (notLarger_passStep _ d)
  | _ => exact .inl (.refl _)

theorem size_of_push {b b' : Backlog} (h : b.push? r = some b') :
    b'.size ≤ b'.capacity ∧ b'.capacity = b.capacity := by
  unfold Backlog.push? at h
  split_ifs at h with hfull
  obtain rfl := Option.some.inj h
  refine ⟨?_, rfl⟩
  simp only [Backlog.size, List.length_append, List.length_singleton]
  omega

/-- A backlog never holds more requests than it has room for. -/
theorem Reached.size_le {capacity : Nat} (h : Reached capacity d) :
    d.backlog.size ≤ capacity ∧ d.backlog.capacity = capacity := by
  have hstay : ∀ {b b' : Backlog}, b.size ≤ capacity ∧ b.capacity = capacity →
      NotLarger b b' → b'.size ≤ capacity ∧ b'.capacity = capacity :=
    fun hb hle => ⟨Nat.le_trans hle.1 hb.1, hle.2.trans hb.2⟩
  have hpushed : ∀ {b b' : Backlog} {r : Request}, b.size ≤ capacity ∧ b.capacity = capacity →
      b.push? r = some b' → b'.size ≤ capacity ∧ b'.capacity = capacity := by
    intro b b' r hb hpush
    obtain ⟨hsize, hcapacity⟩ := size_of_push hpush
    rw [hcapacity, hb.2] at hsize
    exact ⟨hsize, hcapacity.trans hb.2⟩
  induction h with
  | start fleet => exact ⟨Nat.zero_le _, rfl⟩
  | fleet fleet _ ih => exact ih
  | push _ hpush ih => exact hpushed ih hpush
  | drain _ ih => exact hstay ih (notLarger_finishPass ..)
  | passage _ hpassage ih => exact hstay ih hpassage.notLarger
  | task _ htask ih =>
    rcases taskStep_backlog htask with hle | ⟨r, hpush⟩
    · exact hstay ih hle
    · exact hpushed ih hpush

/-! ## Passes over the backlog of a fleet in a run -/

variable {p : Fleet.Policy} {es : List Fleet.Event} {now : Nat} {chores : List Fleet.Chore}

end BmpFeed.Dispatch
