import BmpFeed.FirstSeen
import Mathlib.Data.List.Induction
import Mathlib.Data.List.Nodup
import Mathlib.Tactic.Common

/-!
# What a first-seen map keeps

`latest` says what is left of some pairs when only the last value of each key counts: the keys in
the order of their first occurrence, each with its last value. `FirstSeen.entries_ofList` shows that
putting the pairs into a map one after another keeps exactly these.
-/

namespace BmpFeed

variable {α β : Type} [DecidableEq α]

/-- The elements in the order of their first occurrence. -/
def distinct (l : List α) : List α := l.eraseDups

/-- The keys in the order of their first occurrence, each with its last value. -/
def latest (pairs : List (α × β)) : List (α × β) :=
  (distinct (pairs.map Prod.fst)).filterMap fun k =>
    (pairs.reverse.lookup k).map fun v => (k, v)

/-- A pair that is left is the last one with its key. -/
theorem split_of_mem_latest {pairs : List (α × β)} {p : α × β} (h : p ∈ latest pairs) :
    ∃ before after, pairs = before ++ p :: after ∧ ∀ q ∈ after, q.1 ≠ p.1 := by
  obtain ⟨k, -, hk⟩ := List.mem_filterMap.1 h
  obtain ⟨v, hv, rfl⟩ := Option.map_eq_some_iff.1 hk
  obtain ⟨l, l', hsplit, hothers⟩ := List.lookup_eq_some_iff.1 hv
  refine ⟨l'.reverse, l.reverse, ?_, fun q hq hsame => ?_⟩
  · rw [← List.reverse_reverse pairs, hsplit]
    simp
  · have hne := hothers q (List.mem_reverse.1 hq)
    simp [hsame] at hne

theorem mem_of_mem_latest {pairs : List (α × β)} {p : α × β} (h : p ∈ latest pairs) :
    p ∈ pairs := by
  obtain ⟨before, after, rfl, -⟩ := split_of_mem_latest h
  exact List.mem_append_right before List.mem_cons_self

theorem mem_distinct {l : List α} {a : α} : a ∈ distinct l ↔ a ∈ l := List.mem_eraseDups

@[simp] theorem distinct_eq_nil {l : List α} : distinct l = [] ↔ l = [] := by
  simp only [List.eq_nil_iff_forall_not_mem, mem_distinct]

theorem distinct_snoc_of_mem {l : List α} {a : α} (h : a ∈ l) :
    distinct (l ++ [a]) = distinct l := by
  simp [distinct, List.eraseDups_append, List.removeAll, h]

theorem distinct_snoc_of_not_mem {l : List α} {a : α} (h : a ∉ l) :
    distinct (l ++ [a]) = distinct l ++ [a] := by
  simp [distinct, List.eraseDups_append, List.removeAll, h, List.eraseDups_cons]

theorem length_distinct_append_le (l l' : List α) :
    (distinct (l ++ l')).length ≤ (distinct l).length + l'.length := by
  induction l' using List.reverseRecOn with
  | nil => simp
  | append_singleton l' a ih =>
    rw [← List.append_assoc, List.length_append, List.length_singleton]
    by_cases h : a ∈ l ++ l'
    · rw [distinct_snoc_of_mem h]
      omega
    · rw [distinct_snoc_of_not_mem h, List.length_append, List.length_singleton]
      omega

theorem distinct_append_distinct (l l' : List α) :
    distinct (l ++ distinct l') = distinct (l ++ l') := by
  induction l' using List.reverseRecOn with
  | nil => rfl
  | append_singleton l' a ih =>
    rw [← List.append_assoc]
    by_cases h : a ∈ l'
    · rw [distinct_snoc_of_mem h, distinct_snoc_of_mem (List.mem_append_right l h), ih]
    · rw [distinct_snoc_of_not_mem h, ← List.append_assoc]
      by_cases hl : a ∈ l
      · rw [distinct_snoc_of_mem (List.mem_append_left _ hl),
          distinct_snoc_of_mem (List.mem_append_left _ hl), ih]
      · have hnew : a ∉ l ++ l' := by simp [hl, h]
        have hnew' : a ∉ l ++ distinct l' := by simp [hl, h, mem_distinct]
        rw [distinct_snoc_of_not_mem hnew, distinct_snoc_of_not_mem hnew', ih]

/-- A function that tells the elements apart keeps their first occurrences. -/
theorem distinct_map {γ : Type} [DecidableEq γ] {f : α → γ} {l : List α}
    (h : ∀ a ∈ l, ∀ b ∈ l, f a = f b → a = b) : distinct (l.map f) = (distinct l).map f := by
  induction l using List.reverseRecOn with
  | nil => rfl
  | append_singleton l a ih =>
    have hl : distinct (l.map f) = (distinct l).map f :=
      ih fun b hb c hc => h b (List.mem_append_left _ hb) c (List.mem_append_left _ hc)
    rw [List.map_append, List.map_singleton]
    by_cases ha : a ∈ l
    · rw [distinct_snoc_of_mem ha, distinct_snoc_of_mem (List.mem_map_of_mem ha), hl]
    · have hfa : f a ∉ l.map f := by
        rintro hmem
        obtain ⟨b, hb, hfb⟩ := List.mem_map.1 hmem
        exact ha (h b (List.mem_append_left _ hb) a (by simp) hfb ▸ hb)
      rw [distinct_snoc_of_not_mem ha, distinct_snoc_of_not_mem hfa, hl, List.map_append,
        List.map_singleton]

namespace FirstSeen

theorem keys_put_of_mem {m : FirstSeen α β} {k : α} (h : k ∈ m.keys) (v : β) :
    (m.put k v).keys = m.keys := by
  rw [keys_put, if_pos h]

theorem keys_put_of_not_mem {m : FirstSeen α β} {k : α} (h : k ∉ m.keys) (v : β) :
    (m.put k v).keys = m.keys ++ [k] := by
  rw [keys_put, if_neg h]

theorem ofList_snoc (pairs : List (α × β)) (p : α × β) :
    ofList (pairs ++ [p]) = (ofList pairs).put p.1 p.2 := by
  simp [ofList, putAll]

theorem putAll_ofList (l l' : List (α × β)) : (ofList l).putAll l' = ofList (l ++ l') := by
  simp [ofList, putAll]

theorem keys_ofList (pairs : List (α × β)) :
    (ofList pairs).keys = distinct (pairs.map Prod.fst) := by
  induction pairs using List.reverseRecOn with
  | nil => rfl
  | append_singleton l p ih =>
    rw [ofList_snoc, List.map_append, List.map_singleton]
    by_cases h : p.1 ∈ l.map Prod.fst
    · rw [distinct_snoc_of_mem h, keys_put_of_mem (ih ▸ mem_distinct.2 h), ih]
    · rw [distinct_snoc_of_not_mem h,
        keys_put_of_not_mem (ih ▸ fun h' => h (mem_distinct.1 h')), ih]

theorem isSome_get? (m : FirstSeen α β) (k : α) : (m.get? k).isSome ↔ k ∈ m.keys := by
  unfold get? keys
  rw [List.lookup_isSome_iff, List.mem_map]
  constructor
  · rintro ⟨p, hp, e⟩
    exact ⟨p, hp, (eq_of_beq e).symm⟩
  · rintro ⟨p, hp, rfl⟩
    exact ⟨p, hp, beq_self_eq_true p.1⟩

theorem get?_ofList (pairs : List (α × β)) (k : α) :
    (ofList pairs).get? k = pairs.reverse.lookup k := by
  induction pairs using List.reverseRecOn with
  | nil => rfl
  | append_singleton l p ih =>
    obtain ⟨k', v'⟩ := p
    rw [ofList_snoc, get?_put, ih, List.reverse_append]
    by_cases h : k = k'
    · simp [h]
    · simp [List.lookup_cons, h, beq_eq_false_iff_ne.2 h]

theorem nodup_keys_put {m : FirstSeen α β} (h : m.keys.Nodup) (k : α) (v : β) :
    (m.put k v).keys.Nodup := by
  by_cases hk : k ∈ m.keys
  · rwa [keys_put_of_mem hk]
  · rw [keys_put_of_not_mem hk]
    exact List.Nodup.append h (List.nodup_singleton k) (by simpa using hk)

theorem nodup_keys_ofList (pairs : List (α × β)) : (ofList pairs).keys.Nodup := by
  induction pairs using List.reverseRecOn with
  | nil => exact List.nodup_nil
  | append_singleton l p ih => rw [ofList_snoc]; exact nodup_keys_put ih p.1 p.2

/-- A map without repeated keys is determined by its keys and its look-ups. -/
theorem entries_eq_filterMap {m : FirstSeen α β} (h : m.keys.Nodup) :
    m.entries = m.keys.filterMap fun k => (m.get? k).map fun v => (k, v) := by
  obtain ⟨l⟩ := m
  unfold keys get? at *
  simp only at *
  induction l with
  | nil => rfl
  | cons p l ih =>
    obtain ⟨k', v'⟩ := p
    obtain ⟨hp, hl⟩ := List.nodup_cons.1 h
    have tail : ((l.map Prod.fst).filterMap fun k =>
          (((k', v') :: l).lookup k).map fun v => (k, v)) =
        (l.map Prod.fst).filterMap fun k => (l.lookup k).map fun v => (k, v) := by
      apply List.filterMap_congr
      intro k hk
      have hne : k ≠ k' := fun e => hp (e ▸ hk)
      rw [List.lookup_cons, beq_eq_false_iff_ne.2 hne]
    rw [List.map_cons, List.filterMap_cons, tail, ← ih hl]
    simp

theorem eq_of_get?_eq {m m' : FirstSeen α β} (h : m.keys.Nodup) (h' : m'.keys.Nodup)
    (hkeys : m.keys = m'.keys) (hget : ∀ k, m.get? k = m'.get? k) : m = m' := by
  have hentries : m.entries = m'.entries := by
    rw [entries_eq_filterMap h, entries_eq_filterMap h', hkeys]
    simp only [hget]
  exact congrArg FirstSeen.mk hentries

theorem nodup_distinct (l : List α) : (distinct l).Nodup := by
  have hnodup := nodup_keys_ofList (l.map fun a => (a, ()))
  rwa [keys_ofList, List.map_map, Function.comp_def, List.map_id'] at hnodup

theorem entries_ofList (pairs : List (α × β)) : (ofList pairs).entries = latest pairs := by
  rw [entries_eq_filterMap (nodup_keys_ofList pairs), keys_ofList, latest]
  simp only [get?_ofList]

theorem size_ofList (pairs : List (α × β)) :
    (ofList pairs).size = (distinct (pairs.map Prod.fst)).length := by
  rw [← keys_ofList, keys, List.length_map]
  rfl

theorem putEntry_of_not_mem {l : List (α × β)} {k : α} (h : k ∉ l.map Prod.fst) (v : β) :
    putEntry k v l = l ++ [(k, v)] := by
  induction l with
  | nil => rfl
  | cons p l ih =>
    rw [List.map_cons, List.mem_cons, not_or] at h
    rw [putEntry, if_neg fun he => h.1 he.symm, ih h.2]
    rfl

end FirstSeen

/-- Pairs with a key each are all left. -/
theorem latest_of_nodup {pairs : List (α × β)} (h : (pairs.map Prod.fst).Nodup) :
    latest pairs = pairs := by
  induction pairs using List.reverseRecOn with
  | nil => rfl
  | append_singleton l p ih =>
    rw [List.map_append, List.nodup_append'] at h
    obtain ⟨hl, -, hnew⟩ := h
    have hentries : (FirstSeen.ofList l).entries = l := by rw [FirstSeen.entries_ofList, ih hl]
    rw [← FirstSeen.entries_ofList, FirstSeen.ofList_snoc, FirstSeen.put, hentries]
    exact FirstSeen.putEntry_of_not_mem (fun hmem => hnew hmem (List.mem_singleton_self _)) _

omit [DecidableEq α] in
theorem lookup_map_snd [BEq α] {γ : Type} (f : β → γ) (pairs : List (α × β)) (k : α) :
    (pairs.map fun p => (p.1, f p.2)).lookup k = (pairs.lookup k).map f := by
  induction pairs with
  | nil => rfl
  | cons p pairs ih =>
    rw [List.map_cons, List.lookup_cons, List.lookup_cons, ih]
    cases k == p.1 <;> rfl

/-- What is left does not depend on the values. -/
theorem latest_map {γ : Type} (f : β → γ) (pairs : List (α × β)) :
    latest (pairs.map fun p => (p.1, f p.2)) = (latest pairs).map fun p => (p.1, f p.2) := by
  have hkeys : (pairs.map fun p => (p.1, f p.2)).map Prod.fst = pairs.map Prod.fst := by simp
  unfold latest
  rw [hkeys, List.map_filterMap]
  apply List.filterMap_congr
  intro k _
  rw [← List.map_reverse, lookup_map_snd, Option.map_map, Option.map_map]
  rfl

theorem map_fst_latest (pairs : List (α × β)) :
    (latest pairs).map Prod.fst = distinct (pairs.map Prod.fst) := by
  rw [← FirstSeen.entries_ofList, ← FirstSeen.keys_ofList]
  rfl

/-! ## One key -/

theorem lookup_reverse (pairs : List (α × β)) (k : α) :
    pairs.reverse.lookup k = (pairs.filter fun p => p.1 = k).getLast?.map Prod.snd := by
  induction pairs using List.reverseRecOn with
  | nil => rfl
  | append_singleton l p ih =>
    obtain ⟨k', v'⟩ := p
    rw [List.reverse_append, List.filter_append, List.reverse_singleton, List.singleton_append,
      List.lookup_cons]
    by_cases h : k' = k
    · simp [h]
    · have hbeq : (k == k') = false := beq_eq_false_iff_ne.2 fun he => h he.symm
      have hnone : [(k', v')].filter (fun p => p.1 = k) = [] := by simp [h]
      rw [hbeq, hnone, List.append_nil]
      exact ih

/-- Of the pairs of one key the last is left. -/
theorem filter_latest (pairs : List (α × β)) (k : α) :
    ((latest pairs).filter fun p => p.1 = k).map Prod.snd =
      ((pairs.filter fun p => p.1 = k).map Prod.snd).getLast?.toList := by
  have hkeys : (distinct (pairs.map Prod.fst)).filter (fun k' => k' = k) =
      if k ∈ pairs.map Prod.fst then [k] else [] := by
    rw [List.filter_eq, (FirstSeen.nodup_distinct _).count]
    simp only [mem_distinct]
    split_ifs <;> rfl
  have hsingle : (latest pairs).filter (fun p => p.1 = k) =
      ((distinct (pairs.map Prod.fst)).filter fun k' => k' = k).filterMap fun k' =>
        (pairs.reverse.lookup k').map fun v => (k', v) := by
    unfold latest
    rw [List.filter_filterMap, List.filterMap_filter]
    apply List.filterMap_congr
    intro k' _
    by_cases h : k' = k <;> cases pairs.reverse.lookup k' <;> simp [h, Option.filter]
  rw [hsingle, hkeys, List.getLast?_map]
  split_ifs with hmem
  · rw [List.filterMap_cons, lookup_reverse]
    cases (pairs.filter fun p => p.1 = k).getLast? <;> rfl
  · have hnone : pairs.filter (fun p => p.1 = k) = [] :=
      List.filter_eq_nil_iff.2 fun p hp he =>
        hmem (of_decide_eq_true he ▸ List.mem_map_of_mem hp)
    rw [hnone]
    rfl

theorem lookup_reverse_latest (pairs : List (α × β)) (k : α) :
    (latest pairs).reverse.lookup k = pairs.reverse.lookup k := by
  rw [lookup_reverse, lookup_reverse, ← List.getLast?_map, ← List.getLast?_map, filter_latest]
  cases ((pairs.filter fun p => p.1 = k).map Prod.snd).getLast? <;> rfl

/-- Of what is put last, only the last value of each key matters. -/
theorem FirstSeen.ofList_append_entries (l pairs : List (α × β)) :
    ofList (l ++ (ofList pairs).entries) = ofList (l ++ pairs) := by
  refine eq_of_get?_eq (nodup_keys_ofList _) (nodup_keys_ofList _) ?_ fun k => ?_
  · have hentries : (ofList pairs).entries.map Prod.fst = distinct (pairs.map Prod.fst) :=
      keys_ofList pairs
    rw [keys_ofList, keys_ofList, List.map_append, List.map_append, hentries,
      distinct_append_distinct]
  · rw [get?_ofList, get?_ofList, List.reverse_append, List.reverse_append, List.lookup_append,
      List.lookup_append, entries_ofList, lookup_reverse_latest]

end BmpFeed
