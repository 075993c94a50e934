/-!
# Pairs in first-seen order

A `FirstSeen` holds one value per key: the latest that was put under it, at the place where the key
was first put. `get?_put` and `keys_put` describe `put` by these two rules.
-/

namespace BmpFeed

structure FirstSeen (α β : Type) where
  entries : List (α × β) := []
  deriving Repr, DecidableEq

namespace FirstSeen

variable {α β : Type} [DecidableEq α]

instance : Inhabited (FirstSeen α β) := ⟨{}⟩

/-- Replaces the value of a key that is present, or appends the pair. -/
def putEntry (k : α) (v : β) : List (α × β) → List (α × β)
  | [] => [(k, v)]
  | (k', v') :: rest => if k' = k then (k', v) :: rest else (k', v') :: putEntry k v rest

def put (m : FirstSeen α β) (k : α) (v : β) : FirstSeen α β := ⟨putEntry k v m.entries⟩

def get? (m : FirstSeen α β) (k : α) : Option β := m.entries.lookup k

omit [DecidableEq α] in
/-- The keys in the order in which they were first put. -/
def keys (m : FirstSeen α β) : List α := m.entries.map Prod.fst

omit [DecidableEq α] in
/-- The values in the order of their keys. -/
def values (m : FirstSeen α β) : List β := m.entries.map Prod.snd

omit [DecidableEq α] in
def size (m : FirstSeen α β) : Nat := m.entries.length

/-- Puts the pairs one after another. -/
def putAll (m : FirstSeen α β) (pairs : List (α × β)) : FirstSeen α β :=
  pairs.foldl (fun m p => m.put p.1 p.2) m

def ofList (pairs : List (α × β)) : FirstSeen α β := putAll {} pairs

theorem lookup_putEntry (k : α) (v : β) (l : List (α × β)) (x : α) :
    (putEntry k v l).lookup x = if x = k then some v else l.lookup x := by
  induction l with
  | nil => by_cases h : x = k <;> simp [putEntry, List.lookup_cons, h, beq_eq_false_iff_ne.2]
  | cons p l ih =>
    obtain ⟨k', v'⟩ := p
    by_cases hk : k' = k
    · subst hk
      by_cases hx : x = k' <;> simp [putEntry, List.lookup_cons, hx, beq_eq_false_iff_ne.2]
    · by_cases hx : x = k'
      · subst hx; simp [putEntry, hk]
      · simp [putEntry, hk, List.lookup_cons, ih, beq_eq_false_iff_ne.2 hx]

theorem get?_put (m : FirstSeen α β) (k : α) (v : β) (x : α) :
    (m.put k v).get? x = if x = k then some v else m.get? x :=
  lookup_putEntry k v m.entries x

theorem map_fst_putEntry (k : α) (v : β) (l : List (α × β)) :
    (putEntry k v l).map Prod.fst =
      if k ∈ l.map Prod.fst then l.map Prod.fst else l.map Prod.fst ++ [k] := by
  induction l with
  | nil => simp [putEntry]
  | cons p l ih =>
    obtain ⟨k', v'⟩ := p
    by_cases hk : k' = k
    · simp [putEntry, hk]
    · have hk' : ¬k = k' := fun h => hk h.symm
      simp only [putEntry, hk, ↓reduceIte, List.map_cons, List.mem_cons, hk', false_or]
      split <;> simp_all

theorem keys_put (m : FirstSeen α β) (k : α) (v : β) :
    (m.put k v).keys = if k ∈ m.keys then m.keys else m.keys ++ [k] :=
  map_fst_putEntry k v m.entries

end FirstSeen

end BmpFeed
