import BmpFeed.Regex.Parser
import Mathlib.Data.List.TakeDrop
import Mathlib.Data.List.TakeWhile
import Mathlib.Tactic.Common

/-!
# Readers that do not look ahead

The readers of the parts of an expression take no notice of a closing parenthesis after what they
read, nor of what follows it.
-/

namespace BmpFeed.Regex

variable {α β : Type}

/-- A closing parenthesis after the text, and whatever follows, changes nothing for the reader. -/
def Local (read : List Char → Option (α × List Char)) : Prop :=
  ∀ ⦃cs a rest⦄, read cs = some (a, rest) →
    ∀ t, read (cs ++ ')' :: t) = some (a, rest ++ ')' :: t)

theorem Local.map {read : List Char → Option (α × List Char)} (hread : Local read) (f : α → β) :
    Local fun cs => (read cs).map fun r => (f r.1, r.2) := by
  intro cs b rest h t
  obtain ⟨⟨a, rest'⟩, ha, heq⟩ := Option.map_eq_some_iff.1 h
  obtain ⟨rfl, rfl⟩ := Prod.mk.inj heq
  show (read _).map _ = _
  rw [hread ha t]
  rfl

/-! ## Spans -/

section Span

variable {p : Char → Bool} {cs a b : List Char} {c : Char}

/-- What stopped within the text stops there still. -/
theorem span_append (h : cs.span p = (a, c :: b)) (ext : List Char) :
    (cs ++ ext).span p = (a, c :: (b ++ ext)) := by
  rw [List.span_eq_takeWhile_dropWhile] at h ⊢
  obtain ⟨rfl, hb⟩ := Prod.mk.inj h
  have hlt : (cs.takeWhile p).length ≠ cs.length := by
    intro heq
    have hsplit := congrArg List.length (List.takeWhile_append_dropWhile (p := p) (l := cs))
    rw [List.length_append, hb, List.length_cons] at hsplit
    omega
  rw [List.takeWhile_append, if_neg hlt, List.dropWhile_append, hb]
  rfl

variable (hp : p ')' = false)

include hp

/-- A parenthesis stops what it does not belong to. -/
theorem dropWhile_paren (cs t : List Char) :
    (cs ++ ')' :: t).dropWhile p = cs.dropWhile p ++ ')' :: t := by
  induction cs with
  | nil => exact List.dropWhile_cons_of_neg (by simp [hp])
  | cons c cs ih =>
    rw [List.cons_append]
    by_cases hc : p c = true
    · rw [List.dropWhile_cons_of_pos hc, List.dropWhile_cons_of_pos hc, ih]
    · rw [List.dropWhile_cons_of_neg hc, List.dropWhile_cons_of_neg hc, List.cons_append]

theorem takeWhile_paren (cs t : List Char) : (cs ++ ')' :: t).takeWhile p = cs.takeWhile p := by
  induction cs with
  | nil => exact List.takeWhile_cons_of_neg (by simp [hp])
  | cons c cs ih =>
    rw [List.cons_append]
    by_cases hc : p c = true
    · rw [List.takeWhile_cons_of_pos hc, List.takeWhile_cons_of_pos hc, ih]
    · rw [List.takeWhile_cons_of_neg hc, List.takeWhile_cons_of_neg hc]

theorem span_paren (cs t : List Char) :
    (cs ++ ')' :: t).span p = ((cs.span p).1, (cs.span p).2 ++ ')' :: t) := by
  simp only [List.span_eq_takeWhile_dropWhile, takeWhile_paren hp, dropWhile_paren hp]

end Span

/-! ## Beginnings -/

theorem cons_or_ne (d : Char) (cs : List Char) :
    (∃ later, cs = d :: later) ∨ ∀ later, cs ≠ d :: later := by
  by_cases h : ∃ later, cs = d :: later
  · exact .inl h
  · exact .inr fun later heq => h ⟨later, heq⟩

theorem prefix_paren {p : List Char} (hp : ')' ∉ p) (cs t : List Char) :
    p <+: cs ++ ')' :: t ↔ p <+: cs := by
  constructor
  · intro h
    rcases List.prefix_or_prefix_of_prefix h (List.prefix_append cs _) with h' | ⟨u, rfl⟩
    · exact h'
    · cases u with
      | nil => simp
      | cons c u =>
        obtain ⟨v, hv⟩ := (List.prefix_append_right_inj cs).1 h
        rw [(List.cons.inj hv).1] at hp
        exact absurd (by simp) hp
  · exact fun h => h.trans (List.prefix_append _ _)

theorem ne_append {d : Char} {cs : List Char} (hne : cs ≠ []) (h : ∀ later, cs ≠ d :: later)
    (ext later : List Char) : cs ++ ext ≠ d :: later := by
  intro heq
  cases cs with
  | nil => exact hne rfl
  | cons c cs => exact h cs (by rw [(List.cons.inj heq).1])

theorem ne_paren {p cs : List Char} (hp : ')' ∉ p) (h : ∀ later, cs ≠ p ++ later)
    (t later : List Char) : cs ++ ')' :: t ≠ p ++ later := by
  intro heq
  obtain ⟨u, hu⟩ := (prefix_paren hp cs t).1 ⟨later, heq.symm⟩
  exact h u hu.symm

/-! ## Escapes -/

theorem carry {a b : α} {later rest : List Char} (h : some (a, later) = some (b, rest))
    (ext : List Char) : some (a, later ++ ext) = some (b, rest ++ ext) := by
  obtain ⟨rfl, rfl⟩ := Prod.mk.inj (Option.some.inj h)
  rfl

/-- What is left is carried along untouched by what is made of the part that was read. -/
theorem map_carry {v : Option α} {g : α → β} {b : β} {later rest : List Char}
    (h : v.map (fun x => (g x, later)) = some (b, rest)) (ext : List Char) :
    v.map (fun x => (g x, later ++ ext)) = some (b, rest ++ ext) := by
  obtain ⟨x, hx, heq⟩ := Option.map_eq_some_iff.1 h
  obtain ⟨rfl, rfl⟩ := Prod.mk.inj heq
  rw [hx]
  rfl

theorem local_hexEscape (count : Nat) : Local (hexEscape count) := by
  intro cs a rest h t
  unfold hexEscape at h
  split at h
  · rename_i later
    simp only [hexEscape, List.cons_append]
    split at h
    · exact absurd h (by simp)
    · rename_i ds rest' hds hspan
      rw [span_append hspan]
      simp only [Option.bind_eq_bind, Option.bind_eq_some_iff, Option.some.injEq,
        Prod.mk.injEq] at h
      obtain ⟨n, hn, c, hc, rfl, rfl⟩ := h
      simp [hn, hc]
    · exact absurd h (by simp)
  · rename_i hbrace
    rw [hexEscape.eq_2 _ _ (ne_paren (p := ['{']) (by decide) hbrace t)]
    dsimp only at h ⊢
    by_cases hlen : (cs.take count).length = count
    · have hle : count ≤ cs.length := by rw [List.length_take] at hlen; omega
      rw [List.take_append_of_le_length hle, List.drop_append_of_le_length hle]
      rw [if_pos hlen] at h ⊢
      simp only [Option.bind_eq_bind, Option.bind_eq_some_iff, Option.some.injEq,
        Prod.mk.injEq] at h
      obtain ⟨n, hn, c, hc, rfl, rfl⟩ := h
      simp [hn, hc]
    · rw [if_neg hlen] at h
      exact absurd h (by simp)

theorem local_propertyEscape (negated : Bool) : Local (propertyEscape negated) := by
  intro cs a rest h t
  unfold propertyEscape at h
  split at h
  · simp only [propertyEscape, List.cons_append]
    split at h
    · rename_i hspan
      simp only [span_append hspan]
      revert h
      dsimp only
      split
      · exact fun h => map_carry h _
      · exact fun h => map_carry h _
    · exact absurd h (by simp)
  · exact absurd h (by simp)
  · rename_i hbrace hslash
    rw [List.cons_append, propertyEscape]
    · exact map_carry h _
    · exact hbrace
    · exact hslash
  · exact absurd h (by simp)

theorem local_namedBoundary (ascii : Bool) : Local (namedBoundary ascii) := by
  intro cs a rest h t
  unfold namedBoundary at h
  split at h
  · rename_i later
    simp only [namedBoundary, List.cons_append]
    split at h
    · rename_i hspan
      rw [span_paren (by decide), hspan]
      exact carry h _
    · rename_i hname hspan
      simp only [span_append hspan]
      split at h <;> first | exact carry h _ | exact absurd h nofun
    · exact absurd h (by simp)
  · rename_i hbrace
    rw [namedBoundary.eq_2 _ _ (ne_paren (p := ['{']) (by decide) hbrace t)]
    exact carry h _

theorem local_escape (f : Flags) : Local (escape f) := by
  intro cs a rest h t
  unfold escape at h
  split at h
  · exact absurd h nofun
  · rename_i c cs
    rw [List.cons_append, escape]
    split_ifs at h ⊢
    all_goals first
      | exact local_hexEscape _ h t
      | exact local_propertyEscape _ h t
      | exact carry h _
      | skip
    split at h
    all_goals first
      | exact carry h _
      | exact (local_namedBoundary _).map Escaped.look h t
      | exact absurd h (by simp)

/-! ## Classes and single parts -/

theorem local_classItem (f : Flags) : Local (classItem f) := by
  intro cs a rest h t
  unfold classItem at h
  split at h
  · exact local_escape f h t
  · rename_i hslash
    rw [List.cons_append, classItem]
    · exact carry h _
    · exact hslash
  · exact absurd h nofun

theorem local_primitive (f : Flags) : Local (primitive f) := by
  intro cs a rest h t
  unfold primitive at h
  split at h
  · obtain ⟨⟨e, later⟩, he, h⟩ := Option.bind_eq_some_iff.1 h
    rw [List.cons_append, primitive, local_escape f he t, Option.bind_some]
    dsimp only at h ⊢
    split at h
    · exact carry h _
    · exact carry h _
    · rename_i hset hlook
      cases e with
      | set s => exact absurd rfl (hset s)
      | look l => exact absurd rfl (hlook l)
      | literal c => exact map_carry h _
      | byte n => exact map_carry h _
  · exact map_carry h _
  · exact carry h _
  · exact carry h _
  · rename_i hslash hdot hstart hend
    rw [List.cons_append, primitive]
    · exact carry h _
    · exact hslash
    · exact hdot
    · exact hstart
    · exact hend
  · exact absurd h nofun

theorem local_groupName : Local groupName := by
  intro cs a rest h t
  unfold groupName at h ⊢
  split at h
  · rename_i hspan
    simp only [span_append hspan]
    split_ifs at h ⊢
    exact carry h _
  · exact absurd h nofun

theorem isLookAround_iff (cs : List Char) :
    isLookAround cs = true ↔
      ∃ p ∈ [['?', '='], ['?', '!'], ['?', '<', '='], ['?', '<', '!']], p <+: cs := by
  constructor
  · intro h
    unfold isLookAround at h
    split at h <;> simp_all
  · rintro ⟨p, hp, t, rfl⟩
    simp only [List.mem_cons, List.not_mem_nil, or_false] at hp
    rcases hp with rfl | rfl | rfl | rfl <;> rfl

theorem isLookAround_paren (cs t : List Char) :
    isLookAround (cs ++ ')' :: t) = isLookAround cs := by
  rw [Bool.eq_iff_iff, isLookAround_iff, isLookAround_iff]
  simp only [List.mem_cons, List.not_mem_nil, or_false]
  refine exists_congr fun p => and_congr_right fun hp => prefix_paren ?_ cs t
  rcases hp with rfl | rfl | rfl | rfl <;> decide

theorem laziness_paren (cs t : List Char) :
    laziness (cs ++ ')' :: t) = ((laziness cs).1, (laziness cs).2 ++ ')' :: t) := by
  rcases cons_or_ne '?' cs with ⟨later, rfl⟩ | hlazy
  · rfl
  · rw [laziness.eq_2 _ hlazy, laziness.eq_2 _ (ne_paren (p := ['?']) (by decide) hlazy t)]

theorem count_paren (cs t : List Char) :
    count (cs ++ ')' :: t) = (count cs).map fun r => (r.1, r.2 ++ ')' :: t) := by
  unfold count
  rw [dropWhile_paren (by decide), span_paren (by decide)]
  dsimp only
  rw [dropWhile_paren (by decide)]
  split_ifs <;> rfl

theorem local_count : Local count := by
  intro cs a rest h t
  rw [count_paren, h]
  rfl

theorem flagLetters_append {n m : Nat} (hm : n ≤ m) {f g : Flags} {negated dangling : Bool}
    {seen cs rest : List Char}
    (h : flagLetters n f negated seen dangling cs = some (g, rest)) (ext : List Char) :
    flagLetters m f negated seen dangling (cs ++ ext) = some (g, rest ++ ext) := by
  induction n generalizing f negated seen dangling cs m with
  | zero => exact absurd h nofun
  | succ n ih =>
    obtain ⟨m, rfl⟩ : ∃ k, m = k + 1 := ⟨m - 1, by omega⟩
    have hn : n ≤ m := by omega
    unfold flagLetters at h
    split at h
    · rw [List.cons_append, flagLetters]
      split_ifs at h ⊢
      exact carry h _
    · rw [List.cons_append, flagLetters]
      split_ifs at h ⊢
      exact carry h _
    · rw [List.cons_append, flagLetters]
      split_ifs at h ⊢
      exact ih hn h
    · rename_i hcolon hparen hdash
      rw [List.cons_append, flagLetters]
      · split_ifs at h ⊢
        obtain ⟨f', hf, h⟩ := Option.bind_eq_some_iff.1 h
        rw [hf]
        exact ih hn h
      · exact hcolon
      · exact hparen
      · exact hdash
    · exact absurd h nofun

end BmpFeed.Regex
