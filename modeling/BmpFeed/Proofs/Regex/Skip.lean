import BmpFeed.Proofs.Regex.Local

/-!
# Skipping and open comments

The one thing a closing parenthesis does not end is the comment of a verbose expression. A reader
that skips is `AlmostLocal`: what it reads stays the same, and the parenthesis is left over too
unless a comment is open, which then goes on to the end of the line.
-/

namespace BmpFeed.Regex

/-! ## What is skipped -/

/-- What is left when a parenthesis and `t` come after what was left before; an open comment goes on
to the end. -/
def beyond (comment : Bool) (rest t : List Char) : List Char :=
  if comment then [] else rest ++ ')' :: t

/-- What follows the end of the line. -/
def nextLine (cs : List Char) : List Char := (cs.dropWhile (· ≠ '\n')).drop 1

theorem length_nextLine_le (cs : List Char) : (nextLine cs).length ≤ cs.length := by
  have := (List.dropWhile_suffix (· ≠ '\n') (l := cs)).length_le
  unfold nextLine
  rw [List.length_drop]
  omega

theorem nextLine_append {cs : List Char} (h : '\n' ∈ cs) (ext : List Char) :
    nextLine (cs ++ ext) = nextLine cs ++ ext := by
  have hline : cs.dropWhile (· ≠ '\n') ≠ [] := by
    intro hnil
    simpa using List.dropWhile_eq_nil_iff.1 hnil _ h
  unfold nextLine
  rw [List.dropWhile_append, if_neg (by simpa using hline),
    List.drop_append_of_le_length (List.length_pos_iff.2 hline)]

theorem nextLine_eq_nil {cs : List Char} (h : '\n' ∉ cs) : nextLine cs = [] := by
  have hnil : cs.dropWhile (· ≠ '\n') = [] :=
    List.dropWhile_eq_nil_iff.2 fun c hc => decide_eq_true fun heq => h (heq ▸ hc)
  unfold nextLine
  rw [hnil, List.drop_nil]

/-- What skipping in a verbose expression leaves of a text. -/
inductive Skipped : List Char → List Char → Prop
  | done : Skipped [] []
  | comment {cs rest : List Char} : Skipped (nextLine cs) rest → Skipped ('#' :: cs) rest
  | blank {c : Char} {cs rest : List Char} : c ≠ '#' → Text.isBlank c = true → Skipped cs rest →
      Skipped (c :: cs) rest
  | stop {c : Char} {cs : List Char} : c ≠ '#' → Text.isBlank c = false →
      Skipped (c :: cs) (c :: cs)

namespace Skipped

variable {cs rest : List Char}

theorem of_go {n : Nat} (hn : cs.length ≤ n) : Skipped cs (Flags.skip.go n cs) := by
  induction n generalizing cs with
  | zero =>
    obtain rfl := List.eq_nil_of_length_eq_zero (by omega : cs.length = 0)
    exact done
  | succ n ih =>
    unfold Flags.skip.go
    split
    · rename_i later
      have := length_nextLine_le later
      rw [List.length_cons] at hn
      exact comment (ih (by unfold nextLine at this ⊢; omega))
    · rename_i c later hc
      rw [List.length_cons] at hn
      by_cases hb : Text.isBlank c = true
      · rw [if_pos hb]
        exact blank (fun heq => hc (by rw [heq])) hb (ih (by omega))
      · rw [if_neg hb]
        exact stop (fun heq => hc (by rw [heq])) (by simpa using hb)
    · exact done

theorem unique {rest' : List Char} (h : Skipped cs rest) (h' : Skipped cs rest') :
    rest = rest' := by
  induction h generalizing rest' with
  | done => cases h'; rfl
  | comment _ ih =>
    cases h' with
    | comment h' => exact ih h'
    | blank hc => exact absurd rfl hc
    | stop hc => exact absurd rfl hc
  | blank hc hb _ ih =>
    cases h' with
    | comment => exact absurd rfl hc
    | blank _ _ h' => exact ih h'
    | stop _ hb' => rw [hb] at hb'; exact absurd hb' nofun
  | stop hc hb =>
    cases h' with
    | comment => exact absurd rfl hc
    | blank _ hb' => rw [hb] at hb'; exact absurd hb' nofun
    | stop => rfl

theorem length_le (h : Skipped cs rest) : rest.length ≤ cs.length := by
  induction h with
  | done => exact Nat.le_refl _
  | @comment cs _ _ ih => exact Nat.le_succ_of_le (Nat.le_trans ih (length_nextLine_le cs))
  | blank _ _ _ ih => exact Nat.le_succ_of_le ih
  | stop => exact Nat.le_refl _

theorem append (h : Skipped cs rest) (hne : rest ≠ []) (ext : List Char) :
    Skipped (cs ++ ext) (rest ++ ext) := by
  induction h with
  | done => exact absurd rfl hne
  | @comment cs rest h ih =>
    -- the comment ends within the text, or nothing would be left
    have hline : '\n' ∈ cs := by
      by_contra hno
      rw [nextLine_eq_nil hno] at h
      cases h
      exact hne rfl
    exact comment (nextLine_append hline ext ▸ ih hne)
  | blank hc hb _ ih => exact blank hc hb (ih hne)
  | stop hc hb => exact stop hc hb

/-- Where nothing is left, a parenthesis stops the skipping unless a comment is open. -/
theorem paren (h : Skipped cs []) : ∃ comment : Bool, ∀ t, (comment = true → '\n' ∉ t) →
    Skipped (cs ++ ')' :: t) (beyond comment [] t) := by
  generalize hrest : ([] : List Char) = rest at h
  induction h with
  | done => exact ⟨false, fun t _ => stop (by decide) (by decide)⟩
  | @comment cs rest h ih =>
    by_cases hline : '\n' ∈ cs
    · obtain ⟨open', ih⟩ := ih hrest
      exact ⟨open', fun t ht => comment (nextLine_append hline _ ▸ ih t ht)⟩
    · refine ⟨true, fun t ht => comment ?_⟩
      rw [List.append_eq, nextLine_eq_nil (by simp [hline, ht rfl])]
      exact done
  | blank hc hb _ ih =>
    obtain ⟨open', ih⟩ := ih hrest
    exact ⟨open', fun t ht => blank hc hb (ih t ht)⟩
  | stop => exact absurd hrest nofun

end Skipped

namespace Flags

variable (f : Flags)

@[simp] theorem skip_nil : f.skip [] = [] := by
  unfold skip
  split_ifs <;> rfl

theorem length_skip_le (cs : List Char) : (f.skip cs).length ≤ cs.length := by
  unfold skip
  split_ifs
  · exact (Skipped.of_go (Nat.le_refl _)).length_le
  · exact Nat.le_refl _

theorem skip_append {cs : List Char} (hne : f.skip cs ≠ []) (ext : List Char) :
    f.skip (cs ++ ext) = f.skip cs ++ ext := by
  unfold skip at hne ⊢
  split_ifs with hv
  · rw [if_pos hv] at hne
    exact (Skipped.of_go (Nat.le_refl _)).unique ((Skipped.of_go (Nat.le_refl _)).append hne ext)
  · rfl

theorem skip_paren {cs : List Char} (h : f.skip cs = []) :
    ∃ comment : Bool, ∀ t, (comment = true → '\n' ∉ t) →
      f.skip (cs ++ ')' :: t) = beyond comment [] t := by
  unfold skip at h ⊢
  by_cases hv : f.verbose = true
  · rw [if_pos hv] at h
    obtain ⟨comment, hskip⟩ := (h ▸ Skipped.of_go (Nat.le_refl cs.length) : Skipped cs []).paren
    refine ⟨comment, fun t ht => ?_⟩
    rw [if_pos hv]
    exact (Skipped.of_go (Nat.le_refl _)).unique (hskip t ht)
  · rw [if_neg hv] at h
    subst h
    exact ⟨false, fun t _ => if_neg hv⟩

end Flags

/-! ## Readers that skip -/

variable {α : Type}

/-- A closing parenthesis after the text changes nothing for the reader, except that a comment may
be open where the text ends. -/
def AlmostLocal (read : List Char → Option (α × List Char)) : Prop :=
  ∀ ⦃cs a rest⦄, read cs = some (a, rest) →
    ∃ comment : Bool, (comment = true → rest = []) ∧
      ∀ t, (comment = true → '\n' ∉ t) → read (cs ++ ')' :: t) = some (a, beyond comment rest t)

theorem local_bounds (f : Flags) : ∀ ⦃cs low high rest⦄, bounds f cs = some (low, high, rest) →
    ∀ t, bounds f (cs ++ ')' :: t) = some (low, high, rest ++ ')' :: t) := by
  intro cs low high rest h t
  have hne : f.skip cs ≠ [] := by
    intro hnil
    unfold bounds at h
    rw [hnil] at h
    exact absurd h nofun
  unfold bounds at h ⊢
  obtain ⟨⟨low?, counted⟩, hcount, h⟩ := Option.bind_eq_some_iff.1 h
  rw [f.skip_append hne, local_count hcount t, Option.bind_some]
  dsimp only at h ⊢
  split at h
  · obtain ⟨rfl, rfl, rfl⟩ : _ ∧ _ ∧ _ := by simpa using h
    rfl
  · rename_i later
    by_cases hnil : f.skip later = []
    · rw [hnil] at h
      cases low? <;> exact absurd h nofun
    rw [List.cons_append]
    simp only
    rw [f.skip_append hnil]
    generalize f.skip later = X at *
    split at h
    · obtain ⟨rfl, rfl, rfl⟩ : _ ∧ _ ∧ _ := by simpa using h
      rfl
    · exact absurd h nofun
    · rename_i hclosed hopen
      split
      · rename_i heq
        exact absurd heq (ne_paren (p := ['}']) (by decide) (fun r => hclosed _ r rfl) t _)
      · rename_i heq
        exact absurd heq (ne_paren (p := ['}']) (by decide) (fun r => hopen r rfl) t _)
      · obtain ⟨⟨high?, counted⟩, hcount', h⟩ := Option.bind_eq_some_iff.1 h
        rw [local_count hcount' t, Option.bind_some]
        dsimp only at h ⊢
        split at h
        · simp only [List.cons_append]
          split_ifs at h ⊢
          obtain ⟨rfl, rfl, rfl⟩ : _ ∧ _ ∧ _ := by simpa using h
          rfl
        · exact absurd h nofun
  · exact absurd h nofun

theorem local_classRange (f : Flags) : Local (classRange f) := by
  intro cs a rest h t
  unfold classRange at h ⊢
  obtain ⟨⟨first, later⟩, hfirst, h⟩ := Option.bind_eq_some_iff.1 h
  rw [local_classItem f hfirst t, Option.bind_some]
  dsimp only at h ⊢
  by_cases hnil : f.skip later = []
  · rw [hnil] at h
    exact absurd h nofun
  rw [f.skip_append hnil]
  split at h
  · contradiction
  · rename_i dashed heq
    rw [heq, List.cons_append]
    simp only
    by_cases hnil : f.skip dashed = []
    · rw [hnil] at h
      exact absurd h nofun
    rw [f.skip_append hnil]
    split at h
    · rename_i heq
      rw [heq]
      exact map_carry h _
    · rename_i heq
      rw [heq]
      exact map_carry h _
    · rename_i hclosing hdash
      split
      · rename_i heq
        exact absurd heq (ne_paren (p := [']']) (by decide) hclosing t _)
      · rename_i heq
        exact absurd heq (ne_paren (p := ['-']) (by decide) hdash t _)
      · obtain ⟨⟨last, ranged⟩, hlast, h⟩ := Option.bind_eq_some_iff.1 h
        obtain ⟨low, hlow, h⟩ := Option.bind_eq_some_iff.1 h
        obtain ⟨high, hhigh, h⟩ := Option.bind_eq_some_iff.1 h
        rw [local_classItem f hlast t, hlow]
        simp only [Option.bind_some, hhigh] at h ⊢
        split_ifs at h ⊢
        exact carry h _
  · rename_i hne hdash
    split
    · rename_i heq
      exact absurd heq (by simp)
    · rename_i heq
      exact absurd heq (ne_paren (p := ['-']) (by decide) hdash t _)
    · exact map_carry h _

end BmpFeed.Regex
