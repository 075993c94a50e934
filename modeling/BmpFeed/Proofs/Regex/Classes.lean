import BmpFeed.Proofs.Regex.Skip

/-!
# Character classes before a parenthesis

A class is read up to its own closing bracket, so that what comes after a parenthesis that follows
the text is no part of it, and more fuel than sufficed changes nothing.
-/

namespace BmpFeed.Regex

/-! ## Named sets -/

theorem asciiSet?_of_paren {name : String} (h : ')' ∈ name.toList) : asciiSet? name = none := by
  unfold asciiSet?
  split <;> first | rfl | exact absurd h (by decide)

/-- The set that a name names, up to the colon and the bracket after it. -/
def asciiNamed? (negated : Bool) (cs : List Char) : Option (CharSet × List Char) :=
  match cs.span (· ≠ ':') with
  | (name, ':' :: ']' :: rest) =>
    (asciiSet? (String.ofList name)).map fun s => (if negated then .compl s else s, rest)
  | _ => none

theorem asciiClass?_negated (cs : List Char) :
    asciiClass? (':' :: '^' :: cs) = asciiNamed? true cs := rfl

theorem asciiClass?_plain {cs : List Char} (h : ∀ later, cs ≠ '^' :: later) :
    asciiClass? (':' :: cs) = asciiNamed? false cs := asciiClass?.eq_2 cs h

theorem span_ne_of_mem {c : Char} {cs : List Char} (h : c ∈ cs) :
    ∃ name later, cs.span (· ≠ c) = (name, c :: later) := by
  rw [List.span_eq_takeWhile_dropWhile]
  cases hdrop : cs.dropWhile (· ≠ c) with
  | nil => simpa using List.dropWhile_eq_nil_iff.1 hdrop _ h
  | cons d later =>
    have hhead := List.head?_dropWhile_not (· ≠ c) cs
    rw [hdrop] at hhead
    obtain rfl : d = c := by simpa using hhead
    exact ⟨_, later, rfl⟩

theorem asciiNamed?_paren (negated : Bool) (cs t : List Char) :
    asciiNamed? negated (cs ++ ')' :: t) =
      (asciiNamed? negated cs).map fun r => (r.1, r.2 ++ ')' :: t) := by
  by_cases hcolon : ':' ∈ cs
  · obtain ⟨name, later, hspan⟩ := span_ne_of_mem hcolon
    unfold asciiNamed?
    rw [span_append hspan, hspan]
    rcases cons_or_ne ']' later with ⟨rest, rfl⟩ | hclosed
    · simp only [List.cons_append, Option.map_map]
      rfl
    · have hclosed' := ne_paren (p := [']']) (by decide) hclosed t
      split
      · rename_i heq
        exact absurd (List.cons.inj (Prod.mk.inj heq).2).2 (hclosed' _)
      · split
        · rename_i heq
          exact absurd (List.cons.inj (Prod.mk.inj heq).2).2 (hclosed _)
        · rfl
  · -- the name would reach beyond the parenthesis
    have hall : ∀ c ∈ cs, decide (c ≠ ':') = true :=
      fun c hc => decide_eq_true fun heq => hcolon (heq ▸ hc)
    have hname : (cs ++ ')' :: t).takeWhile (· ≠ ':') = cs ++ ')' :: t.takeWhile (· ≠ ':') := by
      rw [List.takeWhile_append_of_pos hall, List.takeWhile_cons_of_pos (by decide)]
    have hnone : asciiNamed? negated cs = none := by
      unfold asciiNamed?
      rw [List.span_eq_takeWhile_dropWhile, List.dropWhile_eq_nil_iff.2 hall]
    rw [hnone]
    unfold asciiNamed?
    rw [List.span_eq_takeWhile_dropWhile, hname]
    split
    · rename_i heq
      rw [← (Prod.mk.inj heq).1, asciiSet?_of_paren (by simp)]
      rfl
    · rfl

theorem asciiClass?_paren (cs t : List Char) :
    asciiClass? (cs ++ ')' :: t) = (asciiClass? cs).map fun r => (r.1, r.2 ++ ')' :: t) := by
  rcases cons_or_ne ':' cs with ⟨later, rfl⟩ | hcolon
  · rw [List.cons_append]
    rcases cons_or_ne '^' later with ⟨body, rfl⟩ | hnot
    · rw [List.cons_append, asciiClass?_negated, asciiClass?_negated, asciiNamed?_paren]
    · rw [asciiClass?_plain hnot, asciiClass?_plain (ne_paren (p := ['^']) (by decide) hnot t),
        asciiNamed?_paren]
  · rw [asciiClass?.eq_3 _ hcolon, asciiClass?.eq_3 _ (ne_paren (p := [':']) (by decide) hcolon t)]
    rfl

/-! ## Classes -/

theorem classFront_append (f : Flags) {n m : Nat} {s s' : ClassScan} {cs rest : List Char}
    (hn : cs.length ≤ n) (hm : n ≤ m) (h : classFront f n s cs = (s', rest)) (hne : rest ≠ [])
    (ext : List Char) : classFront f m s (cs ++ ext) = (s', rest ++ ext) := by
  induction n generalizing s cs m with
  | zero =>
    obtain rfl := List.eq_nil_of_length_eq_zero (by omega : cs.length = 0)
    exact absurd (Prod.mk.inj h).2.symm hne
  | succ n ih =>
    obtain ⟨m, rfl⟩ : ∃ k, m = k + 1 := ⟨m - 1, by omega⟩
    have hm : n ≤ m := by omega
    unfold classFront at h
    split at h
    · rename_i later
      have hskip := f.length_skip_le later
      have hdash : f.skip later ≠ [] := by
        intro hnil
        rw [hnil] at h
        cases n <;> exact absurd (Prod.mk.inj h).2.symm hne
      rw [List.length_cons] at hn
      rw [List.cons_append, classFront, f.skip_append hdash]
      exact ih (by omega) hm h
    · rename_i later
      rw [List.cons_append, classFront]
      split_ifs at h ⊢
      · obtain ⟨rfl, rfl⟩ := Prod.mk.inj h
        rw [f.skip_append hne]
      · obtain ⟨rfl, rfl⟩ := Prod.mk.inj h
        rfl
    · rename_i hdash hclosing
      obtain ⟨rfl, rfl⟩ := Prod.mk.inj h
      cases cs with
      | nil => contradiction
      | cons c cs =>
        rw [List.cons_append, classFront.eq_4]
        · intro later heq
          exact hdash cs (by rw [(List.cons.inj heq).1])
        · intro later heq
          exact hclosing cs (by rw [(List.cons.inj heq).1])

/-- Whether a class is negated, and what follows. -/
def classSign (f : Flags) (cs : List Char) : Bool × List Char :=
  match cs with
  | '^' :: rest => (true, f.skip rest)
  | _ => (false, cs)

theorem classSign_append (f : Flags) {cs : List Char} (hne : (classSign f cs).2 ≠ [])
    (ext : List Char) :
    classSign f (cs ++ ext) = ((classSign f cs).1, (classSign f cs).2 ++ ext) := by
  cases cs with
  | nil => exact absurd rfl hne
  | cons c cs =>
    by_cases hc : c = '^'
    · subst hc
      exact Prod.ext rfl (f.skip_append hne ext)
    · have hsign : ∀ later : List Char, classSign f (c :: later) = (false, c :: later) :=
        fun later => classSign.eq_2 f _ fun rest heq => hc (List.cons.inj heq).1
      rw [List.cons_append, hsign, hsign]
      rfl

theorem charClass_succ (f : Flags) (n : Nat) (cs : List Char) :
    charClass f (n + 1) cs =
      let (negated, cs) := classSign f (f.skip cs)
      let (s, cs) := classFront f cs.length {} cs
      (classItems f n s cs).bind fun (s, rest) =>
        if negated ∧ !f.unicode then none
        else
          some
            (if negated then .compl (f.fold (s.joined f)) else f.fold (s.joined f),
              s.depth + 1 + (if 2 ≤ s.count then 1 else 0), rest) := by
  rw [charClass]
  rfl

theorem classItems_nil (f : Flags) (n : Nat) (s : ClassScan) : classItems f n s [] = none := by
  cases n with
  | zero => rfl
  | succ n => rw [classItems, f.skip_nil]

/-- Before a parenthesis, and with more fuel, the reader of classes reads what it reads. -/
def SettledClass (f : Flags) (n : Nat) : Prop :=
  ∀ ⦃cs set depth rest⦄, charClass f n cs = some (set, depth, rest) → ∀ ⦃m⦄, n ≤ m → ∀ t,
    charClass f m (cs ++ ')' :: t) = some (set, depth, rest ++ ')' :: t)

/-- So does the reader of their items. -/
def SettledItems (f : Flags) (n : Nat) : Prop :=
  ∀ ⦃s cs s' rest⦄, classItems f n s cs = some (s', rest) → ∀ ⦃m⦄, n ≤ m → ∀ t,
    classItems f m s (cs ++ ')' :: t) = some (s', rest ++ ')' :: t)

section Steps

variable {f : Flags} {n : Nat}

theorem settledClass_succ (hItems : SettledItems f n) : SettledClass f (n + 1) := by
  intro cs set depth rest h m hm t
  obtain ⟨m, rfl⟩ : ∃ k, m = k + 1 := ⟨m - 1, by omega⟩
  have hm : n ≤ m := by omega
  rw [charClass_succ] at h ⊢
  dsimp only at h ⊢
  rcases hfront : classFront f (classSign f (f.skip cs)).2.length {}
    (classSign f (f.skip cs)).2 with ⟨scan, front⟩
  rw [hfront] at h
  obtain ⟨⟨s, later⟩, hitems, h⟩ := Option.bind_eq_some_iff.1 h
  -- items were read, so that none of the readers before them came to the end of the text
  have hfront_ne : front ≠ [] := by
    rintro rfl
    exact absurd hitems (by simp [classItems_nil])
  have hsign_ne : (classSign f (f.skip cs)).2 ≠ [] := by
    intro hnil
    rw [hnil] at hfront
    exact hfront_ne (Prod.mk.inj hfront).2.symm
  have hskip_ne : f.skip cs ≠ [] := by
    intro hnil
    rw [hnil] at hsign_ne
    exact hsign_ne rfl
  rw [f.skip_append hskip_ne, classSign_append f hsign_ne]
  dsimp only
  rw [classFront_append f (Nat.le_refl _) (by simp) hfront hfront_ne]
  dsimp only
  rw [hItems hitems hm t, Option.bind_some]
  dsimp only at h ⊢
  split_ifs at h ⊢ <;> (obtain ⟨rfl, rfl, rfl⟩ : _ ∧ _ ∧ _ := by simpa using h) <;> rfl

theorem settledItems_succ (hClass : SettledClass f n) (hItems : SettledItems f n) :
    SettledItems f (n + 1) := by
  intro s cs s' rest h m hm t
  obtain ⟨m, rfl⟩ : ∃ k, m = k + 1 := ⟨m - 1, by omega⟩
  have hm : n ≤ m := by omega
  rw [classItems] at h ⊢
  have hne : f.skip cs ≠ [] := by
    intro hnil
    rw [hnil] at h
    exact absurd h nofun
  rw [f.skip_append hne]
  generalize f.skip cs = cs at h hne
  split at h
  · contradiction
  · exact carry h _
  · rw [List.cons_append]
    simp only
    rw [asciiClass?_paren]
    split at h
    · rename_i heq
      rw [heq]
      exact hItems h hm t
    · rename_i heq
      obtain ⟨⟨set, depth, later⟩, hset, h⟩ := Option.bind_eq_some_iff.1 h
      rw [heq, Option.map_none]
      simp only
      rw [hClass hset hm t]
      exact hItems h hm t
  · exact hItems h hm t
  · exact hItems h hm t
  · exact hItems h hm t
  · rename_i hclosing hopening hand hminus htilde
    obtain ⟨⟨set, later⟩, hset, h⟩ := Option.bind_eq_some_iff.1 h
    split
    · rename_i heq
      exact absurd heq (by simp)
    · rename_i heq
      exact absurd heq (ne_paren (p := [']']) (by decide) hclosing t _)
    · rename_i heq
      exact absurd heq (ne_paren (p := ['[']) (by decide) hopening t _)
    · rename_i heq
      exact absurd heq (ne_paren (p := ['&', '&']) (by decide) hand t _)
    · rename_i heq
      exact absurd heq (ne_paren (p := ['-', '-']) (by decide) hminus t _)
    · rename_i heq
      exact absurd heq (ne_paren (p := ['~', '~']) (by decide) htilde t _)
    · rw [local_classRange f hset t]
      exact hItems h hm t

end Steps

theorem settledClass (f : Flags) (n : Nat) : SettledClass f n ∧ SettledItems f n := by
  induction n with
  | zero => exact ⟨nofun, nofun⟩
  | succ n ih => exact ⟨settledClass_succ ih.2, settledItems_succ ih.1 ih.2⟩

end BmpFeed.Regex
