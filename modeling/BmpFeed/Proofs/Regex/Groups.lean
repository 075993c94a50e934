import BmpFeed.Proofs.Regex.Classes
import Mathlib.Data.List.Nodup

/-!
# What a group reads

The text of an expression is read the same when it stands in parentheses after other groups, except
that a group name of theirs is refused and that a comment at its end swallows the parenthesis.
-/

namespace BmpFeed.Regex

/-- What a character that is no parenthesis begins: an alternative, a part, or a repetition. -/
def token (s : Sequence) (cs : List Char) : Option (Sequence × List Char) :=
  match cs with
  | '|' :: rest => some (s.alternate, rest)
  | '[' :: rest =>
    (charClass s.flags (rest.length + 1) rest).map fun (set, depth, rest) =>
      (s.push { regex := .chars set, depth }, rest)
  | '?' :: rest => (s.repeatLast 0 (some 1) (laziness rest).1).map fun s => (s, (laziness rest).2)
  | '*' :: rest => (s.repeatLast 0 none (laziness rest).1).map fun s => (s, (laziness rest).2)
  | '+' :: rest => (s.repeatLast 1 none (laziness rest).1).map fun s => (s, (laziness rest).2)
  | '{' :: rest =>
    (bounds s.flags rest).bind fun (low, high, rest) =>
      let rest := s.flags.skip rest
      (s.repeatLast low high (laziness rest).1).map fun s => (s, (laziness rest).2)
  | cs => (primitive s.flags cs).map fun (r, rest) => (s.push { regex := r }, rest)

theorem sequence_succ (n : Nat) (s : Sequence) (names : List String) (cs : List Char) :
    sequence (n + 1) s names cs =
      match s.flags.skip cs with
      | [] => some (s.finish, names, [])
      | ')' :: rest => some (s.finish, names, ')' :: rest)
      | '(' :: rest => group n s names (s.flags.skip rest)
      | cs => (token s cs).bind fun (s, rest) => sequence n s names rest := by
  rw [sequence]
  generalize s.flags.skip cs = cs
  split
  · rfl
  · rfl
  · rfl
  · rfl
  · show _ = (token s ('[' :: _)).bind _
    rw [token, Option.bind_map]
    rfl
  · show _ = (token s ('?' :: _)).bind _
    rw [token, Option.bind_map]
    rfl
  · show _ = (token s ('*' :: _)).bind _
    rw [token, Option.bind_map]
    rfl
  · show _ = (token s ('+' :: _)).bind _
    rw [token, Option.bind_map]
    rfl
  · show _ = (token s ('{' :: _)).bind _
    rw [token, Option.bind_assoc]
    simp only [Option.bind_map]
    rfl
  · rename_i hnil hclose hbar hopen hclass hmaybe hstar hplus hbrace
    split
    · contradiction
    · exact absurd rfl (hclose _)
    · exact absurd rfl (hopen _)
    · rw [token, Option.bind_map]
      · rfl
      · exact hbar
      · exact hclass
      · exact hmaybe
      · exact hstar
      · exact hplus
      · exact hbrace

theorem repeatLast_paren {s s' : Sequence} {low : Nat} {high : Option Nat} {cs rest : List Char}
    (h : (s.repeatLast low high (laziness cs).1).map (fun s => (s, (laziness cs).2)) =
      some (s', rest)) (t : List Char) :
    (s.repeatLast low high (laziness (cs ++ ')' :: t)).1).map
        (fun s => (s, (laziness (cs ++ ')' :: t)).2)) = some (s', rest ++ ')' :: t) := by
  rw [laziness_paren]
  exact map_carry h _

theorem almostLocal_token (s : Sequence) : AlmostLocal (token s) := by
  intro cs s' rest h
  unfold token at h
  split at h
  · exact ⟨false, nofun, fun t _ => carry h _⟩
  · refine ⟨false, nofun, fun t _ => ?_⟩
    rename_i later
    obtain ⟨⟨set, depth, later'⟩, hset, heq⟩ := Option.map_eq_some_iff.1 h
    obtain ⟨rfl, rfl⟩ := Prod.mk.inj heq
    rw [List.cons_append, token, (settledClass s.flags _).1 hset (by simp) t]
    rfl
  · exact ⟨false, nofun, fun t _ => repeatLast_paren h t⟩
  · exact ⟨false, nofun, fun t _ => repeatLast_paren h t⟩
  · exact ⟨false, nofun, fun t _ => repeatLast_paren h t⟩
  · rename_i later
    obtain ⟨⟨low, high, bounded⟩, hbounds, h⟩ := Option.bind_eq_some_iff.1 h
    dsimp only at h
    by_cases hnil : s.flags.skip bounded = []
    · -- the text ends with the bounds, and perhaps with an open comment
      obtain ⟨comment, hskip⟩ := s.flags.skip_paren hnil
      rw [hnil] at h
      obtain ⟨s'', hs, heq⟩ := Option.map_eq_some_iff.1 h
      obtain ⟨rfl, rfl⟩ := Prod.mk.inj heq
      refine ⟨comment, fun _ => rfl, fun t ht => ?_⟩
      rw [List.cons_append, token, local_bounds s.flags hbounds t, Option.bind_some]
      dsimp only
      rw [hskip t ht]
      cases comment with
      | false => exact repeatLast_paren h t
      | true => exact h
    · refine ⟨false, nofun, fun t _ => ?_⟩
      rw [List.cons_append, token, local_bounds s.flags hbounds t, Option.bind_some]
      dsimp only
      rw [s.flags.skip_append hnil]
      exact repeatLast_paren h t
  · rename_i hbar hclass hmaybe hstar hplus hbrace
    obtain ⟨⟨r, later⟩, hr, heq⟩ := Option.map_eq_some_iff.1 h
    obtain ⟨rfl, rfl⟩ := Prod.mk.inj heq
    refine ⟨false, nofun, fun t _ => ?_⟩
    rw [token, local_primitive s.flags hr t]
    · rfl
    · exact ne_paren (p := ['|']) (by decide) hbar t
    · exact ne_paren (p := ['[']) (by decide) hclass t
    · exact ne_paren (p := ['?']) (by decide) hmaybe t
    · exact ne_paren (p := ['*']) (by decide) hstar t
    · exact ne_paren (p := ['+']) (by decide) hplus t
    · exact ne_paren (p := ['{']) (by decide) hbrace t

/-- What an opening parenthesis begins. -/
inductive Opening
  | named (name : String)
  /-- Flags for what follows, without an inside. -/
  | flags (f : Flags)
  /-- A group without a name, and the flags in it. -/
  | under (f : Flags)

/-- What flags begin that were read from a text of this length. -/
def flagged? (f : Flags) (length : Nat) (cs : List Char) : Option (Opening × List Char) :=
  match cs with
  | ')' :: later => if length = cs.length then none else some (.flags f, later)
  | ':' :: later => some (.under f, later)
  | _ => none

/-- What a group begins with, up to its inside. -/
def opening? (f : Flags) (cs : List Char) : Option (Opening × List Char) :=
  if isLookAround cs then none
  else
    match cs with
    | '?' :: 'P' :: '<' :: rest | '?' :: '<' :: rest =>
      (groupName rest).map fun (name, rest) => (.named name, rest)
    | '?' :: rest =>
      (flagLetters (rest.length + 1) f false [] false rest).bind fun (f, rest') =>
        flagged? f rest.length rest'
    | rest => some (.under f, rest)

/-- The group with this opening, and what follows it. -/
def enter (n : Nat) (s : Sequence) (names : List String) (cs : List Char) :
    Opening → Option (Part × List String × List Char)
  | .named name => if names.contains name then none else inside n s s.flags (name :: names) cs
  | .flags f => sequence n { s with flags := f, parts := none :: s.parts } names cs
  | .under f => inside n s f names cs

section Opening

variable {f : Flags} {cs rest : List Char}

theorem flagged?_append {n : Nat} {o : Opening} (h : flagged? f n cs = some (o, rest))
    (t : List Char) : flagged? f (n + t.length) (cs ++ t) = some (o, rest ++ t) := by
  unfold flagged? at h ⊢
  split at h
  · rw [List.cons_append]
    simp only [List.length_cons, List.length_append] at h ⊢
    split_ifs at h with hbare
    rw [if_neg (by omega)]
    exact carry h t
  · exact carry h t
  · exact absurd h nofun

theorem opening?_named (hlook : ¬isLookAround cs = true)
    (h : cs = '?' :: 'P' :: '<' :: rest ∨ cs = '?' :: '<' :: rest) :
    opening? f cs = (groupName rest).map fun (name, rest) => (.named name, rest) := by
  unfold opening?
  rw [if_neg hlook]
  rcases h with rfl | rfl <;> rfl

theorem opening?_flags (hlook : ¬isLookAround ('?' :: rest) = true)
    (hP : ∀ later, rest ≠ 'P' :: '<' :: later) (hname : ∀ later, rest ≠ '<' :: later) :
    opening? f ('?' :: rest) =
      (flagLetters (rest.length + 1) f false [] false rest).bind fun (f, rest') =>
        flagged? f rest.length rest' := by
  unfold opening?
  rw [if_neg hlook]
  split
  · rename_i heq
    exact absurd (List.cons.inj heq).2 (hP _)
  · rename_i heq
    exact absurd (List.cons.inj heq).2 (hname _)
  · rename_i heq
    obtain rfl := (List.cons.inj heq).2
    rfl
  · rename_i hmark
    exact absurd rfl (hmark _)

theorem opening?_plain (h : ∀ later, cs ≠ '?' :: later) : opening? f cs = some (.under f, cs) := by
  have hlook : isLookAround cs = false := by
    rw [Bool.eq_false_iff, Ne, isLookAround_iff]
    rintro ⟨p, hp, t, rfl⟩
    simp only [List.mem_cons, List.not_mem_nil, or_false] at hp
    rcases hp with rfl | rfl | rfl | rfl <;> exact h _ rfl
  unfold opening?
  rw [hlook, if_neg (by decide)]
  split
  · exact absurd rfl (h _)
  · exact absurd rfl (h _)
  · exact absurd rfl (h _)
  · rfl

end Opening

theorem group_succ (n : Nat) (s : Sequence) (names : List String) (cs : List Char) :
    group (n + 1) s names cs =
      (opening? s.flags cs).bind fun (o, rest) => enter n s names rest o := by
  unfold group
  by_cases hlook : isLookAround cs = true
  · unfold opening?
    rw [if_pos hlook, if_pos hlook]
    rfl
  rw [if_neg hlook]
  split
  · rw [opening?_named hlook (.inl rfl), Option.bind_map]
    rfl
  · rw [opening?_named hlook (.inr rfl), Option.bind_map]
    rfl
  · rename_i later hP hname
    rw [opening?_flags hlook hP hname, Option.bind_assoc]
    congr 1
    funext ⟨f, rest'⟩
    dsimp only
    split
    · show _ = (if _ then _ else _ : Option (Opening × List Char)).bind _
      split_ifs <;> rfl
    · rfl
    · rename_i hclose hcolon
      have hnone : flagged? f later.length rest' = none := by
        unfold flagged?
        split
        · exact absurd rfl (hclose _)
        · exact absurd rfl (hcolon _)
        · rfl
      rw [hnone]
      rfl
  · rename_i hplain
    rw [opening?_plain hplain]
    rfl

theorem local_opening? (f : Flags) : Local (opening? f) := by
  intro cs o rest h t
  by_cases hlook : isLookAround cs = true
  · unfold opening? at h
    rw [if_pos hlook] at h
    exact absurd h nofun
  have hlook' : ¬isLookAround (cs ++ ')' :: t) = true := by rwa [isLookAround_paren]
  unfold opening? at h
  rw [if_neg hlook] at h
  split at h
  · rw [opening?_named hlook' (.inl rfl)]
    exact (local_groupName.map Opening.named) h t
  · rw [opening?_named hlook' (.inr rfl)]
    exact (local_groupName.map Opening.named) h t
  · rename_i later hP hname
    obtain ⟨⟨f', rest'⟩, hflags, h⟩ := Option.bind_eq_some_iff.1 h
    rw [List.cons_append] at hlook' ⊢
    rw [opening?_flags hlook' (ne_paren (p := ['P', '<']) (by decide) hP t)
      (ne_paren (p := ['<']) (by decide) hname t), flagLetters_append (by simp) hflags (')' :: t),
      Option.bind_some, List.length_append]
    exact flagged?_append h _
  · rename_i hP hname hplain
    rw [opening?_plain (ne_paren (p := ['?']) (by decide) hplain t)]
    exact carry h _

/-! ## Names -/

/-- None of the first names is among the second. -/
abbrev Fresh (new names : List String) : Prop := ∀ x ∈ new, x ∉ names

variable {new new₁ new₂ names : List String}

theorem fresh_append_left :
    Fresh (new₁ ++ new₂) names ↔ Fresh new₁ names ∧ Fresh new₂ names := List.forall_mem_append

theorem fresh_append_right :
    Fresh new (new₁ ++ names) ↔ Fresh new new₁ ∧ Fresh new names := by
  constructor
  · intro h
    exact ⟨fun x hx hmem => h x hx (List.mem_append_left _ hmem),
      fun x hx hmem => h x hx (List.mem_append_right _ hmem)⟩
  · rintro ⟨hfirst, hlater⟩ x hx hmem
    rcases List.mem_append.1 hmem with hmem | hmem
    · exact hfirst x hx hmem
    · exact hlater x hx hmem

/-- Names that are read after others are refused where the others are too. -/
theorem Fresh.append_iff (h : Fresh new₂ new₁) :
    Fresh (new₂ ++ new₁) names ↔ Fresh new₁ names ∧ Fresh new₂ (new₁ ++ names) := by
  rw [fresh_append_left, fresh_append_right]
  exact ⟨fun ⟨hlater, hfirst⟩ => ⟨hfirst, h, hlater⟩, fun ⟨hfirst, _, hlater⟩ => ⟨hlater, hfirst⟩⟩

theorem Fresh.singleton {x : String} : Fresh [x] names ↔ x ∉ names := by
  constructor
  · exact fun h => h x (List.mem_singleton_self x)
  · intro h y hy
    rwa [List.mem_singleton.1 hy]

theorem nodup_append_of_fresh (h₂ : new₂.Nodup) (h₁ : new₁.Nodup) (h : Fresh new₂ new₁) :
    (new₂ ++ new₁).Nodup := List.nodup_append'.2 ⟨h₂, h₁, fun x hx hmem => h x hx hmem⟩

/-! ## Groups -/

/-- A reader of parts, by its fuel and the group names that are taken. -/
abbrev Reader := Nat → List String → List Char → Option (Part × List String × List Char)

/-- With this much fuel or more, and a parenthesis after the text, the reader finds the part and the
new names, unless one of them is taken. -/
structure Found (read : Reader) (n : Nat) (cs : List Char) (p : Part) (new : List String)
    (rest : List Char) (comment : Bool) : Prop where
  nodup : new.Nodup
  ended : comment = true → rest = []
  read_paren : ∀ m ≥ n, ∀ names t, (comment = true → '\n' ∉ t) →
    read m names (cs ++ ')' :: t) =
      if Fresh new names then some (p, new ++ names, beyond comment rest t) else none

/-- What the reader finds in a text it finds before a parenthesis too. -/
def Settled (read : Reader) (n : Nat) : Prop :=
  ∀ ⦃names cs p names' rest⦄, read n names cs = some (p, names', rest) →
    ∃ new comment, names' = new ++ names ∧ Fresh new names ∧ Found read n cs p new rest comment

/-- A reader that first takes names and then reads as another does. -/
theorem Found.after {read read' : Reader} {n : Nat} {cs cs' rest : List Char} {p : Part}
    {comment : Bool} (h : Found read n cs p new₂ rest comment) (hnodup : new₁.Nodup)
    (hfresh : Fresh new₂ new₁)
    (hstep : ∀ m ≥ n, ∀ names t, read' (m + 1) names (cs' ++ ')' :: t) =
      if Fresh new₁ names then read m (new₁ ++ names) (cs ++ ')' :: t) else none) :
    Found read' (n + 1) cs' p (new₂ ++ new₁) rest comment where
  nodup := nodup_append_of_fresh h.nodup hnodup hfresh
  ended := h.ended
  read_paren := by
    intro m hm names t ht
    obtain ⟨m, rfl⟩ : ∃ k, m = k + 1 := ⟨m - 1, by omega⟩
    rw [hstep m (by omega), h.read_paren m (by omega) (new₁ ++ names) t ht]
    by_cases hfirst : Fresh new₁ names
    · rw [if_pos hfirst]
      by_cases hlater : Fresh new₂ (new₁ ++ names)
      · rw [if_pos hlater, if_pos (hfresh.append_iff.2 ⟨hfirst, hlater⟩), List.append_assoc]
      · rw [if_neg hlater, if_neg fun hboth => hlater (hfresh.append_iff.1 hboth).2]
    · rw [if_neg hfirst, if_neg fun hboth => hfirst (hfresh.append_iff.1 hboth).1]

theorem Found.succ {read read' : Reader} {n : Nat} {cs cs' rest : List Char} {p : Part}
    {comment : Bool} (h : Found read n cs p new rest comment)
    (hstep : ∀ m names t, read' (m + 1) names (cs' ++ ')' :: t) = read m names (cs ++ ')' :: t)) :
    Found read' (n + 1) cs' p new rest comment := by
  have hafter : Found read' (n + 1) cs' p (new ++ []) rest comment := by
    refine h.after List.nodup_nil (fun _ _ => List.not_mem_nil) fun m _ names t => ?_
    rw [hstep, if_pos nofun, List.nil_append]
  rwa [List.append_nil] at hafter

/-- A part that ends at once. -/
theorem Found.of_finish {read : Reader} {n : Nat} {cs rest : List Char} {p : Part} {comment : Bool}
    (hended : comment = true → rest = [])
    (hread : ∀ m ≥ n, ∀ names t, (comment = true → '\n' ∉ t) →
      read m names (cs ++ ')' :: t) = some (p, names, beyond comment rest t)) :
    Found read n cs p [] rest comment where
  nodup := List.nodup_nil
  ended := hended
  read_paren := by
    intro m hm names t ht
    rw [hread m hm names t ht, if_pos nofun]
    rfl

section Steps

variable {n : Nat}

theorem sequence_nil (n : Nat) (s : Sequence) (names : List String) :
    sequence (n + 1) s names [] = some (s.finish, names, []) := by
  rw [sequence_succ, s.flags.skip_nil]

theorem group_nil (n : Nat) (s : Sequence) (names : List String) : group n s names [] = none := by
  match n with
  | 0 => rfl
  | 1 => rfl
  | 2 => rfl
  | n + 3 =>
    rw [group_succ]
    show inside (n + 2) s s.flags names [] = none
    rw [inside, sequence_nil]
    rfl

theorem settled_inside (hseq : ∀ s, Settled (fun m => sequence m s) n) (s : Sequence) (f : Flags) :
    Settled (fun m => inside m s f) (n + 1) := by
  intro names cs p names' rest h
  dsimp only at h
  rw [inside] at h
  obtain ⟨⟨q, names₁, rest₁⟩, hq, h⟩ := Option.bind_eq_some_iff.1 h
  dsimp only at h
  split at h
  · rename_i later
    obtain ⟨new₁, comment₁, rfl, hfresh₁, hfound₁⟩ := hseq _ hq
    obtain ⟨new₂, comment₂, rfl, hfresh₂, hfound₂⟩ := hseq _ h
    -- the inside was closed, so that no comment was open
    obtain rfl : comment₁ = false := by
      cases comment₁ with
      | false => rfl
      | true => exact absurd (hfound₁.ended rfl) (by simp)
    have hfresh : Fresh new₂ new₁ := (fresh_append_right.1 hfresh₂).1
    refine ⟨new₂ ++ new₁, comment₂, by rw [List.append_assoc],
      hfresh.append_iff.2 ⟨hfresh₁, hfresh₂⟩, hfound₂.after hfound₁.nodup hfresh ?_⟩
    intro m hm names₂ t
    have hq' := hfound₁.read_paren m hm names₂ t nofun
    show inside (m + 1) s f names₂ _ = _
    rw [inside, hq']
    split_ifs <;> rfl
  · exact absurd h nofun

theorem settled_group (hseq : ∀ s, Settled (fun m => sequence m s) n)
    (hinside : ∀ s f, Settled (fun m => inside m s f) n) (s : Sequence) :
    Settled (fun m => group m s) (n + 1) := by
  intro names cs p names' rest h
  dsimp only at h
  rw [group_succ] at h
  obtain ⟨⟨o, later⟩, ho, h⟩ := Option.bind_eq_some_iff.1 h
  have hstep : ∀ m names t, group (m + 1) s names (cs ++ ')' :: t) =
      enter m s names (later ++ ')' :: t) o := by
    intro m names t
    rw [group_succ, local_opening? s.flags ho t, Option.bind_some]
  cases o with
  | named name =>
    dsimp only [enter] at h
    split_ifs at h with hname
    obtain ⟨new, comment, rfl, hfresh, hfound⟩ := hinside _ _ h
    have hnew : Fresh new [name] :=
      fun x hx hmem => hfresh x hx (List.mem_cons.2 (.inl (List.mem_singleton.1 hmem)))
    have hfree : Fresh [name] names := Fresh.singleton.2 (by simpa using hname)
    refine ⟨new ++ [name], comment, by simp, hnew.append_iff.2 ⟨hfree, hfresh⟩,
      hfound.after (List.nodup_singleton name) hnew ?_⟩
    intro m hm names₂ t
    show group (m + 1) s names₂ _ = _
    rw [hstep]
    dsimp only [enter]
    by_cases htaken : names₂.contains name = true
    · rw [if_pos htaken, if_neg fun h => Fresh.singleton.1 h (by simpa using htaken)]
    · rw [if_neg htaken, if_pos (Fresh.singleton.2 (by simpa using htaken))]
      rfl
  | flags f =>
    obtain ⟨new, comment, hnames, hfresh, hfound⟩ := hseq _ h
    exact ⟨new, comment, hnames, hfresh, hfound.succ hstep⟩
  | under f =>
    obtain ⟨new, comment, hnames, hfresh, hfound⟩ := hinside _ _ h
    exact ⟨new, comment, hnames, hfresh, hfound.succ hstep⟩

theorem sequence_open {s : Sequence} {cs later : List Char} (hopen : s.flags.skip cs = '(' :: later)
    (hinner : s.flags.skip later ≠ []) (m : Nat) (names : List String) (ext : List Char) :
    sequence (m + 1) s names (cs ++ ext) = group m s names (s.flags.skip later ++ ext) := by
  rw [sequence_succ, s.flags.skip_append (by simp [hopen]), hopen]
  show group m s names (s.flags.skip (later ++ _)) = _
  rw [s.flags.skip_append hinner]

theorem sequence_token {s s' : Sequence} {cs rest ext : List Char} (hnil : s.flags.skip cs ≠ [])
    (hclose : ∀ later, s.flags.skip cs ≠ ')' :: later)
    (hopen : ∀ later, s.flags.skip cs ≠ '(' :: later)
    (htoken : token s (s.flags.skip cs ++ ext) = some (s', rest)) (m : Nat) (names : List String) :
    sequence (m + 1) s names (cs ++ ext) = sequence m s' names rest := by
  rw [sequence_succ, s.flags.skip_append hnil]
  split
  · rename_i heq
    exact absurd (List.append_eq_nil_iff.1 heq).1 hnil
  · rename_i heq
    exact absurd heq (ne_append hnil hclose _ _)
  · rename_i heq
    exact absurd heq (ne_append hnil hopen _ _)
  · rw [htoken]
    rfl

theorem settled_sequence (hseq : ∀ s, Settled (fun m => sequence m s) n)
    (hgroup : ∀ s, Settled (fun m => group m s) n) (s : Sequence) :
    Settled (fun m => sequence m s) (n + 1) := by
  intro names cs p names' rest h
  dsimp only at h
  rw [sequence_succ] at h
  split at h
  · rename_i hnil
    obtain ⟨rfl, rfl, rfl⟩ : _ ∧ _ ∧ _ := by simpa using h
    obtain ⟨comment, hskip⟩ := s.flags.skip_paren hnil
    refine ⟨[], comment, rfl, nofun, .of_finish (fun _ => rfl) ?_⟩
    intro m hm names t ht
    obtain ⟨m, rfl⟩ : ∃ k, m = k + 1 := ⟨m - 1, by omega⟩
    show sequence (m + 1) s names _ = _
    rw [sequence_succ, hskip t ht]
    cases comment <;> rfl
  · rename_i later hclose
    obtain ⟨rfl, rfl, rfl⟩ : _ ∧ _ ∧ _ := by simpa using h
    refine ⟨[], false, rfl, nofun, .of_finish nofun ?_⟩
    intro m hm names t ht
    obtain ⟨m, rfl⟩ : ∃ k, m = k + 1 := ⟨m - 1, by omega⟩
    show sequence (m + 1) s names _ = _
    rw [sequence_succ, s.flags.skip_append (by simp [hclose]), hclose]
    rfl
  · rename_i later hopen
    obtain ⟨new, comment, hnames, hfresh, hfound⟩ := hgroup _ h
    refine ⟨new, comment, hnames, hfresh, hfound.succ ?_⟩
    intro m names t
    have hinner : s.flags.skip later ≠ [] := by
      intro hnil
      rw [hnil] at h
      exact absurd h (by simp [group_nil])
    exact sequence_open hopen hinner m names _
  · rename_i hnil hclose hopen
    obtain ⟨⟨s', later⟩, htoken, h⟩ := Option.bind_eq_some_iff.1 h
    obtain ⟨comment, hended, hread⟩ := almostLocal_token s htoken
    have hstep := fun m names t ht =>
      sequence_token hnil hclose hopen (hread t ht) m names
    cases comment with
    | false =>
      obtain ⟨new, comment, hnames, hfresh, hfound⟩ := hseq _ h
      exact ⟨new, comment, hnames, hfresh, hfound.succ fun m names t => hstep m names t nofun⟩
    | true =>
      -- the comment goes on to the end, and so the part ends here
      obtain rfl := hended rfl
      obtain ⟨k, rfl⟩ : ∃ k, n = k + 1 := by
        cases n with
        | zero => exact absurd h nofun
        | succ k => exact ⟨k, rfl⟩
      dsimp only at h
      rw [sequence_nil] at h
      obtain ⟨rfl, rfl, rfl⟩ : _ ∧ _ ∧ _ := by simpa using h
      refine ⟨[], true, rfl, nofun, .of_finish (fun _ => rfl) ?_⟩
      intro m hm names t ht
      obtain ⟨m, rfl⟩ : ∃ k, m = k + 2 := ⟨m - 2, by omega⟩
      show sequence (m + 2) s names _ = _
      rw [hstep _ _ _ ht]
      exact sequence_nil m s' names

end Steps

theorem settled (n : Nat) :
    (∀ s, Settled (fun m => sequence m s) n) ∧ (∀ s, Settled (fun m => group m s) n) ∧
      ∀ s f, Settled (fun m => inside m s f) n := by
  induction n with
  | zero => exact ⟨fun _ => nofun, fun _ => nofun, fun _ _ => nofun⟩
  | succ n ih =>
    obtain ⟨hseq, hgroup, hinside⟩ := ih
    exact ⟨settled_sequence hseq hgroup, settled_group hseq hinside, settled_inside hseq⟩

end BmpFeed.Regex
