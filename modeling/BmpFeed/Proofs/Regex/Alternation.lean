import BmpFeed.Proofs.Regex.Groups
import Mathlib.Algebra.GroupWithZero.Nat

/-!
# Alternations of groups

Expressions that are well formed each by itself are put in parentheses and joined by bars. The text
is well formed exactly when no comment is left open, no group name occurs twice, and the whole is
neither too deep nor too large; it then means the alternation of what they mean.
-/

namespace BmpFeed.Regex

/-! ## Outlines -/

/-- What a text reads as before its size is checked, with the names of its groups. -/
def outline? (s : String) : Option (Part × List String) :=
  (sequence (3 * s.toList.length + 1) { flags := {} } [] s.toList).bind fun (p, names, rest) =>
    if rest.isEmpty then some (p, names) else none

theorem parse?_eq (s : String) :
    parse? s = (outline? s).bind fun (p, _) =>
      if p.depth ≤ maxNesting ∧ assumedSize.Allows p.regex then some p.regex else none := by
  unfold parse? outline?
  rw [Option.bind_assoc]
  refine congrArg (Option.bind _) (funext fun ⟨p, names, rest⟩ => ?_)
  by_cases hrest : rest.isEmpty = true
  · simp [hrest]
  · simp [hrest]

/-- An expression that is well formed by itself. -/
structure Piece where
  text : List Char
  part : Part
  names : List String
  /-- The text ends in a comment. -/
  comment : Bool
  found : Found (fun m => sequence m { flags := {} }) (3 * text.length + 1) text part names []
    comment
  plain : ∀ later, text ≠ '?' :: later

/-- A repetition needs something to repeat. -/
theorem sequence_question (m : Nat) (names : List String) (later : List Char) :
    sequence m { flags := {} } names ('?' :: later) = none := by
  cases m with
  | zero => rfl
  | succ m =>
    rw [sequence_succ]
    rfl

theorem exists_piece {s : String} {p : Part} {names : List String}
    (h : outline? s = some (p, names)) :
    ∃ g : Piece, g.text = s.toList ∧ g.part = p ∧ g.names = names := by
  obtain ⟨⟨q, names', rest⟩, hread, h⟩ := Option.bind_eq_some_iff.1 h
  dsimp only at h
  split_ifs at h with hrest
  obtain ⟨rfl, rfl⟩ : _ ∧ _ := by simpa using h
  obtain rfl : rest = [] := List.isEmpty_iff.1 hrest
  obtain ⟨new, comment, rfl, -, hfound⟩ := (settled _).1 _ hread
  refine ⟨⟨s.toList, q, new, comment, hfound, fun later heq => ?_⟩, rfl, rfl, by simp⟩
  rw [heq, sequence_question] at hread
  exact absurd hread nofun

namespace Piece

/-- The piece in parentheses. -/
def group (g : Piece) : List Char := '(' :: g.text ++ [')']

def boxed (g : Piece) : Part := { g.part with depth := g.part.depth + 1 }

theorem sequence_group (g : Piece) {m : Nat} (hm : 3 * g.text.length + 1 ≤ m) {s : Sequence}
    (hs : s.flags = {}) (names : List String) {t : List Char}
    (ht : g.comment = true → '\n' ∉ t) :
    sequence (m + 3) s names (g.group ++ t) =
      if Fresh g.names names ∧ g.comment = false then
        sequence m (s.push g.boxed) (g.names ++ names) t
      else none := by
  have hskip : ∀ cs, s.flags.skip cs = cs := by
    intro cs
    rw [hs]
    rfl
  have hopen : opening? s.flags (g.text ++ ')' :: t) = some (.under {}, g.text ++ ')' :: t) := by
    rw [hs]
    exact opening?_plain (ne_paren (p := ['?']) (by decide) g.plain t)
  have hinner := g.found.read_paren m hm names t ht
  have htext : g.group ++ t = '(' :: (g.text ++ ')' :: t) := by simp [group]
  rw [htext, sequence_succ, hskip]
  show Regex.group (m + 2) s names (s.flags.skip _) = _
  rw [hskip, group_succ, hopen]
  show inside (m + 1) s {} names _ = _
  rw [inside, hinner]
  by_cases hfresh : Fresh g.names names
  · rw [if_pos hfresh]
    cases hcomment : g.comment with
    | false =>
      rw [if_pos ⟨hfresh, rfl⟩]
      rfl
    | true =>
      rw [if_neg (by simp)]
      rfl
  · rw [if_neg hfresh, if_neg fun h => hfresh h.1]
    rfl

end Piece

theorem sequence_bar {m : Nat} {s : Sequence} (hs : s.flags = {}) (names : List String)
    (t : List Char) : sequence (m + 1) s names ('|' :: t) = sequence m s.alternate names t := by
  rw [sequence_succ, hs]
  rfl

/-- The parts as one part, as a sequence of alternatives has them. -/
def whole : List Part → Part
  | [q] => q
  | qs => { regex := alts (qs.map Part.regex), depth := (qs.map Part.depth).foldl max 0 + 1 }

theorem concat_single (f : Flags) (closed : List Part) (q : Part) :
    ({ flags := f, closed, parts := [some q] } : Sequence).concat = q := by
  unfold Sequence.concat
  simp [seqs]

theorem finish_single (f : Flags) (closed : List Part) (q : Part) :
    ({ flags := f, closed, parts := [some q] } : Sequence).finish =
      whole (closed.reverse ++ [q]) := by
  unfold Sequence.finish
  rw [concat_single]
  cases closed with
  | nil => rfl
  | cons c closed =>
    have hlong : ∀ q', (c :: closed).reverse ++ [q] = [q'] → False := by
      intro q' heq
      have hlen := congrArg List.length heq
      simp at hlen
    rw [whole.eq_2 _ hlong]
    simp

theorem alternate_single (f : Flags) (closed : List Part) (q : Part) :
    ({ flags := f, closed, parts := [some q] } : Sequence).alternate =
      { flags := f, closed := q :: closed } := by
  unfold Sequence.alternate
  rw [concat_single]

/-- The text of the alternation. -/
def barred (gs : List Piece) : List Char := ['|'].intercalate (gs.map Piece.group)

theorem barred_cons_cons (g h : Piece) (gs : List Piece) :
    barred (g :: h :: gs) = g.group ++ '|' :: barred (h :: gs) := by
  simp [barred, List.intercalate_cons_cons]

/-- Nothing keeps the pieces apart, where these names are taken: no name occurs twice, and no
comment is left open. -/
def Joinable (names : List String) (gs : List Piece) : Prop :=
  Fresh (gs.flatMap Piece.names) names ∧ (gs.flatMap Piece.names).Nodup ∧
    ∀ g ∈ gs, g.comment = false

instance (names : List String) (gs : List Piece) : Decidable (Joinable names gs) :=
  inferInstanceAs (Decidable (_ ∧ _ ∧ _))

theorem joinable_singleton {names : List String} {g : Piece} :
    Joinable names [g] ↔ Fresh g.names names ∧ g.comment = false := by
  have hnames : [g].flatMap Piece.names = g.names := by simp
  unfold Joinable
  rw [hnames, List.forall_mem_singleton]
  exact and_congr_right fun _ => and_iff_right g.found.nodup

theorem joinable_cons {names : List String} {g : Piece} {gs : List Piece} :
    Joinable names (g :: gs) ↔
      (Fresh g.names names ∧ g.comment = false) ∧ Joinable (g.names ++ names) gs := by
  unfold Joinable
  rw [List.flatMap_cons, List.nodup_append', List.forall_mem_cons, fresh_append_left,
    fresh_append_right]
  constructor
  · rintro ⟨⟨hfresh, hafter⟩, ⟨-, hlater, hdisjoint⟩, hg, hgs⟩
    exact ⟨⟨hfresh, hg⟩, ⟨fun x hx hx' => hdisjoint hx' hx, hafter⟩, hlater, hgs⟩
  · rintro ⟨⟨hfresh, hg⟩, ⟨hdisjoint, hafter⟩, hlater, hgs⟩
    exact ⟨⟨hfresh, hafter⟩, ⟨g.found.nodup, hlater, fun x hx hx' => hdisjoint x hx' hx⟩, hg, hgs⟩

/-- An alternation is read where its pieces can be joined and nowhere else, provided that no comment
is open before the last piece. -/
theorem sequence_barred {gs : List Piece} (hne : gs ≠ [])
    (hended : ∀ g ∈ gs.dropLast, g.comment = false) {m : Nat} (hm : 3 * (barred gs).length + 1 ≤ m)
    (closed : List Part) (names : List String) :
    (sequence m { flags := {}, closed } names (barred gs)).map (fun r => (r.1, r.2.2)) =
      if Joinable names gs then some (whole (closed.reverse ++ gs.map Piece.boxed), [])
      else none := by
  induction gs generalizing m closed names with
  | nil => exact absurd rfl hne
  | cons g gs ih =>
    cases gs with
    | nil =>
      have htext : barred [g] = g.group ++ [] := by simp [barred]
      have hlen : (barred [g]).length = g.text.length + 2 := by simp [barred, Piece.group]
      obtain ⟨m, rfl⟩ : ∃ k, m = k + 4 := ⟨m - 4, by omega⟩
      rw [htext, show m + 4 = (m + 1) + 3 from rfl, g.sequence_group (by omega) rfl names (by simp)]
      by_cases hg : Fresh g.names names ∧ g.comment = false
      · rw [if_pos hg, if_pos (joinable_singleton.2 hg), sequence_nil, Sequence.push]
        show some (Sequence.finish _, []) = _
        rw [finish_single]
        rfl
      · rw [if_neg hg, if_neg fun h => hg (joinable_singleton.1 h)]
        rfl
    | cons h gs =>
      have hlen : (barred (g :: h :: gs)).length =
          g.text.length + 2 + 1 + (barred (h :: gs)).length := by
        rw [barred_cons_cons]
        simp [Piece.group]
        omega
      obtain ⟨m, rfl⟩ : ∃ k, m = k + 4 := ⟨m - 4, by omega⟩
      have hg : g.comment = false := hended g (by simp)
      have hrest := ih (by simp) (fun k hk => hended k (by simp [hk])) (m := m) (by omega)
        (g.boxed :: closed) (g.names ++ names)
      rw [barred_cons_cons, show m + 4 = (m + 1) + 3 from rfl,
        g.sequence_group (by omega) rfl names (by simp [hg])]
      by_cases hfresh : Fresh g.names names ∧ g.comment = false
      · rw [if_pos hfresh, sequence_bar rfl, Sequence.push, alternate_single, hrest]
        by_cases hjoin : Joinable (g.names ++ names) (h :: gs)
        · rw [if_pos hjoin, if_pos (joinable_cons.2 ⟨hfresh, hjoin⟩)]
          simp
        · rw [if_neg hjoin, if_neg fun hall => hjoin (joinable_cons.1 hall).2]
      · rw [if_neg hfresh, if_neg fun hall => hfresh (joinable_cons.1 hall).1]
        rfl

/-! ## Size -/

@[simp] theorem regex_whole (qs : List Part) : (whole qs).regex = alts (qs.map Part.regex) := by
  match qs with
  | [] => rfl
  | [q] => rfl
  | q :: r :: qs => rfl

theorem foldl_max_le {ns : List Nat} {a n : Nat} :
    ns.foldl max a ≤ n ↔ a ≤ n ∧ ∀ k ∈ ns, k ≤ n := by
  induction ns generalizing a with
  | nil => simp
  | cons k ns ih =>
    rw [List.foldl_cons, ih, List.forall_mem_cons, ← and_assoc]
    exact and_congr_left fun _ => Nat.max_le

/-- A second alternative is one level more. -/
theorem depth_whole_le {qs : List Part} (hne : qs ≠ []) (n : Nat) :
    (whole qs).depth ≤ n ↔ ∀ q ∈ qs, q.depth + (if 2 ≤ qs.length then 1 else 0) ≤ n := by
  match qs with
  | [q] => simp [whole]
  | q :: r :: qs =>
    have hlong : 2 ≤ (q :: r :: qs).length := by simp
    rw [if_pos hlong, whole.eq_2 _ (by simp)]
    dsimp only
    constructor
    · intro h p hp
      have := (foldl_max_le.1 (Nat.le_sub_one_of_lt h)).2 p.depth (List.mem_map_of_mem hp)
      omega
    · intro h
      have hq := h q (List.mem_cons_self)
      have hall : ((q :: r :: qs).map Part.depth).foldl max 0 ≤ n - 1 := by
        refine foldl_max_le.2 ⟨Nat.zero_le _, fun k hk => ?_⟩
        obtain ⟨p, hp, rfl⟩ := List.mem_map.1 hk
        have := h p hp
        omega
      omega

namespace SizeRule

variable (rule : SizeRule)

theorem bytes_foldl_alt (rs : List Regex) (r : Regex) :
    rule.bytes (rs.foldl alt r) =
      rule.bytes r + (rs.map rule.bytes).sum + rule.bar * rs.length := by
  induction rs generalizing r with
  | nil => simp
  | cons s rs ih =>
    rw [List.foldl_cons, ih, rule.bytes_alt, List.map_cons, List.sum_cons, List.length_cons,
      Nat.mul_succ]
    omega

/-- The bars of an alternation count by themselves. -/
theorem bytes_alts {rs : List Regex} (hne : rs ≠ []) :
    rule.bytes (alts rs) = (rs.map rule.bytes).sum + rule.bar * (rs.length - 1) := by
  obtain ⟨r, rs, rfl⟩ := List.exists_cons_of_ne_nil hne
  show rule.bytes (rs.foldl alt r) = _
  rw [bytes_foldl_alt, List.map_cons, List.sum_cons, List.length_cons, Nat.add_sub_cancel]

end SizeRule

/-- What an alternation of pieces means. -/
theorem parse?_barred {gs : List Piece} (hne : gs ≠ [])
    (hended : ∀ g ∈ gs.dropLast, g.comment = false) {s : String} (hs : s.toList = barred gs) :
    parse? s =
      if Joinable [] gs ∧ (whole (gs.map Piece.boxed)).depth ≤ maxNesting ∧
          assumedSize.Allows (whole (gs.map Piece.boxed)).regex then
        some (whole (gs.map Piece.boxed)).regex
      else none := by
  have hread := sequence_barred hne hended (Nat.le_refl (3 * (barred gs).length + 1)) [] []
  have hparse : parse? s =
      ((sequence (3 * (barred gs).length + 1) { flags := {} } [] (barred gs)).map
        fun r => (r.1, r.2.2)).bind fun (p, rest) =>
          if rest.isEmpty ∧ p.depth ≤ maxNesting ∧ assumedSize.Allows p.regex then some p.regex
          else none := by
    unfold parse?
    rw [hs, Option.bind_map]
    rfl
  rw [hparse, hread]
  by_cases hjoin : Joinable [] gs
  · rw [if_pos hjoin]
    simp [hjoin]
  · rw [if_neg hjoin, if_neg fun h => hjoin h.1]
    rfl

/-! ## Matches -/

theorem head?_distinct (cs : List Cursor) : (distinct cs).head? = cs.head? := by
  unfold distinct
  cases cs with
  | nil => rfl
  | cons c cs => rw [List.eraseDups_cons, List.head?_cons, List.head?_cons]

/-- The preferred match of an alternation is that of the first alternative that has any. -/
theorem head?_ends_alts {rs : List Regex} (hne : rs ≠ []) (c : Cursor) :
    ((alts rs).ends c).head? = rs.findSome? fun r => (r.ends c).head? := by
  obtain ⟨r, rs, rfl⟩ := List.exists_cons_of_ne_nil hne
  show ((rs.foldl alt r).ends c).head? = _
  clear hne
  induction rs generalizing r with
  | nil => cases h : (r.ends c).head? <;> simp [h]
  | cons s rs ih =>
    rw [List.foldl_cons, ih]
    have halt : ((alt r s).ends c).head? = (r.ends c).head?.or (s.ends c).head? := by
      rw [ends, head?_distinct, List.head?_append]
    simp only [List.findSome?_cons, halt]
    cases (r.ends c).head? with
    | none => rfl
    | some d => rfl

/-- An alternation spans a text when an alternative does and no earlier one has a match that begins
where the text does, however short. -/
theorem spans_alts {rs : List Regex} (hne : rs ≠ []) (s : String) :
    (alts rs).spans s = true ↔
      ∃ before r after, rs = before ++ r :: after ∧ r.spans s = true ∧
        ∀ q ∈ before, q.ends (.ofText s) = [] := by
  unfold spans
  rw [head?_ends_alts hne, Option.any_eq_true]
  constructor
  · rintro ⟨d, hd, hend⟩
    obtain ⟨before, r, after, rfl, hr, hbefore⟩ := List.findSome?_eq_some_iff.1 hd
    exact ⟨before, r, after, rfl, by rw [hr]; exact hend,
      fun q hq => List.head?_eq_none_iff.1 (hbefore q hq)⟩
  · rintro ⟨before, r, after, rfl, hr, hbefore⟩
    obtain ⟨d, hd, hend⟩ := (Option.any_eq_true _ _).1 hr
    exact ⟨d, List.findSome?_eq_some_iff.2 ⟨before, r, after, rfl, hd,
      fun q hq => List.head?_eq_none_iff.2 (hbefore q hq)⟩, hend⟩

end BmpFeed.Regex
