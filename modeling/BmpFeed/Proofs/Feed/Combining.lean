import BmpFeed.Feed.Subscription
import BmpFeed.Proofs.Regex.Alternation
import Mathlib.Tactic.MkIffOfInductiveProp

/-!
# Combining patterns

`Combinable` says when the alternation of patterns is well formed, in terms of the patterns: each
can stand in parentheses, they share no group name, and together they are neither too deep nor too
large. The alternation accepts a topic when a pattern does before which none begins to match.
-/

namespace BmpFeed.Feed

open Regex (Piece outline? maxNesting assumedSize alts)

namespace Pattern

/-- The pattern means what its text says. -/
def WellFormed (p : Pattern) : Prop := ofText? p.text = some p

instance (p : Pattern) : Decidable p.WellFormed := inferInstanceAs (Decidable (_ = _))

/-- The pattern alone, in parentheses. -/
def grouped? (p : Pattern) : Option Pattern := ofText? ("(" ++ p.text ++ ")")

/-- The names of the groups in the pattern. -/
def groupNames (p : Pattern) : List String := ((outline? p.text).map Prod.snd).getD []

/-- How deep the pattern nests. -/
def nesting (p : Pattern) : Nat := ((outline? p.text).map fun o => o.1.depth).getD 0

end Pattern

/-- Nothing keeps the patterns from being subscribed together. -/
@[mk_iff]
structure Combinable (ps : List Pattern) : Prop where
  /-- A comment at the end of a pattern may swallow the parenthesis. -/
  grouped : ∀ p ∈ ps, p.grouped?.isSome = true
  names : (ps.flatMap Pattern.groupNames).Nodup
  depth : 2 ≤ ps.length → ∀ p ∈ ps, p.nesting + 2 ≤ maxNesting
  /-- Together with the bars between them they are not too large, as far as sizes are known. -/
  size : (ps.map fun p => assumedSize.bytes p.regex).sum + assumedSize.bar * (ps.length - 1) ≤
    assumedSize.limit

namespace Combinable

variable {ps qs : List Pattern}

instance (ps : List Pattern) : Decidable (Combinable ps) := decidable_of_iff' _ (combinable_iff ps)

theorem nil : Combinable [] := ⟨nofun, List.nodup_nil, nofun, Nat.zero_le _⟩

/-- Fewer patterns combine too. -/
theorem of_append (h : Combinable (ps ++ qs)) : Combinable ps where
  grouped p hp := h.grouped p (List.mem_append_left _ hp)
  names := by
    have := h.names
    rw [List.flatMap_append] at this
    exact (List.nodup_append'.1 this).1
  depth hlen p hp := h.depth (by rw [List.length_append]; omega) p (List.mem_append_left _ hp)
  size := by
    have hsize := h.size
    rw [List.map_append, List.sum_append, List.length_append] at hsize
    have hbars : assumedSize.bar * (ps.length - 1) ≤
        assumedSize.bar * (ps.length + qs.length - 1) := Nat.mul_le_mul_left _ (by omega)
    omega

theorem take (h : Combinable ps) (n : Nat) : Combinable (ps.take n) := by
  rw [← List.take_append_drop n ps] at h
  exact h.of_append

end Combinable

/-- What the alternation of the patterns is to be. -/
def joined (ps : List Pattern) : Pattern :=
  ⟨Subscription.alternation ps, alts (ps.map Pattern.regex)⟩

/-! ## Pieces -/

/-- What a pattern and the piece of the same text have in common. -/
structure Shape where
  text : List Char
  regex : Regex
  depth : Nat
  names : List String

def Pattern.shape (p : Pattern) : Shape := ⟨p.text.toList, p.regex, p.nesting, p.groupNames⟩

def Shape.ofPiece (g : Piece) : Shape := ⟨g.text, g.part.regex, g.part.depth, g.names⟩

namespace Pattern.WellFormed

variable {p : Pattern}

theorem parse (h : p.WellFormed) : Regex.parse? p.text = some p.regex := by
  obtain ⟨r, hr, heq⟩ := Option.map_eq_some_iff.1 h
  rw [hr, ← heq]

theorem exists_piece (h : p.WellFormed) :
    ∃ g : Piece, Shape.ofPiece g = p.shape ∧ assumedSize.Allows g.part.regex := by
  have hparse := h.parse
  rw [Regex.parse?_eq] at hparse
  obtain ⟨⟨part, names⟩, houtline, hread⟩ := Option.bind_eq_some_iff.1 hparse
  dsimp only at hread
  split_ifs at hread with hfits
  obtain ⟨g, htext, rfl, rfl⟩ := Regex.exists_piece houtline
  refine ⟨g, ?_, hfits.2⟩
  unfold Shape.ofPiece Pattern.shape Pattern.nesting Pattern.groupNames
  rw [houtline, htext, Option.some.inj hread]
  rfl

end Pattern.WellFormed

theorem exists_pieces {ps : List Pattern} (h : ∀ p ∈ ps, p.WellFormed) :
    ∃ gs : List Piece, gs.map Shape.ofPiece = ps.map Pattern.shape ∧
      ∀ g ∈ gs, assumedSize.Allows g.part.regex := by
  induction ps with
  | nil => exact ⟨[], rfl, nofun⟩
  | cons p ps ih =>
    obtain ⟨hp, hps⟩ := List.forall_mem_cons.1 h
    obtain ⟨g, hshape, hsize⟩ := hp.exists_piece
    obtain ⟨gs, hshapes, hsizes⟩ := ih hps
    exact ⟨g :: gs, by rw [List.map_cons, List.map_cons, hshape, hshapes],
      List.forall_mem_cons.2 ⟨hsize, hsizes⟩⟩

theorem toList_grouped {p : Pattern} {g : Piece} (h : Shape.ofPiece g = p.shape) :
    ("(" ++ p.text ++ ")").toList = g.group := by
  have htext : g.text = p.text.toList := congrArg Shape.text h
  rw [Regex.Piece.group, htext]
  simp

/-- A piece ends in no comment if it can stand in parentheses. -/
theorem isSome_grouped? {p : Pattern} {g : Piece} (h : Shape.ofPiece g = p.shape)
    (hsize : assumedSize.Allows g.part.regex) :
    p.grouped?.isSome = true ↔ g.comment = false ∧ p.nesting + 1 ≤ maxNesting := by
  have htext : ("(" ++ p.text ++ ")").toList = Regex.barred [g] := by
    rw [toList_grouped h]
    simp [Regex.barred]
  have hdepth : g.part.depth = p.nesting := congrArg Shape.depth h
  unfold Pattern.grouped? Pattern.ofText?
  have hwhole : Regex.whole ([g].map Piece.boxed) = g.boxed := rfl
  have hjoin : Regex.Joinable [] [g] ↔ g.comment = false :=
    Regex.joinable_singleton.trans (and_iff_right fun _ _ => List.not_mem_nil)
  rw [Option.isSome_map, Regex.parse?_barred (by simp) (by simp) htext, hwhole, ← hdepth]
  split_ifs with hfits
  · exact iff_of_true rfl ⟨hjoin.1 hfits.1, hfits.2.1⟩
  · exact iff_of_false Bool.false_ne_true fun h => hfits ⟨hjoin.2 h.1, h.2, hsize⟩

section Pieces

variable {ps : List Pattern} {gs : List Piece}
  (hshape : gs.map Shape.ofPiece = ps.map Pattern.shape)

include hshape

theorem map_shape {α : Type} (f : Shape → α) :
    gs.map (fun g => f (.ofPiece g)) = ps.map fun p => f p.shape := by
  have := congrArg (List.map f) hshape
  rwa [List.map_map, List.map_map] at this

theorem toList_alternation : (Subscription.alternation ps).toList = Regex.barred gs := by
  have hgroups := map_shape hshape fun s => '(' :: s.text ++ [')']
  unfold Subscription.alternation Regex.barred
  rw [String.toList_intercalate, List.map_map]
  refine congrArg (List.intercalate _) (Eq.trans ?_ hgroups.symm)
  refine List.map_congr_left fun p _ => ?_
  simp [Pattern.shape]

theorem exists_mem_pattern {g : Piece} (hg : g ∈ gs) : ∃ p ∈ ps, .ofPiece g = p.shape := by
  have := List.mem_map_of_mem (f := Shape.ofPiece) hg
  rw [hshape] at this
  obtain ⟨p, hp, heq⟩ := List.mem_map.1 this
  exact ⟨p, hp, heq.symm⟩

theorem exists_mem_piece {p : Pattern} (hp : p ∈ ps) : ∃ g ∈ gs, .ofPiece g = p.shape := by
  have := List.mem_map_of_mem (f := Pattern.shape) hp
  rw [← hshape] at this
  exact List.mem_map.1 this

theorem length_pieces : gs.length = ps.length := by
  have := congrArg List.length hshape
  rwa [List.length_map, List.length_map] at this

theorem pieces_ne_nil (hne : ps ≠ []) : gs ≠ [] := by
  rw [← List.length_pos_iff, length_pieces hshape]
  exact List.length_pos_iff.2 hne

theorem map_regex_boxed :
    (gs.map Piece.boxed).map Regex.Part.regex = ps.map Pattern.regex := by
  rw [List.map_map]
  exact map_shape hshape Shape.regex

variable (hsize : ∀ g ∈ gs, assumedSize.Allows g.part.regex)

include hsize

theorem forall_grouped_iff : (∀ p ∈ ps, p.grouped?.isSome = true) ↔
    (∀ g ∈ gs, g.comment = false) ∧ ∀ g ∈ gs, g.boxed.depth ≤ maxNesting := by
  constructor
  · intro h
    have hall : ∀ g ∈ gs, g.comment = false ∧ g.boxed.depth ≤ maxNesting := by
      intro g hg
      obtain ⟨p, hp, heq⟩ := exists_mem_pattern hshape hg
      have hdepth : g.part.depth = p.nesting := congrArg Shape.depth heq
      obtain ⟨hcomment, hfits⟩ := (isSome_grouped? heq (hsize g hg)).1 (h p hp)
      exact ⟨hcomment, show g.part.depth + 1 ≤ _ from hdepth ▸ hfits⟩
    exact ⟨fun g hg => (hall g hg).1, fun g hg => (hall g hg).2⟩
  · rintro ⟨hcomment, hfits⟩ p hp
    obtain ⟨g, hg, heq⟩ := exists_mem_piece hshape hp
    have hdepth : g.part.depth = p.nesting := congrArg Shape.depth heq
    exact (isSome_grouped? heq (hsize g hg)).2 ⟨hcomment g hg, hdepth ▸ hfits g hg⟩

/-- What keeps the text of the alternation from being read, in terms of the patterns. -/
theorem fits_iff (hne : ps ≠ []) :
    (Regex.Joinable [] gs ∧ (Regex.whole (gs.map Piece.boxed)).depth ≤ maxNesting ∧
        assumedSize.Allows (Regex.whole (gs.map Piece.boxed)).regex) ↔ Combinable ps := by
  have hne' := pieces_ne_nil hshape hne
  have hnames : gs.flatMap Piece.names = ps.flatMap Pattern.groupNames := by
    have := congrArg List.flatten (map_shape hshape Shape.names)
    rwa [← List.flatMap_def, ← List.flatMap_def] at this
  rw [combinable_iff, Regex.Joinable, hnames, Regex.regex_whole, map_regex_boxed hshape,
    Regex.SizeRule.Allows, assumedSize.bytes_alts (by simpa using hne), List.map_map,
    List.length_map, Regex.depth_whole_le (by simpa using hne'), List.length_map,
    length_pieces hshape, List.forall_mem_map, forall_grouped_iff hshape hsize]
  have hdepth : (2 ≤ ps.length → ∀ p ∈ ps, p.nesting + 2 ≤ maxNesting) ↔
      (2 ≤ ps.length → ∀ g ∈ gs, g.boxed.depth + 1 ≤ maxNesting) := by
    refine imp_congr_right fun _ => ?_
    have hdepths : gs.map (fun g => g.part.depth) = ps.map Pattern.nesting :=
      map_shape hshape Shape.depth
    have hall : (∀ d ∈ gs.map (fun g => g.part.depth), d + 2 ≤ maxNesting) ↔
        ∀ g ∈ gs, g.boxed.depth + 1 ≤ maxNesting := List.forall_mem_map
    rw [hdepths] at hall
    exact List.forall_mem_map.symm.trans hall
  rw [hdepth]
  constructor
  · rintro ⟨⟨-, hnodup, hcomment⟩, hfits, hlight⟩
    refine ⟨⟨hcomment, fun g hg => Nat.le_trans (Nat.le_add_right _ _) (hfits g hg)⟩, hnodup,
      fun hlong g hg => ?_, hlight⟩
    have := hfits g hg
    rwa [if_pos hlong] at this
  · rintro ⟨⟨hcomment, hfits⟩, hnodup, hdeep, hlight⟩
    refine ⟨⟨nofun, hnodup, hcomment⟩, fun g hg => ?_, hlight⟩
    split_ifs with hlong
    · exact hdeep hlong g hg
    · exact hfits g hg

end Pieces

/-- What the alternation of well-formed patterns means, where all but the last can stand in
parentheses. -/
theorem ofText?_alternation {ps : List Pattern} (hne : ps ≠ []) (hwf : ∀ p ∈ ps, p.WellFormed)
    (hearlier : ∀ p ∈ ps.dropLast, p.grouped?.isSome = true) :
    Pattern.ofText? (Subscription.alternation ps) =
      if Combinable ps then some (joined ps) else none := by
  obtain ⟨gs, hshape, hsize⟩ := exists_pieces hwf
  have hne' := pieces_ne_nil hshape hne
  have hdrop : gs.dropLast.map Shape.ofPiece = ps.dropLast.map Pattern.shape := by
    rw [List.map_dropLast, List.map_dropLast, hshape]
  have hended := ((forall_grouped_iff hdrop fun g hg =>
    hsize g ((List.dropLast_sublist gs).subset hg)).1 hearlier).1
  unfold Pattern.ofText?
  rw [Regex.parse?_barred hne' hended (toList_alternation hshape)]
  by_cases hcombine : Combinable ps
  · rw [if_pos hcombine, if_pos ((fits_iff hshape hsize hne).2 hcombine), Regex.regex_whole,
      map_regex_boxed hshape]
    rfl
  · rw [if_neg hcombine, if_neg fun h => hcombine ((fits_iff hshape hsize hne).1 h)]
    rfl

theorem accepts_joined {ps : List Pattern} (hne : ps ≠ []) (topic : String) :
    (joined ps).accepts topic = true ↔
      ∃ before p after, ps = before ++ p :: after ∧ p.accepts topic = true ∧
        ∀ q ∈ before, q.regex.ends (.ofText topic) = [] := by
  unfold joined Pattern.accepts
  rw [Regex.spans_alts (by simpa using hne)]
  constructor
  · rintro ⟨before, r, after, heq, hspans, hbefore⟩
    obtain ⟨before, later, rfl, rfl, hlater⟩ := List.map_eq_append_iff.1 heq
    obtain ⟨p, after, rfl, rfl, rfl⟩ := List.map_eq_cons_iff.1 hlater
    exact ⟨before, p, after, rfl, hspans, List.forall_mem_map.1 hbefore⟩
  · rintro ⟨before, p, after, rfl, hspans, hbefore⟩
    exact ⟨before.map Pattern.regex, p.regex, after.map Pattern.regex, by simp, hspans,
      List.forall_mem_map.2 hbefore⟩

/-- In parentheses a pattern accepts what it accepts without them. -/
theorem exists_grouped {p : Pattern} (hwf : p.WellFormed) (hgrouped : p.grouped?.isSome = true) :
    ∃ q, p.grouped? = some q ∧ q.regex = p.regex := by
  have hone : p.grouped? = Pattern.ofText? (Subscription.alternation [p]) := by
    unfold Pattern.grouped? Subscription.alternation
    rw [List.map_singleton, String.intercalate_singleton]
  have heq := ofText?_alternation (List.cons_ne_nil p []) (by simpa using hwf) nofun
  rw [← hone] at heq
  split_ifs at heq with hcombine
  · exact ⟨_, heq, rfl⟩
  · rw [heq] at hgrouped
    exact absurd hgrouped nofun

end BmpFeed.Feed
