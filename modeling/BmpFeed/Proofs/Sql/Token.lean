import BmpFeed.Proofs.Sql.Reader

/-!
# Tokens of statements

A reader of statements of any kind, which knows words, literals and marks, and the blanks and
comments that may stand between them. A literal runs from a quote to the next quote that is not
followed by another. `tokens?_write` says that tokens written with blanks between them are read
back, whatever the literals among them say.
-/

namespace BmpFeed.Sql

/-- A part of a statement that has no parts itself. -/
inductive Token
  | word (text : String)
  /-- A text between quotes, by what it says. -/
  | literal (text : String)
  /-- Any other character. -/
  | mark (c : Char)
  deriving DecidableEq, Repr

def isWordChar (c : Char) : Bool := c.isAlphanum || c = '_'

namespace Reader

/-- What is passed over between two tokens. -/
inductive Gap
  | blanks
  /-- A comment that ends with its line. -/
  | line
  /-- A comment that ends with a star and a slash. -/
  | block
  deriving DecidableEq, Repr

/-- What follows the blanks and comments; a comment that is not ended by its line has an end. -/
def skip : Gap → List Char → Option (List Char)
  | .block, [] => none
  | _, [] => some []
  | .blanks, '-' :: '-' :: cs => skip .line cs
  | .blanks, '/' :: '*' :: cs => skip .block cs
  | .blanks, c :: cs => if c.isWhitespace then skip .blanks cs else some (c :: cs)
  | .line, c :: cs => skip (if c = '\n' then .blanks else .line) cs
  | .block, '*' :: '/' :: cs => skip .blanks cs
  | .block, _ :: cs => skip .block cs

def token : Reader Token
  | [] => none
  | '\'' :: cs => (inside cs).map fun x => (.literal (.ofList x.1), x.2)
  | c :: cs =>
    if isWordChar c then
      some (.word (.ofList ((c :: cs).takeWhile isWordChar)), (c :: cs).dropWhile isWordChar)
    else some (.mark c, cs)

/-- All tokens of a text. -/
def tokens (cs : List Char) : Option (List Token) :=
  match skip .blanks cs with
  | none => none
  | some [] => some []
  | some (c :: later) =>
    match token (c :: later) with
    | none => none
    | some (t, rest) => if rest.length < cs.length then (tokens rest).map (t :: ·) else none
termination_by cs.length

end Reader

/-- The tokens of a statement. -/
def tokens? (sql : String) : Option (List Token) := Reader.tokens sql.toList


/-! ## Writing -/

namespace Token

/-- A token as it stands in a statement. -/
def text : Token → String
  | word s => s
  | literal s => quote s
  | mark c => String.singleton c

/-- The token ends where a blank follows. Every literal does. -/
def IsPlain : Token → Prop
  | word s => s.toList ≠ [] ∧ s.toList.all isWordChar = true
  | literal _ => True
  | mark c => isWordChar c = false ∧ c.isWhitespace = false ∧ c ≠ '\''

instance : DecidablePred IsPlain
  | word s => inferInstanceAs (Decidable (s.toList ≠ [] ∧ s.toList.all isWordChar = true))
  | literal _ => .isTrue trivial
  | mark c =>
    inferInstanceAs (Decidable (isWordChar c = false ∧ c.isWhitespace = false ∧ c ≠ '\''))

end Token

namespace Reader

variable {c : Char} {cs rest : List Char} {t : Token}

/-- What may follow a token: nothing, or a blank and more. -/
def Apart (cs : List Char) : Prop := ∀ c ∈ cs.head?, c = ' '

theorem ne_of_isWordChar {c' : Char} (h : isWordChar c = true) (h' : isWordChar c' = false) :
    c ≠ c' := by
  rintro rfl
  rw [h] at h'
  contradiction

theorem not_isWhitespace_of_isWordChar (h : isWordChar c = true) : c.isWhitespace = false := by
  by_contra hblank
  rw [Bool.not_eq_false] at hblank
  simp only [Char.isWhitespace, Bool.or_eq_true, decide_eq_true_eq] at hblank
  rcases hblank with ((rfl | rfl) | rfl) | rfl <;> exact absurd h (by decide)

theorem skip_cons (hblank : c.isWhitespace = false) (hline : c = '-' → cs.head? ≠ some '-')
    (hblock : c = '/' → cs.head? ≠ some '*') : skip .blanks (c :: cs) = some (c :: cs) := by
  unfold skip
  split
  · contradiction
  · contradiction
  · rename_i heq
    obtain ⟨rfl, rfl⟩ := List.cons.inj heq
    exact absurd rfl (hline rfl)
  · rename_i heq
    obtain ⟨rfl, rfl⟩ := List.cons.inj heq
    exact absurd rfl (hblock rfl)
  · rename_i heq
    obtain ⟨rfl, rfl⟩ := List.cons.inj heq
    rw [hblank]
    rfl
  all_goals contradiction

/-- A plain token is no blank and begins no comment. -/
theorem skip_text (ht : t.IsPlain) (hrest : Apart rest) :
    skip .blanks (t.text.toList ++ rest) = some (t.text.toList ++ rest) := by
  cases t with
  | word s =>
    obtain ⟨hne, hall⟩ := ht
    have hchars : ∀ c ∈ s.toList, isWordChar c = true := List.all_eq_true.1 hall
    obtain ⟨c, cs, hs⟩ := List.exists_cons_of_ne_nil hne
    have hc : isWordChar c = true := hchars c (by simp [hs])
    have htext : (Token.word s).text.toList = c :: cs := hs
    rw [htext]
    exact skip_cons (not_isWhitespace_of_isWordChar hc)
      (fun h => absurd h (ne_of_isWordChar hc (by decide)))
      (fun h => absurd h (ne_of_isWordChar hc (by decide)))
  | literal s =>
    have htext : (Token.literal s).text.toList = '\'' :: (doubleQuotes s.toList ++ ['\'']) := by
      simp [Token.text, quote]
    rw [htext]
    exact skip_cons (by decide) (fun h => absurd h (by decide)) (fun h => absurd h (by decide))
  | mark c =>
    have htext : (Token.mark c).text.toList = [c] := by simp [Token.text]
    have hhead : ∀ c', c' ≠ ' ' → rest.head? ≠ some c' := fun c' hne h => hne (hrest c' h)
    rw [htext]
    exact skip_cons ht.2.1 (fun _ => hhead _ (by decide)) (fun _ => hhead _ (by decide))

theorem token_text (ht : t.IsPlain) (hrest : Apart rest) :
    token (t.text.toList ++ rest) = some (t, rest) := by
  cases t with
  | word s =>
    obtain ⟨hne, hall⟩ := ht
    have hchars : ∀ c ∈ s.toList, isWordChar c = true := List.all_eq_true.1 hall
    have hblank : ∀ c ∈ rest.head?, isWordChar c = false := by
      intro c hc
      rw [hrest c hc]
      decide
    have hspan : (s.toList ++ rest).takeWhile isWordChar = s.toList ∧
        (s.toList ++ rest).dropWhile isWordChar = rest := by
      rw [List.takeWhile_append_of_pos hchars, List.dropWhile_append_of_pos hchars]
      cases rest with
      | nil => simp
      | cons c rest => simp [hblank c rfl]
    have htext : (Token.word s).text = s := rfl
    rw [htext]
    obtain ⟨c, cs, hs⟩ := List.exists_cons_of_ne_nil hne
    have hc : isWordChar c = true := hchars c (by simp [hs])
    have hquote : c ≠ '\'' := ne_of_isWordChar hc (by decide)
    rw [hs] at hspan ⊢
    rw [List.cons_append] at hspan ⊢
    simp only [token, hc, hspan, if_true]
    rw [← hs, String.ofList_toList]
  | literal s =>
    have htext : (Token.literal s).text.toList ++ rest =
        '\'' :: (doubleQuotes s.toList ++ '\'' :: rest) := by
      simp [Token.text, quote]
    have hhead : rest.head? ≠ some '\'' := fun h => absurd (hrest _ h) (by decide)
    rw [htext, token, inside_doubleQuotes _ hhead, Option.map_some, String.ofList_toList]
  | mark c =>
    have htext : (Token.mark c).text.toList ++ rest = c :: rest := by simp [Token.text]
    rw [htext, token]
    · rw [ht.1]
      rfl
    · exact ht.2.2

theorem text_ne_nil (ht : t.IsPlain) : t.text.toList ≠ [] := by
  cases t with
  | word s => exact ht.1
  | literal s => simp [Token.text, quote]
  | mark c => simp [Token.text]

/-- The first token, with or without a blank before it. -/
theorem tokens_text (ht : t.IsPlain) (hrest : Apart rest)
    (hcs : cs = t.text.toList ++ rest ∨ cs = ' ' :: (t.text.toList ++ rest)) :
    tokens cs = (tokens rest).map (t :: ·) := by
  have hskip : skip .blanks cs = some (t.text.toList ++ rest) := by
    rcases hcs with rfl | rfl
    · exact skip_text ht hrest
    · exact skip_text ht hrest
  have hlen : rest.length < cs.length := by
    have hpos := List.length_pos_of_ne_nil (text_ne_nil ht)
    rcases hcs with rfl | rfl
    · rw [List.length_append]
      omega
    · rw [List.length_cons, List.length_append]
      omega
  obtain ⟨c, later, htext⟩ := List.exists_cons_of_ne_nil (text_ne_nil ht)
  have htoken := token_text ht hrest
  rw [htext, List.cons_append] at hskip htoken
  rw [tokens, hskip]
  simp only [htoken, if_pos hlen]

/-- Tokens with blanks between them. -/
theorem tokens_intercalate {ts : List Token} (h : ∀ t ∈ ts, t.IsPlain)
    (hcs : cs = [' '].intercalate (ts.map fun t => t.text.toList) ∨
      cs = ' ' :: [' '].intercalate (ts.map fun t => t.text.toList)) :
    tokens cs = some ts := by
  induction ts generalizing cs with
  | nil =>
    rcases hcs with rfl | rfl <;>
    · rw [tokens]
      rfl
  | cons t ts ih =>
    have ht : t.IsPlain := h t List.mem_cons_self
    have hts : ∀ u ∈ ts, u.IsPlain := fun u hu => h u (List.mem_cons_of_mem _ hu)
    cases ts with
    | nil =>
      have hone : [' '].intercalate ([t].map fun t => t.text.toList) = t.text.toList ++ [] := by
        simp [List.intercalate]
      have hnil : tokens [] = some [] := ih hts (.inl rfl)
      rw [hone] at hcs
      rw [tokens_text ht (by simp [Apart]) hcs, hnil]
      rfl
    | cons u ts =>
      have hmore : [' '].intercalate ((t :: u :: ts).map fun t => t.text.toList) =
          t.text.toList ++ ' ' :: [' '].intercalate ((u :: ts).map fun t => t.text.toList) := by
        simp [List.intercalate_cons_cons]
      rw [hmore] at hcs
      rw [tokens_text ht (by simp [Apart]) hcs, ih hts (.inr rfl)]
      rfl

end Reader

/-- Tokens are read back from their texts with blanks between them. -/
theorem tokens?_intercalate {ts : List Token} (h : ∀ t ∈ ts, t.IsPlain) :
    tokens? (" ".intercalate (ts.map Token.text)) = some ts := by
  refine Reader.tokens_intercalate h (.inl ?_)
  rw [String.toList_intercalate, List.map_map]
  rfl

example : tokens? "name = 'it''s --' ;" =
    some [.word "name", .mark '=', .literal "it's --", .mark ';'] := by
  cbv

end BmpFeed.Sql
