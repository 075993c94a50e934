import BmpFeed.Sql.Literal
import Mathlib.Data.List.Basic
import Mathlib.Tactic.Common

/-!
# Reading statements

A reader of insert statements that knows no more than their syntax: a literal runs from a quote to
the next quote that is not followed by another, and two quotes inside it stand for one. Items are
separated by commas and rows stand in parentheses, so what is read depends on every quote, comma and
parenthesis outside of literals.
-/

namespace BmpFeed.Sql

/-- What stands in one place of a row. -/
inductive Content
  /-- A literal, by what it says. -/
  | literal (text : String)
  /-- Anything else, as it stands. -/
  | bare (text : String)
  deriving DecidableEq, Repr

structure Item where
  content : Content
  cast : Option String := none
  deriving DecidableEq, Repr

structure Statement where
  table : String
  columns : List String
  rows : List (List Item)
  /-- What follows the rows. -/
  closing : String
  deriving DecidableEq, Repr

/-- Reads from the front of a text, and leaves what follows. -/
abbrev Reader (α : Type) := List Char → Option (α × List Char)

namespace Reader

variable {α β : Type} {cs rest : List Char}

/-- The inside of a literal and its last quote. -/
def inside : Reader (List Char)
  | [] => none
  | '\'' :: '\'' :: cs => (inside cs).map fun x => ('\'' :: x.1, x.2)
  | '\'' :: cs => some ([], cs)
  | c :: cs => (inside cs).map fun x => (c :: x.1, x.2)

/-- All characters before one of the given. -/
def word (ends cs : List Char) : String × List Char :=
  (.ofList (cs.takeWhile (· ∉ ends)), cs.dropWhile (· ∉ ends))

/-- The type that an item is cast to. -/
def cast : List Char → Option String × List Char
  | ':' :: ':' :: cs => (some (word [',', ')'] cs).1, (word [',', ')'] cs).2)
  | cs => (none, cs)

def item : Reader Item
  | '\'' :: cs =>
    (inside cs).map fun x =>
      ({ content := .literal (.ofList x.1), cast := (cast x.2).1 }, (cast x.2).2)
  | cs =>
    let (text, rest) := word [',', ')', ':'] cs
    some ({ content := .bare text, cast := (cast rest).1 }, (cast rest).2)

/-- One or more with commas between them. -/
def separated (p : Reader α) (cs : List Char) : Option (List α × List Char) :=
  match p cs with
  | none => none
  | some (x, ',' :: rest) =>
    if rest.length < cs.length then (separated p rest).map fun xs => (x :: xs.1, xs.2) else none
  | some (x, rest) => some ([x], rest)
termination_by cs.length

def inParentheses (p : Reader α) : Reader α
  | '(' :: cs =>
    match p cs with
    | some (x, ')' :: rest) => some (x, rest)
    | _ => none
  | _ => none

def names : Reader (List String) :=
  inParentheses (separated fun cs => some (word [',', ')'] cs))

def row : Reader (List Item) := inParentheses (separated item)

/-- Reads the given text. -/
def expect (text : String) : List Char → Option (List Char) := fun cs =>
  if text.toList.isPrefixOf cs then some (cs.drop text.toList.length) else none

/-- A whole statement. -/
def statement? (sql : String) : Option Statement := do
  let cs ← expect "INSERT INTO " sql.toList
  let (table, cs) := word ['('] cs
  let (columns, cs) ← names cs
  let cs ← expect " VALUES " cs
  let (rows, cs) ← separated row cs
  -- There is a blank after the name of the table.
  some { table := .ofList table.toList.dropLast, columns, rows, closing := .ofList cs }

/-! ## Texts -/

theorem inside_doubleQuotes (text : List Char) (h : rest.head? ≠ some '\'') :
    inside (doubleQuotes text ++ '\'' :: rest) = some (text, rest) := by
  induction text with
  | nil =>
    cases rest with
    | nil => rfl
    | cons c rest =>
      have hc : c ≠ '\'' := by simpa using h
      simp [doubleQuotes, inside, hc]
  | cons c text ih =>
    unfold doubleQuotes
    split_ifs with hc
    · rw [hc]
      simp [inside, ih]
    · simp [inside, ih, hc]

theorem word_append {w ends : List Char} (hw : ∀ c ∈ w, c ∉ ends)
    (hrest : ∀ c ∈ rest.head?, c ∈ ends) : word ends (w ++ rest) = (.ofList w, rest) := by
  have hpos : ∀ c ∈ w, decide (c ∉ ends) = true := fun c hc => decide_eq_true (hw c hc)
  unfold word
  rw [List.takeWhile_append_of_pos hpos, List.dropWhile_append_of_pos hpos]
  cases rest with
  | nil => simp
  | cons c rest =>
    have hc : c ∈ ends := hrest c rfl
    simp [hc]

theorem expect_append (text : String) (cs : List Char) :
    expect text (text.toList ++ cs) = some cs := by
  unfold expect
  rw [if_pos (List.isPrefixOf_iff_prefix.2 (List.prefix_append _ _)), List.drop_left]

/-! ## Lists -/

theorem inParentheses_append {p : Reader α} {x : α}
    (h : p (cs ++ ')' :: rest) = some (x, ')' :: rest)) :
    inParentheses p ('(' :: (cs ++ ')' :: rest)) = some (x, rest) := by
  simp only [inParentheses, h]

/-- A list is read back when each of its elements is, wherever the text ends that follows it. -/
theorem separated_intercalate {p : Reader β} {write : α → List Char} {val : α → β} {xs : List α}
    (Ends : List Char → Prop) (hcomma : ∀ cs, Ends (',' :: cs))
    (hread : ∀ x ∈ xs, ∀ rest, Ends rest → p (write x ++ rest) = some (val x, rest))
    (hne : xs ≠ []) (hends : Ends rest) (hrest : rest.head? ≠ some ',') :
    separated p ([','].intercalate (xs.map write) ++ rest) = some (xs.map val, rest) := by
  induction xs with
  | nil => exact absurd rfl hne
  | cons x xs ih =>
    have hx := hread x List.mem_cons_self
    cases xs with
    | nil =>
      have hone : [','].intercalate ([x].map write) ++ rest = write x ++ rest := by
        simp [List.intercalate]
      rw [hone, separated, hx rest hends]
      cases rest with
      | nil => rfl
      | cons c rest =>
        have hc : c ≠ ',' := by simpa using hrest
        simp [hc]
    | cons y xs =>
      have hmore : [','].intercalate ((x :: y :: xs).map write) ++ rest =
          write x ++ ',' :: ([','].intercalate ((y :: xs).map write) ++ rest) := by
        simp [List.intercalate_cons_cons]
      have hrec := ih (fun z hz => hread z (List.mem_cons_of_mem _ hz)) (by simp)
      rw [hmore, separated, hx _ (hcomma _)]
      generalize [','].intercalate ((y :: xs).map write) ++ rest = later at hrec ⊢
      have hlen : later.length < (write x ++ ',' :: later).length := by
        rw [List.length_append, List.length_cons]
        omega
      simp only [if_pos hlen, hrec, Option.map_some, List.map_cons]

end Reader

end BmpFeed.Sql
