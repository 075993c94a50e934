import BmpFeed.Proofs.Routers
import BmpFeed.Proofs.Sql.Token

/-!
# Corrective statements read as they are meant

A corrective statement has a form: tokens that are always the same, and places for the fields of the
row that calls for it. `unaltered` says which rows call for statements and that each statement reads
as its form with the texts of the row's fields for literals, whatever these texts are. So no text of
a payload reaches beyond its literal.
-/

namespace BmpFeed.Correction

open Sql

variable {r : Record} {rows : List Record}

/-! ## Forms -/

/-- A token of a form. -/
inductive Place
  | fixed (t : Token)
  /-- A literal of the text of a field. -/
  | field (name : String)
  deriving DecidableEq

abbrev Form := List Place

def Place.token (value : String → String) : Place → Token
  | fixed t => t
  | field name => .literal (value name)

def Place.IsPlain : Place → Prop
  | fixed t => t.IsPlain
  | field _ => True

instance : DecidablePred Place.IsPlain
  | .fixed t => inferInstanceAs (Decidable t.IsPlain)
  | .field _ => .isTrue trivial

/-- The tokens of a form when the fields have these texts. -/
def Form.fill (form : Form) (value : String → String) : List Token := form.map (Place.token value)

def words (ws : List String) : Form := ws.map fun w => .fixed (.word w)

/-- The condition that a column holds the row's hash. -/
def isNamed (column : String) : Form :=
  words ["WHERE", column] ++ [.fixed (.mark '='), .field hashField]

/-- The condition that a row of the table is older than the event. -/
def isOlder : Form := words ["AND", "timestamp"] ++ [.fixed (.mark '<'), .field timestampField]

def setDown (table : String) : Form :=
  words ["UPDATE", table, "SET", "state"] ++ [.fixed (.mark '='), .fixed (.literal "down")]

def routersDownForm : Form := setDown "routers" ++ isNamed "collector_hash_id"

def ribDeleteForm : Form := words ["DELETE", "FROM", "ip_rib"] ++ isNamed "peer_hash_id" ++ isOlder

def peersDownForm : Form := setDown "bgp_peers" ++ isNamed "router_hash_id" ++ isOlder

section Statements

variable {form : Form} {sql : String}

theorem tokens?_eq_fill (hplain : ∀ p ∈ form, p.IsPlain) {value : String → String}
    (htext : sql = " ".intercalate ((form.fill value).map Token.text)) :
    tokens? sql = some (form.fill value) := by
  rw [htext]
  refine tokens?_intercalate fun t ht => ?_
  obtain ⟨p, hp, rfl⟩ := List.mem_map.1 ht
  cases p with
  | fixed t => exact hplain _ hp
  | field name => trivial

theorem quote_down : quote "down" = "'down'" := rfl

theorem tokens?_routersDown (value : String → String) :
    tokens? (routersDown (value hashField)) = some (routersDownForm.fill value) := by
  refine tokens?_eq_fill (by decide) ?_
  unfold routersDown
  rw [← String.toList_inj]
  simp [routersDownForm, setDown, isNamed, words, Form.fill, Place.token, Token.text,
    quote_down]

theorem tokens?_ribDelete (value : String → String) :
    tokens? (ribDelete (value hashField) (value timestampField)) =
      some (ribDeleteForm.fill value) := by
  refine tokens?_eq_fill (by decide) ?_
  unfold ribDelete
  rw [← String.toList_inj]
  simp [ribDeleteForm, isNamed, isOlder, words, Form.fill, Place.token, Token.text]

theorem tokens?_peersDown (value : String → String) :
    tokens? (peersDown (value hashField) (value timestampField)) =
      some (peersDownForm.fill value) := by
  refine tokens?_eq_fill (by decide) ?_
  unfold peersDown
  rw [← String.toList_inj]
  simp [peersDownForm, setDown, isNamed, isOlder, words, Form.fill, Place.token, Token.text,
    quote_down]

end Statements

/-- The text of a field; a missing one is empty. -/
def textOf (r : Record) (name : String) : String := (r.text? name).getD ""

theorem textOf_of_eq {name text : String} (h : r.text? name = some text) :
    textOf r name = text := by
  unfold textOf
  rw [h]
  rfl

/-- The statements read as the form, one for each row and in the order of the rows. -/
def Reads (form : Form) (sqls : List String) (rows : List Record) : Prop :=
  sqls.map tokens? = rows.map fun r => some (form.fill (textOf r))

/-! ## Rows -/

/-- What is made of some elements, when it is known for each of them. -/
theorem map_filterMap_eq {α β γ : Type} {f : α → Option β} {g : β → γ} {p : α → Bool} {h : α → γ}
    (hf : ∀ a, (f a).map g = if p a then some (h a) else none) (l : List α) :
    (l.filterMap f).map g = (l.filter p).map h := by
  rw [List.map_filterMap, ← List.filterMap_eq_map, List.filterMap_filter]
  exact List.filterMap_congr fun a _ => hf a

theorem equalsIgnoringCase_eq {a b : String} (hb : b.toList.map Char.toLower = b.toList) :
    Text.equalsIgnoringCase a b = decide (a.toLower = b) := by
  have hmap : a.toLower = a.map Char.toLower := rfl
  have hlower : a.toLower = b ↔ a.toList.map Char.toLower = b.toList.map Char.toLower := by
    rw [hb, ← String.toList_inj, hmap, String.toList_map]
  rw [Bool.eq_iff_iff, decide_eq_true_iff, hlower]
  exact beq_iff_eq

/-- The collector of the row started or stopped, in any letter case, and has a hash. -/
def isRestart (r : Record) : Bool :=
  (r.text? actionField).any (fun a => a.toLower = "started" || a.toLower = "stopped") &&
    (r.text? hashField).isSome

/-- The peer of the row has a hash, and the row a time. -/
def isDated (r : Record) : Bool := (r.text? hashField).isSome && (r.text? timestampField).isSome

/-- The router of the row has a hash, and the row opens a connection. -/
def isOpening (r : Record) : Bool := (r.text? hashField).isSome && Routers.actionOf r = .opens

theorem collectorRestarts_eq (r : Record) :
    collectorRestarts r =
      (r.text? actionField).any fun a => a.toLower = "started" || a.toLower = "stopped" := by
  unfold collectorRestarts
  cases r.text? actionField with
  | none => rfl
  | some a =>
    dsimp only [Option.any_some]
    rw [equalsIgnoringCase_eq (by decide), equalsIgnoringCase_eq (by decide)]

theorem reads_ofCollectors (rows : List Record) :
    Reads routersDownForm (ofCollectors rows) (rows.filter isRestart) := by
  unfold ofCollectors
  rw [List.filterMap_filter]
  refine map_filterMap_eq (fun r => ?_) rows
  rw [collectorRestarts_eq]
  unfold isRestart
  cases hhash : r.text? hashField with
  | none =>
    rw [Option.isSome_none, Bool.and_false, if_neg Bool.false_ne_true]
    split_ifs <;> rfl
  | some hash =>
    rw [Option.isSome_some, Bool.and_true]
    split_ifs
    · rw [← textOf_of_eq hhash]
      exact congrArg some (tokens?_routersDown (textOf r))
    · rfl

theorem reads_ofPeers (rows : List Record) :
    Reads ribDeleteForm (ofPeers rows) (rows.filter isDated) := by
  refine map_filterMap_eq (fun r => ?_) rows
  unfold isDated
  cases hhash : r.text? hashField with
  | none => rfl
  | some hash =>
    cases htime : r.text? timestampField with
    | none => rfl
    | some timestamp =>
      rw [← textOf_of_eq hhash, ← textOf_of_eq htime]
      exact congrArg some (tokens?_ribDelete (textOf r))

theorem mark_spec {start : String → Nat} {sql : String} (h : Routers.mark? start r = some sql) :
    isOpening r = true ∧ tokens? sql = some (peersDownForm.fill (textOf r)) := by
  unfold Routers.mark? at h
  obtain ⟨hash, hhash, hsql⟩ := Option.bind_eq_some_iff.1 h
  obtain ⟨hopens, hsql⟩ := Option.ite_none_right_eq_some.1 hsql
  obtain rfl := Option.some.inj hsql
  constructor
  · unfold isOpening
    rw [hhash, hopens.1]
    rfl
  · rw [← textOf_of_eq hhash]
    exact tokens?_peersDown (textOf r)

theorem exists_openings (start : String → Nat) (rows : List Record) :
    ∃ openings : List Record, openings.Sublist rows ∧ (∀ r ∈ openings, isOpening r = true) ∧
      Reads peersDownForm (Routers.marksFrom start rows) openings := by
  induction rows generalizing start with
  | nil => exact ⟨[], .refl _, by simp, rfl⟩
  | cons r rows ih =>
    obtain ⟨openings, hsub, hopen, hreads⟩ :=
      ih fun hash => Routers.liveAfter hash (start hash) [r]
    rw [Routers.marksFrom_cons]
    cases hmark : Routers.mark? start r with
    | none => exact ⟨openings, hsub.cons r, hopen, hreads⟩
    | some sql =>
      obtain ⟨hr, hsql⟩ := mark_spec hmark
      refine ⟨r :: openings, hsub.cons_cons r, List.forall_mem_cons.2 ⟨hr, hopen⟩, ?_⟩
      exact congrArg₂ List.cons hsql hreads

/-! ## All statements -/

/-- What the corrective statements of rows read as. -/
structure Unaltered (t : Routers) (rows : List Record) : Prop where
  /-- There is one statement for every restart of a collector. -/
  collectors : Reads routersDownForm (ofCollectors rows) (rows.filter isRestart)
  /-- There is one statement for every row of a peer with a hash and a time. -/
  peers : Reads ribDeleteForm (ofPeers rows) (rows.filter isDated)
  /-- There are statements for some of the rows that open a connection of a router. -/
  routers : ∃ openings : List Record, openings.Sublist rows ∧
    (∀ r ∈ openings, isOpening r = true) ∧
    Reads peersDownForm (Routers.corrections (t.apply rows).2) openings

/-- Whatever the fields of the rows hold, the corrective statements read as their forms. -/
theorem unaltered (t : Routers) (rows : List Record) : Unaltered t rows where
  collectors := reads_ofCollectors rows
  peers := reads_ofPeers rows
  routers := by
    rw [Routers.corrections_apply]
    exact exists_openings t.connections rows

end BmpFeed.Correction
