import BmpFeed.Proofs.FirstSeen
import BmpFeed.Proofs.Json.Number
import BmpFeed.Proofs.Sql.Reader
import BmpFeed.Sql.Mapping

/-!
# Statements say what their records say

`Mapping.reads_back` reads the statement of a request: whatever the fields of the records hold, the
reader finds one row for each identity, one item for each column, and in each item the field of the
last record with that identity. So no field reaches beyond its item.
-/

namespace BmpFeed.Sql

variable {m : Mapping} {r : Record} {rows : List Record} {rest : List Char} {c : Column}

/-- Without quotes, commas and parentheses. -/
def IsPlain (s : String) : Prop := ∀ c ∈ s.toList, c ∉ ['\'', ',', '(', ')']

instance (s : String) : Decidable (IsPlain s) :=
  List.decidableBAll (fun c => c ∉ ['\'', ',', '(', ')']) s.toList

/-- Without the characters that would end an item or make it a literal. -/
def IsBare (s : String) : Prop := ∀ c ∈ s.toList, c ∉ ['\'', ',', ')', ':']

instance (s : String) : Decidable (IsBare s) :=
  List.decidableBAll (fun c => c ∉ ['\'', ',', ')', ':']) s.toList

/-! ## Items -/

/-- How a literal goes on with its cast. -/
def castText : Option String → String
  | some cast => "::" ++ cast
  | none => ""

/-- What a field comes to in a statement. -/
def Content.ofField : Option Json → Content
  | none | some .null => .bare "null"
  | some (.bool true) => .bare "true"
  | some (.bool false) => .bare "false"
  | some (.number n) => .bare n.render
  | some (.text s) => .literal s
  | some v => .literal v.render

/-- The field of a record for a column. -/
def Item.ofField (r : Record) (c : Column) : Item :=
  { content := .ofField (Json.Fields.get? r c.name), cast := c.cast }

namespace Reader

/-- What may follow an item. -/
def Ends (cs : List Char) : Prop := cs.head? = some ',' ∨ cs.head? = some ')'

theorem Ends.mem (h : Ends rest) : ∀ c ∈ rest.head?, c ∈ [',', ')'] := by
  intro c hc
  rcases h with h | h <;>
  · rw [h] at hc
    obtain rfl := Option.some.inj hc
    simp

theorem cast_append {cast? : Option String} (hcast : ∀ s ∈ cast?, IsPlain s) (h : Ends rest) :
    cast ((castText cast?).toList ++ rest) = (cast?, rest) := by
  cases cast? with
  | none =>
    cases rest with
    | nil => rfl
    | cons c rest =>
      have hc : c ≠ ':' := by
        rcases h with h | h <;> simp at h <;> simp [h]
      simp [castText, cast, hc]
  | some s =>
    have hs : ∀ c ∈ s.toList, c ∉ [',', ')'] := by
      intro c hc hmem
      refine hcast s rfl c hc ?_
      rcases List.mem_cons.1 hmem with rfl | hmem
      · simp
      · simp [List.mem_singleton.1 hmem]
    have htext : (castText (some s)).toList ++ rest = ':' :: ':' :: (s.toList ++ rest) := by
      simp [castText]
    rw [htext, cast, word_append hs h.mem, String.ofList_toList]

/-- Neither a cast nor what follows an item begins with a quote. -/
theorem head?_cast (cast? : Option String) (h : Ends rest) :
    ∀ c ∈ ((castText cast?).toList ++ rest).head?, c ∈ [',', ')', ':'] := by
  cases cast? with
  | none =>
    intro c hc
    have hmem := h.mem c (by simpa [castText] using hc)
    simp only [List.mem_cons, List.not_mem_nil, or_false] at hmem ⊢
    tauto
  | some s => simp [castText]

theorem item_literal (text : String) {cast? : Option String} (hcast : ∀ s ∈ cast?, IsPlain s)
    (h : Ends rest) : item ((quote text).toList ++ ((castText cast?).toList ++ rest)) =
      some ({ content := .literal text, cast := cast? }, rest) := by
  have hhead : ((castText cast?).toList ++ rest).head? ≠ some '\'' := by
    intro hquote
    have hmem := head?_cast cast? h '\'' hquote
    simp at hmem
  have htext : (quote text).toList ++ ((castText cast?).toList ++ rest) =
      '\'' :: (doubleQuotes text.toList ++ '\'' :: ((castText cast?).toList ++ rest)) := by
    simp [quote]
  rw [htext, item, inside_doubleQuotes _ hhead]
  simp only [Option.map_some, cast_append hcast h, String.ofList_toList]

theorem item_bare (text : String) {cast? : Option String} (htext : IsBare text)
    (hcast : ∀ s ∈ cast?, IsPlain s) (h : Ends rest) :
    item (text.toList ++ ((castText cast?).toList ++ rest)) =
      some ({ content := .bare text, cast := cast? }, rest) := by
  have hword : word [',', ')', ':'] (text.toList ++ ((castText cast?).toList ++ rest)) =
      (text, (castText cast?).toList ++ rest) := by
    rw [word_append (fun c hc hmem => htext c hc (List.mem_cons_of_mem _ hmem))
      (head?_cast cast? h), String.ofList_toList]
  have hquote : (text.toList ++ ((castText cast?).toList ++ rest)).head? ≠ some '\'' := by
    intro hquote
    cases hlist : text.toList with
    | nil =>
      rw [hlist] at hquote
      have hmem := head?_cast cast? h '\'' hquote
      simp at hmem
    | cons c cs =>
      rw [hlist] at hquote
      obtain rfl := Option.some.inj hquote
      exact htext _ (hlist ▸ List.mem_cons_self) (by simp)
  rw [item]
  · rw [hword]
    simp only [cast_append hcast h]
  · intro cs hcs
    exact hquote (by rw [hcs]; rfl)

theorem not_mem_of_numeric {c : Char} (h : isNumeric c = true) : c ∉ ['\'', ',', ')', ':'] := by
  intro hmem
  simp only [List.mem_cons, List.not_mem_nil, or_false] at hmem
  rcases hmem with rfl | rfl | rfl | rfl <;> exact absurd h (by decide)

/-- A field is read back with its cast. -/
theorem item_append (v : Option Json) {cast? : Option String} (hcast : ∀ s ∈ cast?, IsPlain s)
    (h : Ends rest) : item ((literal v).toList ++ ((castText cast?).toList ++ rest)) =
      some ({ content := .ofField v, cast := cast? }, rest) := by
  cases v with
  | none => exact item_bare "null" (by decide) hcast h
  | some v =>
    cases v with
    | null => exact item_bare "null" (by decide) hcast h
    | bool b =>
      cases b with
      | true => exact item_bare "true" (by decide) hcast h
      | false => exact item_bare "false" (by decide) hcast h
    | number n =>
      exact item_bare _ (fun c hc => not_mem_of_numeric (Numeric.render n c hc)) hcast h
    | text s => exact item_literal s hcast h
    | array items => exact item_literal _ hcast h
    | object fields => exact item_literal _ hcast h

/-! ## Rows -/

theorem row_fragment (hm : m.columns ≠ [])
    (hcasts : ∀ c ∈ m.columnSpecs, ∀ s ∈ c.cast, IsPlain s) (r : Record) (rest : List Char) :
    row ((m.fragment r).toList ++ rest) = some (m.columnSpecs.map (Item.ofField r), rest) := by
  have htext : (m.fragment r).toList ++ rest =
      '(' :: ([','].intercalate (m.columnSpecs.map fun c => (Mapping.item r c).toList) ++
        ')' :: rest) := by
    simp [Mapping.fragment, String.toList_intercalate, Function.comp_def]
  have hitem : ∀ c ∈ m.columnSpecs, ∀ rest, Ends rest →
      item ((Mapping.item r c).toList ++ rest) = some (Item.ofField r c, rest) := by
    intro c hc rest hrest
    have hsplit : (Mapping.item r c).toList ++ rest =
        (literal (Json.Fields.get? r c.name)).toList ++ ((castText c.cast).toList ++ rest) := by
      rw [← List.append_assoc, ← String.toList_append]
      rfl
    rw [hsplit]
    exact item_append _ (hcasts c hc) hrest
  rw [htext]
  exact inParentheses_append (separated_intercalate Ends (fun _ => .inl rfl) hitem
    (by simpa [Mapping.columnSpecs] using hm) (.inr rfl) (by simp))

theorem names_append (hm : m.columns ≠ []) (hnames : ∀ c ∈ m.columnSpecs, IsPlain c.name)
    (rest : List Char) :
    names ('(' :: ((",".intercalate (m.columnSpecs.map Column.name)).toList ++ ')' :: rest)) =
      some (m.columnSpecs.map Column.name, rest) := by
  have htext : (",".intercalate (m.columnSpecs.map Column.name)).toList =
      [','].intercalate (m.columnSpecs.map fun c => c.name.toList) := by
    simp [String.toList_intercalate, Function.comp_def]
  have hname : ∀ c ∈ m.columnSpecs, ∀ rest, Ends rest →
      (fun cs => some (word [',', ')'] cs)) (c.name.toList ++ rest) = some (c.name, rest) := by
    intro c hc rest hrest
    have hplain : ∀ ch ∈ c.name.toList, ch ∉ [',', ')'] := by
      intro ch hch hmem
      refine hnames c hc ch hch ?_
      simp only [List.mem_cons, List.not_mem_nil, or_false] at hmem ⊢
      tauto
    dsimp only
    rw [word_append hplain hrest.mem, String.ofList_toList]
  rw [htext]
  exact inParentheses_append (separated_intercalate Ends (fun _ => .inl rfl) hname
    (by simpa [Mapping.columnSpecs] using hm) (.inr rfl) (by simp))

end Reader

namespace Mapping

/-- The usual statement, with plain names around the values. -/
structure IsPlain (m : Mapping) : Prop where
  opening_eq : m.opening = none
  columns_ne_nil : m.columns ≠ []
  table : Sql.IsPlain m.table
  names : ∀ c ∈ m.columnSpecs, Sql.IsPlain c.name
  casts : ∀ c ∈ m.columnSpecs, ∀ s ∈ c.cast, Sql.IsPlain s
  /-- What follows the values begins with a blank. -/
  closing : ∀ c ∈ m.closing.toList.head?, c = ' '

/-- The statement has, for each identity of the records, a row of the fields of the last record with
that identity. -/
structure ReadsBack (m : Mapping) (rows : List Record) (st : Statement) : Prop where
  table_eq : st.table = m.table
  columns_eq : st.columns = m.columnSpecs.map Column.name
  closing_eq : st.closing = m.closing
  /-- The identities come in the order of their first records. -/
  rows_eq : ∃ last : List Record, last.map m.identityOf = distinct (rows.map m.identityOf) ∧
    (∀ r ∈ last, ∃ before after, rows = before ++ r :: after ∧
      ∀ r' ∈ after, m.identityOf r' ≠ m.identityOf r) ∧
    st.rows = last.map fun r => m.columnSpecs.map (Item.ofField r)

/-- The last record of each identity, in the order of the first ones. -/
def lastRecords (m : Mapping) (rows : List Record) : List Record :=
  (latest (rows.map fun r => (m.identityOf r, r))).map Prod.snd

theorem values_values (m : Mapping) (rows : List Record) :
    (m.values rows).values = (m.lastRecords rows).map m.fragment := by
  have hpairs : (rows.map fun r => (m.identityOf r, m.fragment r)) =
      (rows.map fun r => (m.identityOf r, r)).map fun p => (p.1, m.fragment p.2) := by
    rw [List.map_map]
    rfl
  unfold values lastRecords FirstSeen.values
  rw [FirstSeen.entries_ofList, hpairs, latest_map, List.map_map, List.map_map]
  rfl

theorem identityOf_lastRecords (m : Mapping) (rows : List Record) :
    (m.lastRecords rows).map m.identityOf = distinct (rows.map m.identityOf) := by
  have hfst : (latest (rows.map fun r => (m.identityOf r, r))).map (m.identityOf ∘ Prod.snd) =
      (latest (rows.map fun r => (m.identityOf r, r))).map Prod.fst := by
    refine List.map_congr_left fun p hp => ?_
    obtain ⟨r, -, rfl⟩ := List.mem_map.1 (mem_of_mem_latest hp)
    rfl
  unfold lastRecords
  rw [List.map_map, hfst, map_fst_latest, List.map_map]
  rfl

theorem split_of_mem_lastRecords (h : r ∈ m.lastRecords rows) :
    ∃ before after, rows = before ++ r :: after ∧
      ∀ r' ∈ after, m.identityOf r' ≠ m.identityOf r := by
  obtain ⟨p, hp, rfl⟩ := List.mem_map.1 h
  obtain ⟨before, after, hsplit, hothers⟩ := split_of_mem_latest hp
  obtain ⟨rows₁, rest, rfl, -, hrest⟩ := List.map_eq_append_iff.1 hsplit
  obtain ⟨r, rows₂, rfl, rfl, rfl⟩ := List.map_eq_cons_iff.1 hrest
  exact ⟨rows₁, rows₂, rfl, fun r' hr' => hothers _ (List.mem_map_of_mem hr')⟩

theorem lastRecords_ne_nil (m : Mapping) (h : rows ≠ []) : m.lastRecords rows ≠ [] := by
  intro hnil
  have hkeys := m.identityOf_lastRecords rows
  rw [hnil] at hkeys
  cases rows with
  | nil => exact h rfl
  | cons r rows =>
    have hmem : m.identityOf r ∈ distinct ((r :: rows).map m.identityOf) :=
      mem_distinct.2 List.mem_cons_self
    rw [← hkeys] at hmem
    exact absurd hmem (by simp)

/-- The pieces of a statement. -/
theorem sql_request (hm : m.IsPlain) (key : String) (rows : List Record) :
    (m.request key rows).sql.toList =
      "INSERT INTO ".toList ++ ((m.table ++ " ").toList ++
        '(' :: ((",".intercalate (m.columnSpecs.map Column.name)).toList ++
          ')' :: (" VALUES ".toList ++
            ([','].intercalate ((m.lastRecords rows).map fun r => (m.fragment r).toList) ++
              m.closing.toList)))) := by
  unfold Request.sql joinStatement
  simp only [request, values_values, statementOpening, hm.opening_eq, String.toList_append,
    String.toList_intercalate, List.map_map, Function.comp_def]
  simp

theorem word_table (hm : m.IsPlain) (rest : List Char) :
    Reader.word ['('] ((m.table ++ " ").toList ++ '(' :: rest) =
      (m.table ++ " ", '(' :: rest) := by
  have hplain : ∀ c ∈ (m.table ++ " ").toList, c ∉ ['('] := by
    intro c hc hmem
    obtain rfl := List.mem_singleton.1 hmem
    rw [String.toList_append] at hc
    rcases List.mem_append.1 hc with hc | hc
    · exact hm.table '(' hc (by decide)
    · exact absurd hc (by decide)
  rw [Reader.word_append hplain (by simp), String.ofList_toList]

theorem rows_lastRecords (hm : m.IsPlain) (hrows : rows ≠ []) :
    Reader.separated Reader.row
        ([','].intercalate ((m.lastRecords rows).map fun r => (m.fragment r).toList) ++
          m.closing.toList) =
      some ((m.lastRecords rows).map fun r => m.columnSpecs.map (Item.ofField r),
        m.closing.toList) := by
  have hclosing : m.closing.toList.head? ≠ some ',' := by
    intro hcomma
    exact absurd (hm.closing ',' hcomma) (by decide)
  exact Reader.separated_intercalate (fun _ => True) (fun _ => trivial)
    (fun r _ rest _ => Reader.row_fragment hm.columns_ne_nil hm.casts r rest)
    (m.lastRecords_ne_nil hrows) trivial hclosing

/-- The statement of a request says what its records say. -/
theorem reads_back (hm : m.IsPlain) (key : String) (hrows : rows ≠ []) :
    ∃ st, Reader.statement? (m.request key rows).sql = some st ∧ m.ReadsBack rows st := by
  have htable : String.ofList (m.table ++ " ").toList.dropLast = m.table := by
    simp [String.toList_append]
  refine ⟨{ table := m.table, columns := m.columnSpecs.map Column.name
            rows := (m.lastRecords rows).map fun r => m.columnSpecs.map (Item.ofField r)
            closing := m.closing }, ?_, ?_⟩
  · simp only [Reader.statement?, sql_request hm, Reader.expect_append, word_table hm,
      Reader.names_append hm.columns_ne_nil hm.names, rows_lastRecords hm hrows, htable,
      Option.bind_eq_bind, Option.bind_some, String.ofList_toList]
  · exact ⟨rfl, rfl, rfl, m.lastRecords rows, m.identityOf_lastRecords rows,
      fun _ hr => split_of_mem_lastRecords hr, rfl⟩

/-- Routes with what is known about them. -/
def routeMapping : Mapping :=
  { kind := .unicastPrefix, table := "ip_rib", closing := " ON CONFLICT DO NOTHING"
    columns := ["prefix", "origin", "attrs::json"], identity := ["prefix"] }

/-- The first field would end its row and its statement if its quote were not doubled. -/
def routeRecords : List Record :=
  [[("prefix", .text "a'),('b"), ("origin", .number (.neg 1))],
    [("prefix", .text "c"), ("attrs", .array [.text "it's", .bool true])],
    [("prefix", .text "a'),('b"), ("origin", .text "i")]]

theorem reads_back_sample :
    routeMapping.IsPlain ∧ routeRecords ≠ [] ∧
      (routeMapping.request "k" routeRecords).sql =
        "INSERT INTO ip_rib (prefix,origin,attrs) VALUES ('a''),(''b','i',null::json)," ++
          "('c',null,'[\"it''s\",true]'::json) ON CONFLICT DO NOTHING" ∧
      ∃ st, Reader.statement? (routeMapping.request "k" routeRecords).sql = some st ∧
        routeMapping.ReadsBack routeRecords st := by
  have hclosing : ∀ c ∈ routeMapping.closing.toList.head?, c = ' ' := fun c hc =>
    (Option.some.inj hc).symm
  have hplain : routeMapping.IsPlain :=
    ⟨rfl, by decide, by decide, by decide +kernel, by decide +kernel, hclosing⟩
  exact ⟨hplain, by decide, by decide +kernel, reads_back hplain "k" (by decide)⟩

end Mapping

end BmpFeed.Sql
