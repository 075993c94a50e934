import BmpFeed.Proofs.Routers
import Mathlib.Data.List.DropRight
import Mathlib.Data.List.Forall2
import Mathlib.Data.List.ReduceOption

/-!
# The counts over a history

Messages and refreshes change the counts in any order. The latest refresh that brought rows says
with how many connections each router starts, and the rows of the messages since then say how many
it has now (`connections_after`); each row of a message is judged by the count at that point of the
history (`corrections_after`). Dashes in hashes play no part in it (`connections_redashed`,
`decisions_redashed`), and a message may be cut into several (`apply_append`). `follows_rows` puts
this together.
-/

namespace BmpFeed.Routers

variable {t t' : Routers} {r r' : Record} {rows rows' : List Record} {hash hash' : String} {n : Nat}

/-! ## Histories -/

/-- What changes the counts. -/
inductive Change
  /-- The rows of a message are taken. -/
  | message (rows : List Record)
  /-- The store has answered with these rows. -/
  | refresh (rows : List Row)

namespace Change

/-- The rows of a message. -/
def records : Change → List Record
  | message rows => rows
  | refresh _ => []

/-- The rows of an answer of the store. -/
def told : Change → List Row
  | message _ => []
  | refresh rows => rows

end Change

def change (t : Routers) : Change → Routers
  | .message rows => (t.apply rows).1
  | .refresh rows => t.refresh rows

/-- The counts after some changes, from none at all. -/
def after (changes : List Change) : Routers := changes.foldl change {}

/-- The latest answer of the store that had any rows. -/
def lastTold (changes : List Change) : List Row :=
  ((changes.map Change.told).filter fun rows => rows ≠ []).getLastD []

/-- The rows of the messages since that answer. -/
def since (changes : List Change) : List Record :=
  (changes.rtakeWhile fun c => c.told = []).flatMap Change.records

/-- The connections that a router has by an answer of the store: its last row there counts. -/
def started (rows : List Row) (hash : String) : Nat :=
  ((rows.filter (isOf hash)).map countOf).getLastD 0

/-- The live connections of a router by its history. -/
def count (changes : List Change) (hash : String) : Nat :=
  liveAfter hash (started (lastTold changes) hash) (since changes)

/-- What each row of a message calls for after a history, row by row. -/
def decisions (changes : List Change) (rows : List Record) : List (Option String) :=
  rows.zipIdx.map fun x => mark? (count (changes ++ [.message (rows.take x.2)])) x.1

section Counts

variable {changes changes' : List Change} {answer : List Row}

theorem count_message (changes : List Change) (rows : List Record) (hash : String) :
    count (changes ++ [.message rows]) hash = liveAfter hash (count changes hash) rows := by
  have htold : lastTold (changes ++ [.message rows]) = lastTold changes := by
    simp [lastTold, Change.told]
  have hsince : since (changes ++ [.message rows]) = since changes ++ rows := by
    unfold since
    rw [List.rtakeWhile_concat_pos _ _ _ (by simp [Change.told])]
    simp [Change.records]
  unfold count
  rw [htold, hsince, liveAfter_append]

theorem count_refresh_nil (changes : List Change) (hash : String) :
    count (changes ++ [.refresh []]) hash = count changes hash := by
  have htold : lastTold (changes ++ [.refresh []]) = lastTold changes := by
    simp [lastTold, Change.told]
  have hsince : since (changes ++ [.refresh []]) = since changes := by
    unfold since
    rw [List.rtakeWhile_concat_pos _ _ _ (by simp [Change.told])]
    simp [Change.records]
  unfold count
  rw [htold, hsince]

theorem count_refresh (h : answer ≠ []) (changes : List Change) (hash : String) :
    count (changes ++ [.refresh answer]) hash = started answer hash := by
  have htold : lastTold (changes ++ [.refresh answer]) = answer := by
    simp [lastTold, Change.told, List.filter_append, h]
  have hsince : since (changes ++ [.refresh answer]) = [] := by
    unfold since
    rw [List.rtakeWhile_concat_neg _ _ _ (by simp [Change.told, h])]
    rfl
  unfold count
  rw [htold, hsince]
  rfl

theorem connections_refresh_rows (h : answer ≠ []) (t : Routers) (hash : String) :
    (t.refresh answer).connections hash = started answer hash := by
  have hpairs : ((answer.filterMap fun row =>
        (row.lookup "hash_id").map fun hash => (normalize hash, countOf row)).filter
          fun p => p.1 = normalize hash).map Prod.snd =
      (answer.filter (isOf hash)).map countOf := by
    rw [List.filter_filterMap, List.map_filterMap, ← List.filterMap_eq_map, List.filterMap_filter]
    apply List.filterMap_congr
    intro row _
    unfold isOf
    cases row.lookup "hash_id" with
    | none => rfl
    | some h' =>
      by_cases hsame : normalize h' = normalize hash <;> simp [Option.filter, hsame]
  rw [refresh_of_ne_nil h]
  unfold connections started
  rw [FirstSeen.get?_ofList, lookup_reverse, ← List.getLast?_map, hpairs, List.getLastD_eq_getLast?]

/-- The counts are those of the history. -/
theorem connections_after (changes : List Change) (hash : String) :
    (after changes).connections hash = count changes hash := by
  induction changes using List.reverseRecOn with
  | nil => rfl
  | append_singleton changes c ih =>
    have hafter : after (changes ++ [c]) = (after changes).change c := List.foldl_append
    rw [hafter]
    cases c with
    | message rows =>
      rw [count_message, ← ih]
      exact connections_apply _ rows hash
    | refresh answer =>
      by_cases hanswer : answer = []
      · subst hanswer
        rw [count_refresh_nil, ← ih]
        rfl
      · rw [count_refresh hanswer]
        exact connections_refresh_rows hanswer _ hash

theorem count_congr (changes : List Change) (h : normalize hash = normalize hash') :
    count changes hash = count changes hash' := by
  rw [← connections_after, ← connections_after]
  unfold connections
  rw [h]

/-- The statements of a message are what its rows call for, in their order. -/
theorem corrections_after (changes : List Change) (rows : List Record) :
    corrections ((after changes).apply rows).2 = (decisions changes rows).reduceOption := by
  rw [corrections_apply]
  unfold marksFrom decisions List.reduceOption
  rw [List.filterMap_map]
  apply List.filterMap_congr
  intro x _
  refine mark?_congr fun hash _ => ?_
  rw [count_message, connections_after]

theorem decisions_cons (changes : List Change) (r : Record) (rows : List Record) :
    decisions changes (r :: rows) =
      mark? (count changes) r :: decisions (changes ++ [.message [r]]) rows := by
  unfold decisions
  rw [List.zipIdx_cons, List.map_cons, List.zipIdx_succ, List.map_map]
  congr 1
  · refine mark?_congr fun hash _ => ?_
    rw [count_message]
    rfl
  · apply List.map_congr_left
    intro x _
    refine mark?_congr fun hash _ => ?_
    rw [count_message, count_message, count_message, ← liveAfter_append]
    rfl

/-- A row opens a connection of the router. -/
def opensOne (hash : String) (r : Record) : Bool := names hash r && actionOf r = .opens

theorem liveAfter_le (hash : String) (n : Nat) (rows : List Record) :
    liveAfter hash n rows ≤ n + rows.countP (opensOne hash) := by
  induction rows generalizing n with
  | nil => exact Nat.le_refl n
  | cons r rows ih =>
    have hstep : (if names hash r then (actionOf r).apply n else n) ≤
        n + if opensOne hash r then 1 else 0 := by
      unfold opensOne
      cases names hash r <;> cases actionOf r <;> simp [Action.apply]
    rw [liveAfter_cons, List.countP_cons]
    have := ih (if names hash r then (actionOf r).apply n else n)
    omega

theorem countOf_le (row : Row) : countOf row ≤ 1 := by
  unfold countOf
  split_ifs <;> omega

theorem started_le (answer : List Row) (hash : String) : started answer hash ≤ 1 := by
  unfold started
  rw [List.getLastD_eq_getLast?]
  cases hlast : ((answer.filter (isOf hash)).map countOf).getLast? with
  | none => exact Nat.zero_le 1
  | some n =>
    obtain ⟨row, -, rfl⟩ := List.mem_map.1 (List.mem_of_getLast? hlast)
    exact countOf_le row

/-- A router has at most one connection more than rows since the latest answer have opened. -/
theorem count_le (changes : List Change) (hash : String) :
    count changes hash ≤ (since changes).countP (opensOne hash) + 1 := by
  have hlive := liveAfter_le hash (started (lastTold changes) hash) (since changes)
  have hstart := started_le (lastTold changes) hash
  unfold count
  omega

end Counts

/-! ## Cutting messages -/

theorem apply_cons_of_none (h : t.event? r = none) (rows : List Record) :
    t.apply (r :: rows) = t.apply rows := by
  rw [apply, h]

theorem apply_cons_of_some {e : Event} (h : t.event? r = some e) (rows : List Record) :
    t.apply (r :: rows) = (((t.record e).apply rows).1, e :: ((t.record e).apply rows).2) := by
  rw [apply, h]

/-- Two messages do what one with the rows of both does. -/
theorem apply_append (t : Routers) (rows rows' : List Record) :
    t.apply (rows ++ rows') =
      (((t.apply rows).1.apply rows').1, (t.apply rows).2 ++ ((t.apply rows).1.apply rows').2) := by
  induction rows generalizing t with
  | nil => rfl
  | cons r rows ih =>
    rw [List.cons_append]
    cases he : t.event? r with
    | none => rw [apply_cons_of_none he, apply_cons_of_none he, ih]
    | some e =>
      rw [apply_cons_of_some he, apply_cons_of_some he, ih]
      rfl

/-! ## Dashes -/

/-- The fields agree but for dashes in the hash. -/
structure Redashed (field field' : String → Option String) : Prop where
  hash : (field Correction.hashField).map normalize = (field' Correction.hashField).map normalize
  others : ∀ name, name ≠ Correction.hashField → field name = field' name

/-- The rows of the messages agree but for dashes in their hashes. -/
abbrev RedashedRows : List Record → List Record → Prop :=
  List.Forall₂ fun r r' => Redashed r.text? r'.text?

/-- The rows of the store agree but for dashes in their hashes. -/
abbrev RedashedAnswer : List Row → List Row → Prop :=
  List.Forall₂ fun row row' =>
    Redashed (fun name => row.lookup name) (fun name => row'.lookup name)

/-- The changes agree but for dashes in the hashes of their rows. -/
inductive Change.Redashed : Change → Change → Prop
  | message {rows rows' : List Record} : RedashedRows rows rows' →
    Redashed (.message rows) (.message rows')
  | refresh {answer answer' : List Row} : RedashedAnswer answer answer' →
    Redashed (.refresh answer) (.refresh answer')

/-- The statements agree but for dashes in the hash. -/
def SameMark (sql sql' : String) : Prop :=
  ∃ hash hash' timestamp, normalize hash = normalize hash' ∧
    sql = Correction.peersDown hash timestamp ∧ sql' = Correction.peersDown hash' timestamp

section Dashes

variable {answer answer' : List Row} {changes changes' : List Change}

theorem any_normalize (o : Option String) (hash : String) :
    (o.any fun h => normalize h = normalize hash) =
      (o.map normalize).any fun k => k = normalize hash := by
  cases o <;> rfl

theorem Redashed.names_eq (h : Redashed r.text? r'.text?) (hash : String) :
    names hash r = names hash r' := by
  unfold names
  rw [any_normalize, any_normalize, h.hash]

theorem Redashed.action_eq (h : Redashed r.text? r'.text?) : actionOf r = actionOf r' := by
  unfold actionOf
  rw [h.others _ (by decide)]

theorem RedashedRows.liveAfter_eq (h : RedashedRows rows rows') (hash : String) (n : Nat) :
    liveAfter hash n rows = liveAfter hash n rows' := by
  induction h generalizing n with
  | nil => rfl
  | cons hr _ ih => rw [liveAfter_cons, liveAfter_cons, hr.names_eq, hr.action_eq, ih]

theorem RedashedAnswer.started_eq (h : RedashedAnswer answer answer') (hash : String) :
    started answer hash = started answer' hash := by
  have hcounts : (answer.filter (isOf hash)).map countOf =
      (answer'.filter (isOf hash)).map countOf := by
    induction h with
    | nil => rfl
    | @cons row row' _ _ hrow _ ih =>
      have hof : isOf hash row = isOf hash row' := by
        unfold isOf
        rw [any_normalize, any_normalize]
        exact congrArg _ hrow.hash
      have hcount : countOf row = countOf row' := by
        unfold countOf isUp
        rw [show row.lookup "state" = row'.lookup "state" from hrow.others "state" (by decide)]
      rw [List.filter_cons, List.filter_cons, hof]
      split_ifs
      · rw [List.map_cons, List.map_cons, hcount, ih]
      · exact ih
  unfold started
  rw [hcounts]

/-- One change keeps what dashes cannot change. -/
theorem Change.Redashed.connections_eq {c c' : Change} (h : c.Redashed c')
    (ht : ∀ hash, t.connections hash = t'.connections hash) (hash : String) :
    (t.change c).connections hash = (t'.change c').connections hash := by
  cases h with
  | message hrows =>
    refine (connections_apply t _ hash).trans (Eq.trans ?_ (connections_apply t' _ hash).symm)
    rw [hrows.liveAfter_eq, ht]
  | @refresh answer answer' hanswer =>
    by_cases hnil : answer = []
    · subst hnil
      obtain rfl := List.forall₂_nil_left_iff.1 hanswer
      exact ht hash
    · have hnil' : answer' ≠ [] := by
        rintro rfl
        exact hnil (List.forall₂_nil_right_iff.1 hanswer)
      refine (connections_refresh_rows hnil t hash).trans
        (Eq.trans ?_ (connections_refresh_rows hnil' t' hash).symm)
      exact hanswer.started_eq hash

theorem connections_redashed (h : List.Forall₂ Change.Redashed changes changes')
    (ht : ∀ hash, t.connections hash = t'.connections hash) (hash : String) :
    (changes.foldl change t).connections hash = (changes'.foldl change t').connections hash := by
  induction h generalizing t t' with
  | nil => exact ht hash
  | cons hc _ ih => exact ih (hc.connections_eq ht)

theorem count_redashed (h : List.Forall₂ Change.Redashed changes changes')
    (hsame : normalize hash = normalize hash') : count changes hash = count changes' hash' := by
  rw [count_congr changes hsame, ← connections_after, ← connections_after]
  exact connections_redashed h (fun _ => rfl) hash'

theorem Redashed.mark? {start start' : String → Nat} (h : Redashed r.text? r'.text?)
    (hstart : ∀ hash hash', normalize hash = normalize hash' → start hash = start' hash') :
    Option.Rel SameMark (Routers.mark? start r) (Routers.mark? start' r') := by
  have hhash := h.hash
  unfold Routers.mark?
  cases hr : r.text? Correction.hashField with
  | none =>
    rw [hr, Option.map_none, eq_comm, Option.map_eq_none_iff] at hhash
    rw [hhash]
    exact .none
  | some hash =>
    rw [hr, Option.map_some, eq_comm, Option.map_eq_some_iff] at hhash
    obtain ⟨hash', hr', hsame⟩ := hhash
    rw [hr', Option.bind_some, Option.bind_some, h.action_eq, hstart hash hash' hsame.symm,
      h.others Correction.timestampField (by decide)]
    split_ifs
    · exact .some ⟨hash, hash', _, hsame.symm, rfl, rfl⟩
    · exact .none

/-- Row by row the same is decided. -/
theorem decisions_redashed (h : List.Forall₂ Change.Redashed changes changes')
    (hrows : RedashedRows rows rows') :
    List.Forall₂ (Option.Rel SameMark) (decisions changes rows) (decisions changes' rows') := by
  induction hrows generalizing changes changes' with
  | nil => exact .nil
  | @cons r r' rows rows' hr _ ih =>
    have hone : Change.Redashed (.message [r]) (.message [r']) := .message (.cons hr .nil)
    rw [decisions_cons, decisions_cons]
    exact .cons (hr.mark? fun _ _ hsame => count_redashed h hsame)
      (ih (List.rel_append h (.cons hone .nil)))

end Dashes

/-! ## The law -/

/-- What the counts and the statements of a history are. -/
structure Follows (changes : List Change) : Prop where
  connections_eq : ∀ hash, (after changes).connections hash = count changes hash
  /-- No count outgrows the rows that open connections. -/
  bounded : ∀ hash, count changes hash ≤ (since changes).countP (opensOne hash) + 1
  corrections_eq : ∀ rows,
    corrections ((after changes).apply rows).2 = (decisions changes rows).reduceOption
  append_eq : ∀ rows rows',
    (after changes).apply (rows ++ rows') =
      (((after (changes ++ [.message rows])).apply rows').1,
        ((after changes).apply rows).2 ++ ((after (changes ++ [.message rows])).apply rows').2)
  same_counts : ∀ changes', List.Forall₂ Change.Redashed changes changes' →
    ∀ hash hash', normalize hash = normalize hash' →
      (after changes).connections hash = (after changes').connections hash'
  same_decisions : ∀ changes', List.Forall₂ Change.Redashed changes changes' →
    ∀ rows rows', RedashedRows rows rows' →
      List.Forall₂ (Option.Rel SameMark) (decisions changes rows) (decisions changes' rows')

/-- The counts follow the rows of each router since the latest refresh, through any messages and
refreshes. -/
theorem follows_rows (changes : List Change) : Follows changes where
  connections_eq := connections_after changes
  bounded := count_le changes
  corrections_eq := corrections_after changes
  append_eq rows rows' := by
    have hafter : after (changes ++ [.message rows]) = ((after changes).apply rows).1 :=
      List.foldl_append
    rw [hafter]
    exact apply_append (after changes) rows rows'
  same_counts changes' h hash hash' hsame := by
    rw [connections_after, connections_after]
    exact count_redashed h hsame
  same_decisions _ h _ _ hrows := decisions_redashed h hrows

end BmpFeed.Routers
