import BmpFeed.Proofs.FirstSeen
import BmpFeed.Routers

/-!
# What the router counts say

The counts follow the rows of each router by themselves (`connections_apply`), and the corrective
statements are those of the rows at which the count of the row's router is zero
(`corrections_apply`). A refresh leaves one connection to each router that the store has up, however
many it has (`connections_refresh`), so that rows which end some of them may seem to end all:
`marksFrom_eq_iff` says when that makes a difference.
-/

namespace BmpFeed.Routers

variable {t : Routers} {r : Record} {rows before history : List Record} {hash : String} {n n' : Nat}

/-! ## Rows -/

/-- The row is about the router with this hash. -/
def names (hash : String) (r : Record) : Bool :=
  (r.text? Correction.hashField).any fun h => normalize h = normalize hash

/-- What the row does to its router. -/
def actionOf (r : Record) : Action := .ofText ((r.text? Correction.actionField).getD "")

/-- The live connections of a router after some rows, when there were `n` before. -/
def liveAfter (hash : String) (n : Nat) (rows : List Record) : Nat :=
  (rows.filter (names hash)).foldl (fun n r => (actionOf r).apply n) n

/-- The live connections of a router, by all rows so far. -/
def live (history : List Record) (hash : String) : Nat := liveAfter hash 0 history

theorem Action.apply_mono (a : Action) (h : n ≤ n') : a.apply n ≤ a.apply n' := by
  cases a <;> simp only [Action.apply] <;> omega

theorem liveAfter_cons (hash : String) (n : Nat) (r : Record) (rows : List Record) :
    liveAfter hash n (r :: rows) =
      liveAfter hash (if names hash r then (actionOf r).apply n else n) rows := by
  unfold liveAfter
  rw [List.filter_cons]
  split_ifs <;> rfl

theorem liveAfter_append (hash : String) (n : Nat) (rows rows' : List Record) :
    liveAfter hash n (rows ++ rows') = liveAfter hash (liveAfter hash n rows) rows' := by
  unfold liveAfter
  rw [List.filter_append, List.foldl_append]

theorem live_append (history rows : List Record) (hash : String) :
    live (history ++ rows) hash = liveAfter hash (live history hash) rows :=
  liveAfter_append hash 0 history rows

theorem liveAfter_mono (hash : String) (h : n ≤ n') (rows : List Record) :
    liveAfter hash n rows ≤ liveAfter hash n' rows := by
  induction rows generalizing n n' with
  | nil => exact h
  | cons r rows ih =>
    rw [liveAfter_cons, liveAfter_cons]
    apply ih
    split_ifs
    · exact (actionOf r).apply_mono h
    · exact h

/-- Rows about other routers change nothing. -/
theorem liveAfter_of_not_names (h : ∀ r ∈ rows, names hash r = false) (n : Nat) :
    liveAfter hash n rows = n := by
  have hnone : rows.filter (names hash) = [] :=
    List.filter_eq_nil_iff.2 fun r hr => by simp [h r hr]
  unfold liveAfter
  rw [hnone]
  rfl

/-- Without rows that end a connection there are at least as many as before. -/
theorem le_liveAfter (h : ∀ r ∈ rows, names hash r = true → actionOf r ≠ .ends) (n : Nat) :
    n ≤ liveAfter hash n rows := by
  induction rows generalizing n with
  | nil => exact Nat.le_refl n
  | cons r rows ih =>
    have hstep : n ≤ if names hash r then (actionOf r).apply n else n := by
      split_ifs with hname
      · cases haction : actionOf r with
        | ends => exact absurd haction (h r List.mem_cons_self hname)
        | _ => simp [Action.apply]
      · exact Nat.le_refl n
    rw [liveAfter_cons]
    exact Nat.le_trans hstep (ih (fun r hr => h r (List.mem_cons_of_mem _ hr)) _)

/-! ## Corrective statements -/

/-- The statement that a row calls for, given the live connections of each router. -/
def mark? (count : String → Nat) (r : Record) : Option String :=
  (r.text? Correction.hashField).bind fun hash =>
    if actionOf r = .opens ∧ count hash = 0 then
      some (Correction.peersDown hash ((r.text? Correction.timestampField).getD ""))
    else none

/-- The statements that rows call for, in their order, when each router has `start` connections
before them. -/
def marksFrom (start : String → Nat) (rows : List Record) : List String :=
  rows.zipIdx.filterMap fun x =>
    mark? (fun hash => liveAfter hash (start hash) (rows.take x.2)) x.1

theorem mark?_congr {count count' : String → Nat}
    (h : ∀ hash, r.text? Correction.hashField = some hash → count hash = count' hash) :
    mark? count r = mark? count' r := by
  unfold mark?
  cases hhash : r.text? Correction.hashField with
  | none => rfl
  | some hash => simp only [Option.bind_some, h hash hhash]

theorem marksFrom_cons (start : String → Nat) (r : Record) (rows : List Record) :
    marksFrom start (r :: rows) =
      (mark? start r).toList ++ marksFrom (fun hash => liveAfter hash (start hash) [r]) rows := by
  have htail : ((rows.zipIdx 1).filterMap fun x =>
        mark? (fun hash => liveAfter hash (start hash) ((r :: rows).take x.2)) x.1) =
      marksFrom (fun hash => liveAfter hash (start hash) [r]) rows := by
    unfold marksFrom
    rw [List.zipIdx_succ, List.filterMap_map]
    apply List.filterMap_congr
    intro x _
    refine mark?_congr fun hash _ => ?_
    rw [← liveAfter_append]
    rfl
  have hsplit : marksFrom start (r :: rows) = (mark? start r).toList ++
      (rows.zipIdx 1).filterMap fun x =>
        mark? (fun hash => liveAfter hash (start hash) ((r :: rows).take x.2)) x.1 := by
    unfold marksFrom
    rw [List.zipIdx_cons, List.filterMap_cons]
    have hhead : mark? (fun hash => liveAfter hash (start hash) ((r :: rows).take 0)) r =
        mark? start r := mark?_congr fun _ _ => rfl
    dsimp only
    rw [hhead]
    cases mark? start r <;> rfl
  rw [hsplit, htail]

/-! ## The counts -/

theorem connections_record (t : Routers) (e : Event) (hash : String) :
    (t.record e).connections hash =
      if normalize e.hash = normalize hash then e.connections else t.connections hash := by
  unfold record connections
  rw [FirstSeen.get?_put]
  by_cases h : normalize hash = normalize e.hash
  · rw [if_pos h, if_pos h.symm]
    rfl
  · rw [if_neg h, if_neg fun he => h he.symm]

/-- The count of a row's router after the row. -/
theorem connections_event {e : Event} (h : t.event? r = some e) (hash : String) :
    (t.record e).connections hash = liveAfter hash (t.connections hash) [r] := by
  unfold event? at h
  obtain ⟨h', hhash, rfl⟩ := Option.map_eq_some_iff.1 h
  have hnames : names hash r = decide (normalize h' = normalize hash) := by
    unfold names
    rw [hhash]
    rfl
  have hlive : liveAfter hash (t.connections hash) [r] =
      if normalize h' = normalize hash then (actionOf r).apply (t.connections hash)
      else t.connections hash := by
    rw [liveAfter_cons, hnames]
    simp [liveAfter]
  rw [connections_record, hlive]
  dsimp only
  split_ifs with hsame
  · have hcount : t.connections h' = t.connections hash := by
      unfold connections
      rw [hsame]
    rw [hcount]
    rfl
  · rfl

theorem not_names_of_event (h : t.event? r = none) (hash : String) : names hash r = false := by
  unfold event? at h
  unfold names
  rw [Option.map_eq_none_iff.1 h]
  rfl

theorem connections_apply (t : Routers) (rows : List Record) (hash : String) :
    (t.apply rows).1.connections hash = liveAfter hash (t.connections hash) rows := by
  induction rows generalizing t with
  | nil => rfl
  | cons r rows ih =>
    unfold apply
    cases he : t.event? r with
    | none =>
      rw [liveAfter_cons, if_neg (by simp [not_names_of_event he])]
      exact ih t
    | some e =>
      dsimp only
      rw [ih, connections_event he, ← liveAfter_append]
      rfl

theorem correction_event (t : Routers) (r : Record) :
    (t.event? r).bind Event.correction = mark? t.connections r := by
  unfold event? mark?
  cases r.text? Correction.hashField <;> rfl

/-- A row calls for a statement if it opens a connection while its router has none. -/
theorem corrections_apply (t : Routers) (rows : List Record) :
    corrections (t.apply rows).2 = marksFrom t.connections rows := by
  induction rows generalizing t with
  | nil => rfl
  | cons r rows ih =>
    rw [marksFrom_cons, ← correction_event]
    unfold apply
    cases he : t.event? r with
    | none =>
      have hsame : (fun hash => liveAfter hash (t.connections hash) [r]) = t.connections := by
        funext hash
        exact liveAfter_of_not_names (by simpa using not_names_of_event he hash) _
      rw [hsame]
      exact ih t
    | some e =>
      have hnext : (fun hash => liveAfter hash (t.connections hash) [r]) =
          (t.record e).connections := by
        funext hash
        exact (connections_event he hash).symm
      rw [hnext, ← ih]
      unfold corrections
      dsimp only
      rw [List.filterMap_cons, Option.bind_some]
      cases e.correction <;> rfl

/-! ## Refreshes -/

/-- The row of the store is about the router with this hash. -/
def isOf (hash : String) (row : Row) : Bool :=
  (row.lookup "hash_id").any fun h => normalize h = normalize hash

/-- The row of the store has its router up. -/
def isUp (row : Row) : Bool := row.lookup "state" = some "up"

/-- The rows of the store tell which of the routers that were seen are up. -/
structure Tells (rows : List Row) (history : List Record) : Prop where
  /-- Every router that was seen has a row. -/
  complete : ∀ r ∈ history, ∀ hash ∈ r.text? Correction.hashField,
    ∃ row ∈ rows, isOf hash row = true
  /-- A row has its router up exactly when this has a live connection. -/
  sound : ∀ row ∈ rows, ∀ hash ∈ row.lookup "hash_id", isUp row = true ↔ live history hash ≠ 0

instance (rows : List Row) (history : List Record) : Decidable (Tells rows history) :=
  decidable_of_iff
    ((∀ r ∈ history, ∀ hash ∈ r.text? Correction.hashField, ∃ row ∈ rows, isOf hash row = true) ∧
      ∀ row ∈ rows, ∀ hash ∈ row.lookup "hash_id", isUp row = true ↔ live history hash ≠ 0)
    ⟨fun h => ⟨h.1, h.2⟩, fun h => ⟨h.complete, h.sound⟩⟩

theorem names_congr {hash' : String} (h : normalize hash = normalize hash') :
    names hash = names hash' := by
  unfold names
  rw [h]

theorem live_congr {hash' : String} (h : normalize hash = normalize hash') :
    live history hash = live history hash' := by
  unfold live liveAfter
  rw [names_congr h]

theorem exists_names (h : live history hash ≠ 0) : ∃ r ∈ history, names hash r = true := by
  by_contra hnone
  push Not at hnone
  exact h (liveAfter_of_not_names (fun r hr => by simpa using hnone r hr) 0)

theorem Tells.exists_row {rs : List Row} (h : Tells rs history) (hlive : live history hash ≠ 0) :
    ∃ row ∈ rs, isOf hash row = true := by
  obtain ⟨r, hr, hname⟩ := exists_names hlive
  obtain ⟨h', hhash, hsame⟩ := (Option.any_eq_true _ _).1 hname
  obtain ⟨row, hrow, hof⟩ := h.complete r hr h' hhash
  refine ⟨row, hrow, ?_⟩
  unfold isOf at hof ⊢
  rwa [of_decide_eq_true hsame] at hof

/-- Where the store has no routers, none was seen. -/
theorem Tells.not_names (h : Tells [] history) (hash : String) :
    ∀ r ∈ history, names hash r = false := by
  intro r hr
  unfold names
  cases hhash : r.text? Correction.hashField with
  | none => rfl
  | some h' =>
    obtain ⟨row, hrow, -⟩ := h.complete r hr h' (Option.mem_def.2 hhash)
    exact absurd hrow (by simp)

/-- The count that a row of the store gives. -/
def countOf (row : Row) : Nat := if isUp row then 1 else 0

theorem refresh_of_ne_nil {rs : List Row} (h : rs ≠ []) (t : Routers) :
    t.refresh rs = { counts := .ofList (rs.filterMap fun row =>
      (row.lookup "hash_id").map fun hash => (normalize hash, countOf row)) } := by
  unfold refresh stored
  rw [if_neg (by simpa using h), List.map_filterMap]
  congr 2
  apply List.filterMap_congr
  intro row _
  unfold countOf isUp
  cases row.lookup "hash_id" with
  | none => rfl
  | some hash => cases row.lookup "state" <;> simp

/-- After a refresh that tells which routers are up, these have one connection each. -/
theorem connections_refresh {rs : List Row} (h : Tells rs history) (t : Routers)
    (hempty : rs = [] → t.connections hash = 0) :
    (t.refresh rs).connections hash = min (live history hash) 1 := by
  by_cases hrs : rs = []
  · have hlive : live history hash = 0 := by
      by_contra hne
      obtain ⟨row, hrow, -⟩ := h.exists_row hne
      exact absurd (hrs ▸ hrow) (by simp)
    rw [hlive, hrs]
    exact hempty hrs
  rw [refresh_of_ne_nil hrs]
  unfold connections
  rw [FirstSeen.get?_ofList]
  cases hlookup : List.lookup (normalize hash) (rs.filterMap fun row =>
      (row.lookup "hash_id").map fun hash => (normalize hash, countOf row)).reverse with
  | none =>
    have hlive : live history hash = 0 := by
      by_contra hne
      obtain ⟨row, hrow, hof⟩ := h.exists_row hne
      obtain ⟨h', hhash, hsame⟩ := (Option.any_eq_true _ _).1 hof
      refine absurd ((List.lookup_eq_none_iff.1 hlookup) (normalize h', countOf row) ?_) ?_
      · refine List.mem_reverse.2 (List.mem_filterMap.2 ⟨row, hrow, ?_⟩)
        rw [Option.mem_def.1 hhash]
        rfl
      · simp [of_decide_eq_true hsame]
    rw [hlive]
    rfl
  | some n =>
    obtain ⟨l, l', hsplit, -⟩ := List.lookup_eq_some_iff.1 hlookup
    have hmem : (normalize hash, n) ∈ rs.filterMap fun row =>
        (row.lookup "hash_id").map fun hash => (normalize hash, countOf row) := by
      rw [← List.mem_reverse, hsplit]
      simp
    obtain ⟨row, hrow, hpair⟩ := List.mem_filterMap.1 hmem
    obtain ⟨h', hhash, hsame⟩ := Option.map_eq_some_iff.1 hpair
    obtain ⟨hnorm, rfl⟩ := Prod.mk.inj hsame
    have hup := h.sound row hrow h' hhash
    rw [live_congr hnorm] at hup
    unfold countOf
    rw [Option.getD_some]
    split_ifs with hrowUp
    · have hpos := hup.1 hrowUp
      omega
    · have hzero : live history hash = 0 := by
        by_contra hne
        exact hrowUp (hup.2 hne)
      rw [hzero]
      rfl

/-! ## Statements that are called for -/

/-- The statements that rows call for by themselves: one for every row that opens a connection while
its router has none. -/
def calledFor (history rows : List Record) : List String :=
  rows.zipIdx.filterMap fun x => mark? (live (history ++ rows.take x.2)) x.1

theorem calledFor_eq (history rows : List Record) :
    calledFor history rows = marksFrom (live history) rows := by
  apply List.filterMap_congr
  intro x _
  exact mark?_congr fun hash _ => live_append history _ hash

section Starts

variable {start start' : String → Nat}

theorem mark?_sublist (h : ∀ hash, start hash ≤ start' hash) (r : Record) :
    (mark? start' r).toList.Sublist (mark? start r).toList := by
  unfold mark?
  cases r.text? Correction.hashField with
  | none => exact .refl _
  | some hash =>
    have hle := h hash
    simp only [Option.bind_some]
    split_ifs with hmore hless
    · exact .refl _
    · exact absurd ⟨hmore.1, by omega⟩ hless
    · exact List.nil_sublist _
    · exact .refl _

/-- Where there are more connections, fewer statements are called for. -/
theorem marksFrom_sublist (h : ∀ hash, start hash ≤ start' hash) (rows : List Record) :
    (marksFrom start' rows).Sublist (marksFrom start rows) := by
  induction rows generalizing start start' with
  | nil => exact .refl _
  | cons r rows ih =>
    rw [marksFrom_cons, marksFrom_cons]
    exact (mark?_sublist h r).append (ih fun hash => liveAfter_mono hash (h hash) [r])

/-- At each row that opens a connection of a router, this has none by either count or by neither. -/
def Agree (start start' : String → Nat) (rows : List Record) : Prop :=
  ∀ before r after hash, rows = before ++ r :: after →
    r.text? Correction.hashField = some hash → actionOf r = .opens →
    liveAfter hash (start hash) before = 0 → liveAfter hash (start' hash) before = 0

theorem mark?_eq_iff (h : ∀ hash, start hash ≤ start' hash) (r : Record) :
    mark? start' r = mark? start r ↔
      ∀ hash, r.text? Correction.hashField = some hash → actionOf r = .opens →
        start hash = 0 → start' hash = 0 := by
  unfold mark?
  cases r.text? Correction.hashField with
  | none => simp
  | some hash =>
    have hle := h hash
    simp only [Option.bind_some, Option.some.injEq, forall_eq']
    by_cases hopens : actionOf r = .opens
    · by_cases hzero : start hash = 0 <;> by_cases hzero' : start' hash = 0
      · simp [hopens, hzero, hzero']
      · simp [hopens, hzero, hzero']
      · exact absurd hle (by omega)
      · simp [hopens, hzero, hzero']
    · simp [hopens]

theorem agree_cons (r : Record) (rows : List Record) :
    Agree start start' (r :: rows) ↔
      (∀ hash, r.text? Correction.hashField = some hash → actionOf r = .opens →
        start hash = 0 → start' hash = 0) ∧
      Agree (fun hash => liveAfter hash (start hash) [r])
        (fun hash => liveAfter hash (start' hash) [r]) rows := by
  constructor
  · intro h
    refine ⟨fun hash => h [] r rows hash rfl, fun before r' after hash hrows hhash hopens => ?_⟩
    dsimp only
    rw [← liveAfter_append, ← liveAfter_append]
    exact h (r :: before) r' after hash (by rw [hrows]; rfl) hhash hopens
  · rintro ⟨hhead, htail⟩ before r' after hash hrows hhash hopens
    cases before with
    | nil =>
      obtain ⟨rfl, -⟩ := List.cons.inj hrows
      exact hhead hash hhash hopens
    | cons b before =>
      obtain ⟨rfl, hrest⟩ := List.cons.inj hrows
      have h := htail before r' after hash hrest hhash hopens
      dsimp only at h
      rwa [← liveAfter_append, ← liveAfter_append] at h

theorem marksFrom_eq_iff (h : ∀ hash, start hash ≤ start' hash) (rows : List Record) :
    marksFrom start' rows = marksFrom start rows ↔ Agree start start' rows := by
  induction rows generalizing start start' with
  | nil =>
    refine ⟨fun _ before r after hash hrows => absurd hrows (by simp), fun _ => rfl⟩
  | cons r rows ih =>
    have hnext : ∀ hash, liveAfter hash (start hash) [r] ≤ liveAfter hash (start' hash) [r] :=
      fun hash => liveAfter_mono hash (h hash) [r]
    rw [agree_cons, ← mark?_eq_iff h, ← ih hnext, marksFrom_cons, marksFrom_cons]
    constructor
    · intro heq
      have hlen := congrArg List.length heq
      rw [List.length_append, List.length_append] at hlen
      have hhead := (mark?_sublist h r).length_le
      have htail := (marksFrom_sublist hnext rows).length_le
      have hsame := (marksFrom_sublist hnext rows).eq_of_length (by omega)
      refine ⟨?_, hsame⟩
      rw [hsame] at heq
      have hmark := congrArg List.head? (List.append_cancel_right heq)
      rwa [Option.head?_toList, Option.head?_toList] at hmark
    · rintro ⟨hhead, htail⟩
      rw [hhead, htail]

end Starts

/-! ## Counts from one -/

/-- Of the connections of a router that is up, a refresh leaves one. -/
theorem liveAfter_min_eq_zero_iff :
    liveAfter hash (min n 1) before = 0 ↔
      liveAfter hash n before = 0 ∨ liveAfter hash 1 before = 0 := by
  constructor
  · intro h
    cases n with
    | zero => exact .inl h
    | succ n =>
      have hone : min (n + 1) 1 = 1 := by omega
      exact .inr (hone ▸ h)
  · rintro (h | h)
    · have hle := liveAfter_mono hash (Nat.min_le_left n 1) before
      omega
    · have hle := liveAfter_mono hash (Nat.min_le_right n 1) before
      omega

end BmpFeed.Routers
