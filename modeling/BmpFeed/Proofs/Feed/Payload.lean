import BmpFeed.Intake
import BmpFeed.Proofs.Json.Ordered

/-!
# The two shapes of a payload

Rows inside an object decode as the rows of a plain array: there each row holds its own members and
those scalar members of the object whose names it does not have (`Completes`). So nothing that is
done with a message can depend on the shape (`shapes_agree`).
-/

namespace BmpFeed.Record

open Json (Fields)

variable {outer : Fields} {rows : List Json} {row v : Json} {r : Record} {rs : List Record}

def IsObject (v : Json) : Prop := ∃ fields, v = .object fields

/-- What the object around the rows has for a row that lacks the name. -/
def added? (outer : Fields) (name : String) : Option Json :=
  if name = "rows" then none else (Fields.get? outer name).filter Json.isScalar

/-- The members of the object that rows take over. -/
def members (outer : Fields) : Fields := (Fields.erase outer "rows").filter fun f => f.2.isScalar

/-- A row inside the object and the same row of the plain array. -/
inductive Completes (outer : Fields) : Json → Json → Prop
  | object {fields fields' : Fields} : fields'.Ordered →
      (∀ name, Fields.get? fields' name = (Fields.get? fields name).or (added? outer name)) →
      Completes outer (.object fields) (.object fields')
  | other {row : Json} : ¬IsObject row → Completes outer row row

/-- The record of a row inside the object. -/
structure Holds (outer : Fields) (fields : Fields) (r : Record) : Prop where
  found : ∀ name, Fields.get? r name = (Fields.get? fields name).or (added? outer name)
  /-- An array or an object in the record is the row's own. -/
  nested : ∀ name v, Fields.get? r name = some v → v.isScalar = false →
    Fields.get? fields name = some v

/-! ## Members that are taken over -/

theorem get?_inherit (inherited : Fields) (r : Record) (name : String) :
    Fields.get? (inherit inherited r) name =
      (Fields.get? r name).or (Fields.get? inherited name) := by
  induction inherited generalizing r with
  | nil => exact Option.or_none.symm
  | cons f rest ih =>
    obtain ⟨n, v⟩ := f
    have hstep : inherit ((n, v) :: rest) r =
        inherit rest (if Fields.has r n then r else Fields.put n v r) := rfl
    have hcons : Fields.get? ((n, v) :: rest) name =
        if name = n then some v else Fields.get? rest name := by
      unfold Fields.get?
      rw [List.lookup_cons]
      by_cases h : name = n <;> simp [h, beq_eq_false_iff_ne.2]
    rw [hstep, ih, hcons]
    by_cases hhas : Fields.has r n = true
    · rw [if_pos hhas]
      by_cases hname : name = n
      · obtain ⟨own, hown⟩ := Option.isSome_iff_exists.1 hhas
        rw [hname, hown, Option.some_or, Option.some_or]
      · rw [if_neg hname]
    · rw [if_neg hhas, Fields.get?_put]
      by_cases hname : name = n
      · have hnone : Fields.get? r n = none := Option.not_isSome_iff_eq_none.1 hhas
        rw [if_pos hname, if_pos hname, hname, hnone, Option.some_or, Option.none_or]
      · rw [if_neg hname, if_neg hname]

theorem ordered_inherit (inherited : Fields) (h : Fields.Ordered r) :
    Fields.Ordered (inherit inherited r) := by
  induction inherited generalizing r with
  | nil => exact h
  | cons f rest ih =>
    have hhead : Fields.Ordered (if Fields.has r f.1 then r else Fields.put f.1 f.2 r) := by
      split_ifs
      · exact h
      · exact h.put f.1 f.2
    exact ih hhead

theorem get?_members (h : outer.Ordered) (name : String) :
    Fields.get? (members outer) name = added? outer name := by
  unfold members Fields.erase added?
  rw [(h.filter _).get?_filter, h.get?_filter]
  by_cases hrows : name = "rows"
  · simp [hrows]
  · simp [hrows]

theorem isScalar_of_added? {name : String} (h : added? outer name = some v) :
    v.isScalar = true := by
  unfold added? at h
  split_ifs at h
  exact (Option.filter_eq_some_iff.1 h).2

/-! ## Rows -/

/-- The row of the plain array. -/
def complete (outer : Fields) : Json → Json
  | .object fields => .object (inherit (members outer) fields)
  | v => v

theorem complete_of_not_isObject (h : ¬IsObject row) : complete outer row = row := by
  cases row with
  | object fields => exact absurd ⟨fields, rfl⟩ h
  | _ => rfl

theorem completes_iff (houter : outer.Ordered) (hrow : row.Ordered) :
    Completes outer row v ↔ v = complete outer row := by
  constructor
  · intro h
    cases h with
    | @object fields fields' hordered hfound =>
      cases hrow with
      | object hfields _ =>
        refine congrArg Json.object (Fields.eq_of_get?_eq hordered (ordered_inherit _ hfields) ?_)
        intro name
        rw [hfound, get?_inherit, get?_members houter]
    | other hother => exact (complete_of_not_isObject hother).symm
  · rintro rfl
    by_cases hobject : IsObject row
    · obtain ⟨fields, rfl⟩ := hobject
      cases hrow with
      | object hfields _ =>
        refine .object (ordered_inherit _ hfields) fun name => ?_
        rw [get?_inherit, get?_members houter]
    · rw [complete_of_not_isObject hobject]
      exact .other hobject

theorem forall₂_completes_iff {plain : List Json} (houter : outer.Ordered)
    (hrows : ∀ row ∈ rows, row.Ordered) :
    List.Forall₂ (Completes outer) rows plain ↔ plain = rows.map (complete outer) := by
  induction rows generalizing plain with
  | nil => simp
  | cons row rows ih =>
    obtain ⟨hrow, hrest⟩ := List.forall_mem_cons.1 hrows
    rw [List.forall₂_cons_left_iff, List.map_cons]
    simp only [completes_iff houter hrow, ih hrest]
    constructor
    · rintro ⟨_, _, rfl, rfl, rfl⟩
      rfl
    · rintro rfl
      exact ⟨_, _, rfl, rfl, rfl⟩

theorem ofRows_cons_object (f : Record → Record) (fields : Fields) (rows : List Json) :
    ofRows f (.object fields :: rows) = (ofRows f rows).map (f fields :: ·) := by
  have hstep : ofRows f (.object fields :: rows) =
      (ofRows f rows).bind fun rs => .ok (f fields :: rs) := rfl
  rw [hstep]
  cases ofRows f rows <;> rfl

theorem ofRows_cons_other (f : Record → Record) (h : ¬IsObject row) (rows : List Json) :
    ofRows f (row :: rows) = .error (.rowNotObject row) := by
  cases row with
  | object fields => exact absurd ⟨fields, rfl⟩ h
  | _ => rfl

/-- What rows take over may as well stand in them. -/
theorem ofRows_complete (outer : Fields) (rows : List Json) :
    ofRows id (rows.map (complete outer)) = ofRows (inherit (members outer)) rows := by
  induction rows with
  | nil => rfl
  | cons row rows ih =>
    rw [List.map_cons]
    by_cases hobject : IsObject row
    · obtain ⟨fields, rfl⟩ := hobject
      rw [complete, ofRows_cons_object, ofRows_cons_object, ih, id]
    · rw [complete_of_not_isObject hobject, ofRows_cons_other _ hobject,
        ofRows_cons_other _ hobject]

theorem ofRows_eq_ok {f : Record → Record} (h : ofRows f rows = .ok rs) :
    List.Forall₂ (fun row r => ∃ fields, row = .object fields ∧ r = f fields) rows rs := by
  induction rows generalizing rs with
  | nil =>
    obtain rfl := Except.ok.inj h
    exact .nil
  | cons row rows ih =>
    by_cases hobject : IsObject row
    · obtain ⟨fields, rfl⟩ := hobject
      rw [ofRows_cons_object] at h
      cases hrest : ofRows f rows with
      | error e =>
        rw [hrest] at h
        contradiction
      | ok rest =>
        rw [hrest] at h
        obtain rfl := Except.ok.inj h
        exact .cons ⟨fields, rfl, rfl⟩ (ih hrest)
    · rw [ofRows_cons_other f hobject] at h
      contradiction

theorem ofRows_eq_error_iff (f : Record → Record) (rows : List Json) :
    (∃ e, ofRows f rows = .error e) ↔ ∃ row ∈ rows, ¬IsObject row := by
  induction rows with
  | nil => simp [ofRows]
  | cons row rows ih =>
    by_cases hobject : IsObject row
    · have hhead : (∃ e, ofRows f (row :: rows) = .error e) ↔ ∃ e, ofRows f rows = .error e := by
        obtain ⟨fields, rfl⟩ := hobject
        rw [ofRows_cons_object]
        cases ofRows f rows <;> simp [Except.map]
      rw [hhead, ih]
      simp [hobject]
    · have herror := ofRows_cons_other f hobject rows
      exact ⟨fun _ => ⟨row, List.mem_cons_self, hobject⟩, fun _ => ⟨_, herror⟩⟩

/-! ## Payloads -/

/-- The payload is rejected as a whole if a row is no object, and only then. -/
def Rejects (payload : String) (rows : List Json) : Prop :=
  (∃ e, decode payload = .error e) ↔ ∃ row ∈ rows, ¬IsObject row

/-- What an object around rows and the plain array of these rows have in common. -/
structure Agrees (payload : String) (outer : Fields) (rows : List Json) : Prop where
  /-- The object has one plain array. -/
  plain : ∃! items, List.Forall₂ (Completes outer) rows items
  value : ∀ items, List.Forall₂ (Completes outer) rows items →
    decode payload = ofValue (.array items)
  decoded : ∀ items payload', List.Forall₂ (Completes outer) rows items →
    Json.parse? payload' = some (.array items) → decode payload' = decode payload
  /-- All that follows from a message is the same. -/
  handled : ∀ items payload', List.Forall₂ (Completes outer) rows items →
    Json.parse? payload' = some (.array items) → ∀ (i : Intake) (m : Feed.Message) rest t,
      i.handleStep { m with payload := payload' } rest t = i.handleStep { m with payload } rest t
  records : ∀ rs, decode payload = .ok rs →
    List.Forall₂ (fun row r => ∃ fields, row = .object fields ∧ Holds outer fields r) rows rs
  rejected : Rejects payload rows
  rejectedPlain : ∀ items payload', Json.parse? payload' = some (.array items) →
    Rejects payload' items

variable {payload payload' : String} {items : List Json}

theorem decode_of_parse? (h : Json.parse? payload = some v) : decode payload = ofValue v := by
  unfold decode
  rw [h]

theorem decode_object (h : Json.parse? payload = some (.object outer))
    (hrows : Fields.get? outer "rows" = some (.array rows)) :
    decode payload = ofRows (inherit (members outer)) rows := by
  rw [decode_of_parse? h]
  simp only [ofValue, hrows]
  rfl

theorem decode_array (h : Json.parse? payload = some (.array items)) :
    decode payload = ofRows id items :=
  decode_of_parse? h

theorem handleStep_congr (h : decode payload' = decode payload) (i : Intake) (m : Feed.Message)
    (rest : List Intake.Task) (t : Store) :
    i.handleStep { m with payload := payload' } rest t =
      i.handleStep { m with payload } rest t := by
  unfold Intake.handleStep
  rw [h]

theorem holds_inherit (h : outer.Ordered) (fields : Fields) :
    Holds outer fields (inherit (members outer) fields) := by
  have hfound := get?_inherit (members outer) fields
  simp only [get?_members h] at hfound
  refine ⟨hfound, fun name v hv hnested => ?_⟩
  rw [hfound, Option.or_eq_some_iff] at hv
  rcases hv with hown | ⟨-, hadded⟩
  · exact hown
  · rw [isScalar_of_added? hadded] at hnested
    contradiction

/-- An object around rows is decoded as the plain array of its completed rows. -/
theorem shapes_agree (h : Json.parse? payload = some (.object outer))
    (hrows : Fields.get? outer "rows" = some (.array rows)) : Agrees payload outer rows := by
  have hordered : (Json.object outer).Ordered := Json.ordered_of_parse? h
  cases hordered with
  | object houter hvalues =>
  have hitems : ∀ row ∈ rows, row.Ordered := by
    have harray := hvalues _ (houter.mem_iff.2 hrows)
    cases harray with
    | array hitems => exact hitems
  have hdecode := decode_object h hrows
  have hvalue : ∀ items, List.Forall₂ (Completes outer) rows items →
      decode payload = ofRows id items := by
    intro items hplain
    obtain rfl := (forall₂_completes_iff houter hitems).1 hplain
    rw [hdecode, ofRows_complete]
  have hsame : ∀ items payload', List.Forall₂ (Completes outer) rows items →
      Json.parse? payload' = some (.array items) → decode payload' = decode payload := by
    intro items payload' hplain hparse
    rw [decode_array hparse, hvalue items hplain]
  refine ⟨?_, hvalue, hsame, fun items payload' hplain hparse => ?_, fun rs hrs => ?_, ?_,
    fun items payload' hparse => ?_⟩
  · exact ⟨_, (forall₂_completes_iff houter hitems).2 rfl,
      fun items => (forall₂_completes_iff houter hitems).1⟩
  · exact handleStep_congr (hsame items payload' hplain hparse)
  · refine (ofRows_eq_ok (hdecode ▸ hrs)).imp fun row r hrow => ?_
    obtain ⟨fields, hfields, rfl⟩ := hrow
    exact ⟨fields, hfields, holds_inherit houter fields⟩
  · unfold Rejects
    rw [hdecode, ofRows_eq_error_iff]
  · unfold Rejects
    rw [decode_array hparse, ofRows_eq_error_iff]

/-- An object around rows. -/
def isWrapped : Json → Bool
  | .object outer =>
    match Fields.get? outer "rows" with
    | some (.array _) => true
    | _ => false
  | _ => false

theorem exists_of_isWrapped (h : isWrapped v = true) :
    ∃ outer rows, v = .object outer ∧ Fields.get? outer "rows" = some (.array rows) := by
  unfold isWrapped at h
  split at h
  · split at h
    · exact ⟨_, _, rfl, ‹_›⟩
    · contradiction
  · contradiction

def samplePayload : String :=
  "\x7b\"collector\":\"c\",\"tags\":[1]," ++
    "\"rows\":[\x7b\"hash\":\"a\"\x7d,\x7b\"collector\":null\x7d]\x7d"

/-- The first row takes the collector over, the second one has its own. -/
theorem shapes_agree_sample :
    ∃ outer rows, Json.parse? samplePayload = some (.object outer) ∧
      Fields.get? outer "rows" = some (.array rows) ∧ Agrees samplePayload outer rows ∧
      (decode samplePayload).toOption.map (fun rs => rs.map fun r => r.text? "collector") =
        some [some "c", none] := by
  have hwrapped : (Json.parse? samplePayload).any isWrapped = true := by decide +kernel
  obtain ⟨v, hv, hwrapped⟩ := (Option.any_eq_true ..).1 hwrapped
  obtain ⟨outer, rows, rfl, hrows⟩ := exists_of_isWrapped hwrapped
  exact ⟨outer, rows, hv, hrows, shapes_agree hv hrows, by decide +kernel⟩

end BmpFeed.Record
