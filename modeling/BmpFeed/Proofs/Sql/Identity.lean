import BmpFeed.Proofs.Writer.Plan
import BmpFeed.Sql.Mapping
import Mathlib.Algebra.GroupWithZero.Nat

/-!
# What an identity tells apart

The identity of a record is the texts of its identity columns with bars between them, and a text may
hold bars of its own. Records whose texts differ can therefore have one identity
(`distinct_records_collapse`), but then two of the columns differ in how many bars they hold
(`eq_of_join_eq`). `Mapping.compression` says what this comes to for the fragments that some records
leave, in a request and in the batch of a writer.
-/

namespace BmpFeed.Sql

/-! ## Texts joined by bars -/

/-- How many bars a text holds. -/
def bars (s : String) : Nat := s.toList.count '|'

/-- The text in a column, or the empty text where there is no such column. -/
def textAt (texts : List String) (column : Nat) : String := texts.getD column ""

theorem length_le_of_append_eq {a b r r' : List Char} (h : a ++ r = b ++ r')
    (hr : r = [] ∨ ∃ l, r = '|' :: l) (hcount : b.count '|' ≤ a.count '|') :
    b.length ≤ a.length := by
  rcases List.append_eq_append_iff.1 h with ⟨c, rfl, hc⟩ | ⟨c, rfl, -⟩
  · cases c with
    | nil => simp
    | cons x c =>
      -- what is left over of the longer text would begin with a bar
      obtain rfl : x = '|' := by
        rcases hr with hr | ⟨l, hr⟩
        · rw [hr] at hc
          exact absurd hc (by simp)
        · rw [hr] at hc
          exact (List.cons.inj hc).1.symm
      rw [List.count_append, List.count_cons_self] at hcount
      omega
  · simp

/-- The first text ends where its bars are used up. -/
theorem eq_of_append_eq {a b r r' : List Char} (h : a ++ r = b ++ r')
    (hr : r = [] ∨ ∃ l, r = '|' :: l) (hr' : r' = [] ∨ ∃ l, r' = '|' :: l)
    (hcount : a.count '|' = b.count '|') : a = b ∧ r = r' := by
  have hlen : a.length = b.length :=
    Nat.le_antisymm (length_le_of_append_eq h.symm hr' (Nat.le_of_eq hcount))
      (length_le_of_append_eq h hr (Nat.le_of_eq hcount.symm))
  exact List.append_inj h hlen

theorem toList_join_cons (a : String) (l : List String) :
    ("|".intercalate (a :: l)).toList = a.toList ++
      if l = [] then [] else '|' :: ("|".intercalate l).toList := by
  cases l with
  | nil => simp
  | cons b l => simp [String.toList_intercalate]

/-- Texts that hold as many bars in each column can be told from their joins. -/
theorem eq_of_bars_eq {l l' : List String} (hlen : l.length = l'.length)
    (hbars : ∀ j, bars (textAt l j) = bars (textAt l' j))
    (hjoin : "|".intercalate l = "|".intercalate l') : l = l' := by
  induction l generalizing l' with
  | nil => exact (List.eq_nil_of_length_eq_zero hlen.symm).symm
  | cons a l ih =>
    cases l' with
    | nil => exact absurd hlen (by simp)
    | cons b l' =>
      have hlen' : l.length = l'.length := by simpa using hlen
      have hsame : l = [] ↔ l' = [] := by
        rw [← List.length_eq_zero_iff, hlen', List.length_eq_zero_iff]
      have hchars := congrArg String.toList hjoin
      rw [toList_join_cons, toList_join_cons] at hchars
      have hrest : ∀ l : List String,
          (if l = [] then [] else '|' :: ("|".intercalate l).toList) = [] ∨
            ∃ cs, (if l = [] then [] else '|' :: ("|".intercalate l).toList) = '|' :: cs := by
        intro l
        split_ifs
        · exact .inl rfl
        · exact .inr ⟨_, rfl⟩
      obtain ⟨hhead, htail⟩ := eq_of_append_eq hchars (hrest l) (hrest l') (hbars 0)
      obtain rfl := String.toList_injective hhead
      refine congrArg _ (ih hlen' (fun j => hbars (j + 1)) ?_)
      by_cases hl : l = []
      · rw [hl, hsame.1 hl]
      · rw [if_neg hl, if_neg (mt hsame.2 hl)] at htail
        exact String.toList_injective (List.cons.inj htail).2

theorem bars_join (l : List String) :
    bars ("|".intercalate l) = (l.map bars).sum + (l.length - 1) := by
  induction l with
  | nil => rfl
  | cons a l ih =>
    unfold bars at *
    rw [toList_join_cons, List.count_append]
    cases l with
    | nil => simp
    | cons b l =>
      rw [if_neg (by simp), List.count_cons_self, ih]
      simp only [List.map_cons, List.sum_cons, List.length_cons]
      omega

/-- Where the sums agree and all summands but one, this one agrees as well. -/
theorem bars_eq_of_sum_eq {l l' : List String} {k : Nat} (hlen : l.length = l'.length)
    (hsum : (l.map bars).sum = (l'.map bars).sum)
    (hothers : ∀ j, j ≠ k → bars (textAt l j) = bars (textAt l' j)) :
    bars (textAt l k) = bars (textAt l' k) := by
  induction l generalizing l' k with
  | nil =>
    obtain rfl := List.eq_nil_of_length_eq_zero hlen.symm
    rfl
  | cons a l ih =>
    cases l' with
    | nil => exact absurd hlen (by simp)
    | cons b l' =>
      have hlen' : l.length = l'.length := by simpa using hlen
      simp only [List.map_cons, List.sum_cons] at hsum
      cases k with
      | zero =>
        have htails : l.map bars = l'.map bars := by
          refine List.ext_getElem (by simpa using hlen') fun j hj hj' => ?_
          have h := hothers (j + 1) (by simp)
          simp only [List.length_map] at hj hj'
          simpa [textAt, List.getElem?_eq_getElem hj, List.getElem?_eq_getElem hj'] using h
        rw [htails] at hsum
        exact Nat.add_right_cancel hsum
      | succ k =>
        have hhead : bars a = bars b := hothers 0 (by simp)
        refine ih hlen' ?_ fun j hj => hothers (j + 1) (by simpa using hj)
        omega

/-- Joins tell texts apart that hold as many bars in each column but one. -/
theorem eq_of_join_eq {l l' : List String} {k : Nat} (hlen : l.length = l'.length)
    (hothers : ∀ j, j ≠ k → bars (textAt l j) = bars (textAt l' j))
    (hjoin : "|".intercalate l = "|".intercalate l') : l = l' := by
  have hsum : (l.map bars).sum = (l'.map bars).sum := by
    have h := congrArg bars hjoin
    rw [bars_join, bars_join, hlen] at h
    exact Nat.add_right_cancel h
  refine eq_of_bars_eq hlen (fun j => ?_) hjoin
  by_cases hj : j = k
  · exact hj ▸ bars_eq_of_sum_eq hlen hsum hothers
  · exact hothers j hj

/-! ## The identities of records -/

namespace Mapping

variable {m : Mapping} {r r' : Record} {rows : List Record}

/-- The texts of a record's identity columns. A field that is missing or null has the empty text. -/
def identityTexts (m : Mapping) (r : Record) : List String :=
  m.identity.map fun name => (r.text? name).getD ""

/-- The two records leave one value fragment. -/
def Collapse (m : Mapping) (r r' : Record) : Prop := (m.values [r, r']).size = 1

/-- At most one of the identity columns ever holds a bar. -/
def BarsInOne (m : Mapping) (rows : List Record) : Prop :=
  ∃ k, ∀ r ∈ rows, ∀ j, j ≠ k → bars (textAt (m.identityTexts r) j) = 0

theorem length_identityTexts (m : Mapping) (r : Record) :
    (m.identityTexts r).length = m.identity.length := List.length_map _

theorem identityOf_eq (h : m.identity ≠ []) (r : Record) :
    m.identityOf r = "|".intercalate (m.identityTexts r) := by
  unfold identityOf
  rw [if_neg (by simpa using h)]
  rfl

theorem identityTexts_eq {k : Nat} (h : m.identity ≠ []) (hid : m.identityOf r = m.identityOf r')
    (hothers : ∀ j, j ≠ k →
      bars (textAt (m.identityTexts r) j) = bars (textAt (m.identityTexts r') j)) :
    m.identityTexts r = m.identityTexts r' := by
  rw [identityOf_eq h, identityOf_eq h] at hid
  exact eq_of_join_eq (by rw [length_identityTexts, length_identityTexts]) hothers hid

theorem BarsInOne.identityTexts_eq (hbars : m.BarsInOne rows) (h : m.identity ≠ [])
    (hr : r ∈ rows) (hr' : r' ∈ rows) (hid : m.identityOf r = m.identityOf r') :
    m.identityTexts r = m.identityTexts r' := by
  obtain ⟨k, hk⟩ := hbars
  exact Mapping.identityTexts_eq h hid fun j hj => (hk r hr j hj).trans (hk r' hr' j hj).symm

theorem barsInOne_of_single (h : m.identity.length = 1) (rows : List Record) :
    m.BarsInOne rows := by
  refine ⟨0, fun r _ j hj => ?_⟩
  have hend : (m.identityTexts r).length ≤ j := by
    rw [length_identityTexts, h]
    omega
  simp [textAt, List.getElem?_eq_none hend, bars]

theorem size_values (m : Mapping) (rows : List Record) :
    (m.values rows).size = (distinct (rows.map m.identityOf)).length := by
  unfold values
  rw [FirstSeen.size_ofList, List.map_map]
  rfl

theorem collapse_iff : m.Collapse r r' ↔ m.identityOf r = m.identityOf r' := by
  unfold Collapse
  rw [size_values]
  have hpair : [r, r'].map m.identityOf = [m.identityOf r] ++ [m.identityOf r'] := rfl
  rw [hpair]
  by_cases h : m.identityOf r = m.identityOf r'
  · rw [h, distinct_snoc_of_mem (List.mem_singleton_self _)]
    exact ⟨fun _ => rfl, fun _ => rfl⟩
  · rw [distinct_snoc_of_not_mem fun hmem => h (List.mem_singleton.1 hmem).symm]
    exact ⟨fun hlen => absurd hlen (by simp [distinct, List.eraseDups_cons]), fun he => absurd he h⟩

/-! ## Batches -/

/-- The statement, without its values, that the records of a mapping are written by. -/
def template (m : Mapping) : String × String := (m.statementOpening, m.closing)

/-- The requests of a mapping for the rows of some messages, each with its key. -/
def requests (m : Mapping) (messages : List (String × List Record)) : List Request :=
  messages.map fun x => m.request x.1 x.2

theorem ofList_requests (m : Mapping) (messages : List (String × List Record)) :
    FirstSeen.ofList ((m.requests messages).flatMap fun r => r.values.entries) =
      m.values (messages.flatMap Prod.snd) := by
  unfold values
  induction messages using List.reverseRecOn with
  | nil => rfl
  | append_singleton messages x ih =>
    have hentries : (m.requests (messages ++ [x])).flatMap (fun r => r.values.entries) =
        (m.requests messages).flatMap (fun r => r.values.entries) ++ (m.values x.2).entries := by
      simp [requests, request]
    have hrows : (messages ++ [x]).flatMap Prod.snd = messages.flatMap Prod.snd ++ x.2 := by simp
    rw [hentries, hrows, List.map_append, ← FirstSeen.putAll_ofList, ih, FirstSeen.putAll_ofList]
    exact FirstSeen.ofList_append_entries _ _

/-- Under the statement of a mapping a batch keeps of several messages what one request for all
their rows would carry. -/
theorem fragments_ofRequests {messages : List (String × List Record)} {seg : List Request}
    (hseg : seg.filter (fun r => r.template = m.template) = m.requests messages) :
    (Writer.Batch.ofRequests seg).fragments m.template = m.values (messages.flatMap Prod.snd) := by
  rw [Writer.Batch.fragments_ofRequests, ← ofList_requests, ← hseg]
  rfl

/-! ## Compression -/

/-- Which of some records share a fragment. -/
structure Compression (m : Mapping) (rows : List Record) : Prop where
  /-- Two records share one exactly when the texts of their identity columns have one join. -/
  collapse_iff : ∀ r r', m.Collapse r r' ↔
    "|".intercalate (m.identityTexts r) = "|".intercalate (m.identityTexts r')
  /-- There is one fragment for each join. -/
  size_eq : (m.values rows).size =
    (distinct (rows.map fun r => "|".intercalate (m.identityTexts r))).length
  /-- A batch into which requests for several messages were merged, and whatever else, holds the
  fragments of all their rows. -/
  batch : ∀ (messages : List (String × List Record)) (seg : List Request),
    seg.filter (fun r => r.template = m.template) = m.requests messages →
      (Writer.Batch.ofRequests seg).fragments m.template = m.values (messages.flatMap Prod.snd)
  /-- Records that share a fragment though their texts differ hold different numbers of bars in two
  of the columns. -/
  differ : ∀ r r', m.Collapse r r' → m.identityTexts r ≠ m.identityTexts r' →
    ∃ j k, j ≠ k ∧
      bars (textAt (m.identityTexts r) j) ≠ bars (textAt (m.identityTexts r') j) ∧
      bars (textAt (m.identityTexts r) k) ≠ bars (textAt (m.identityTexts r') k)
  /-- Where bars are in one column at most, records share a fragment only if their texts agree
  column by column. -/
  agree : m.BarsInOne rows → ∀ r ∈ rows, ∀ r' ∈ rows, m.Collapse r r' →
    m.identityTexts r = m.identityTexts r'
  /-- And then there is one fragment for each tuple of texts. -/
  exact : m.BarsInOne rows →
    (m.values rows).size = (distinct (rows.map m.identityTexts)).length
  /-- So it is when there is one identity column. -/
  single : m.identity.length = 1 → m.BarsInOne rows

theorem exists_bars_ne (h : m.identity ≠ []) (hid : m.identityOf r = m.identityOf r')
    (hne : m.identityTexts r ≠ m.identityTexts r') :
    ∃ j k, j ≠ k ∧
      bars (textAt (m.identityTexts r) j) ≠ bars (textAt (m.identityTexts r') j) ∧
      bars (textAt (m.identityTexts r) k) ≠ bars (textAt (m.identityTexts r') k) := by
  by_contra hnone
  push Not at hnone
  obtain ⟨j, hj⟩ : ∃ j, bars (textAt (m.identityTexts r) j) ≠
      bars (textAt (m.identityTexts r') j) := by
    by_contra hall
    push Not at hall
    exact hne (identityTexts_eq (k := 0) h hid fun j _ => hall j)
  exact hne (identityTexts_eq h hid fun k hk => hnone j k hk.symm hj)

theorem BarsInOne.size_values (hbars : m.BarsInOne rows) (h : m.identity ≠ []) :
    (m.values rows).size = (distinct (rows.map m.identityTexts)).length := by
  have hinj : ∀ a ∈ rows.map m.identityTexts, ∀ b ∈ rows.map m.identityTexts,
      "|".intercalate a = "|".intercalate b → a = b := by
    intro a ha b hb hab
    obtain ⟨r, hr, rfl⟩ := List.mem_map.1 ha
    obtain ⟨r', hr', rfl⟩ := List.mem_map.1 hb
    refine hbars.identityTexts_eq h hr hr' ?_
    rw [identityOf_eq h, identityOf_eq h, hab]
  have hmap : rows.map m.identityOf =
      (rows.map m.identityTexts).map fun texts => "|".intercalate texts := by
    rw [List.map_map]
    exact List.map_congr_left fun r _ => identityOf_eq h r
  rw [Mapping.size_values, hmap, distinct_map hinj, List.length_map]

/-- What the fragments of some records tell apart. -/
theorem compression (h : m.identity ≠ []) (rows : List Record) : m.Compression rows where
  collapse_iff r r' := by rw [Mapping.collapse_iff, identityOf_eq h, identityOf_eq h]
  size_eq := by
    have hjoin : rows.map m.identityOf = rows.map fun r => "|".intercalate (m.identityTexts r) :=
      List.map_congr_left fun r _ => identityOf_eq h r
    rw [size_values, hjoin]
  batch _ _ hseg := fragments_ofRequests hseg
  differ _ _ hone hne := exists_bars_ne h (Mapping.collapse_iff.1 hone) hne
  agree hbars r hr r' hr' hone := hbars.identityTexts_eq h hr hr' (Mapping.collapse_iff.1 hone)
  exact hbars := hbars.size_values h
  single hsingle := barsInOne_of_single hsingle rows

/-- Records are told apart by two columns. -/
def pairMapping : Mapping :=
  { kind := .collector, table := "collectors", columns := ["admin_id", "name"]
    identity := ["admin_id", "name"] }

/-- A record with these two fields. -/
def pairRecord (admin name : String) : Record := [("admin_id", .text admin), ("name", .text name)]

/-- Of two records that agree in neither identity column, the later one takes the place of the
other. -/
theorem distinct_records_collapse :
    pairMapping.identity ≠ [] ∧
      pairMapping.identityTexts (pairRecord "a|b" "c") = ["a|b", "c"] ∧
      pairMapping.identityTexts (pairRecord "a" "b|c") = ["a", "b|c"] ∧
      pairMapping.Collapse (pairRecord "a|b" "c") (pairRecord "a" "b|c") ∧
      (pairMapping.values [pairRecord "a|b" "c", pairRecord "a" "b|c"]).entries =
        [("a|b|c", "('a','b|c')")] := by
  unfold Collapse
  decide +kernel

/-- Bars in one column only do no harm. -/
theorem compression_sample :
    pairMapping.identity ≠ [] ∧
      (pairMapping.values
        [pairRecord "a|b" "c", pairRecord "a" "c", pairRecord "a|b" "c"]).size = 2 ∧
      pairMapping.Compression
        [pairRecord "a|b" "c", pairRecord "a" "c", pairRecord "a|b" "c"] :=
  ⟨by decide, by decide +kernel, compression (by decide) _⟩

end Mapping

end BmpFeed.Sql
