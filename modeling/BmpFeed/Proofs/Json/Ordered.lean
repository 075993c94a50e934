import BmpFeed.Json.Reader
import Mathlib.Data.List.Basic
import Mathlib.Data.List.Perm.Basic
import Mathlib.Tactic.Common

/-!
# Fields in the order of their names

The fields of an object stand in the order of their names, each name once, so an object is known by
what is found under each name (`Fields.eq_of_get?_eq`). All objects that the reader makes are of
this kind (`ordered_of_parse?`).
-/

namespace BmpFeed.Json

namespace Fields

variable {fields fields' : Fields} {name : String} {value : Json}

/-- The names rise strictly. -/
def Ordered (fields : Fields) : Prop := fields.Pairwise fun f g => f.1 < g.1

/-- What is found under each name after a field was set. -/
theorem get?_put (name : String) (value : Json) (fields : Fields) (x : String) :
    get? (put name value fields) x = if x = name then some value else get? fields x := by
  induction fields with
  | nil => by_cases h : x = name <;> simp [put, get?, List.lookup_cons, h, beq_eq_false_iff_ne.2]
  | cons f rest ih =>
    obtain ⟨n, v⟩ := f
    unfold get? at ih ⊢
    by_cases hx : x = name
    · subst hx
      rw [if_pos rfl] at ih ⊢
      unfold put
      split_ifs with hsame
      · simp
      · simp
      · rw [List.lookup_cons, beq_eq_false_iff_ne.2 hsame, ih]
    · have hne : (x == name) = false := beq_eq_false_iff_ne.2 hx
      rw [if_neg hx] at ih ⊢
      unfold put
      split_ifs with hsame
      · rw [← hsame, List.lookup_cons, List.lookup_cons, hne]
      · rw [List.lookup_cons, hne]
      · rw [List.lookup_cons, List.lookup_cons, ih]

theorem mem_put {f : String × Json} (h : f ∈ put name value fields) :
    f = (name, value) ∨ f ∈ fields := by
  induction fields with
  | nil => exact .inl (List.mem_singleton.1 h)
  | cons g rest ih =>
    obtain ⟨n, v⟩ := g
    unfold put at h
    split_ifs at h
    · exact (List.mem_cons.1 h).imp_right (List.mem_cons_of_mem _)
    · exact List.mem_cons.1 h
    · rcases List.mem_cons.1 h with rfl | h
      · exact .inr List.mem_cons_self
      · exact (ih h).imp_right (List.mem_cons_of_mem _)

namespace Ordered

theorem put (h : fields.Ordered) (name : String) (value : Json) :
    (Fields.put name value fields).Ordered := by
  induction fields with
  | nil => exact List.pairwise_singleton _ _
  | cons f rest ih =>
    obtain ⟨n, v⟩ := f
    obtain ⟨hfirst, hrest⟩ := List.pairwise_cons.1 h
    unfold Fields.put
    split_ifs with hsame hlt
    · subst hsame
      exact List.pairwise_cons.2 ⟨hfirst, hrest⟩
    · refine List.pairwise_cons.2 ⟨fun g hg => ?_, h⟩
      rcases List.mem_cons.1 hg with rfl | hg
      · exact hlt
      · exact String.lt_trans hlt (hfirst g hg)
    · have hgt : n < name := by
        by_contra hge
        exact hsame (String.le_antisymm (String.not_lt.1 hge) (String.not_lt.1 hlt))
      refine List.pairwise_cons.2 ⟨fun g hg => ?_, ih hrest⟩
      rcases mem_put hg with rfl | hg
      · exact hgt
      · exact hfirst g hg

theorem filter (h : fields.Ordered) (p : String × Json → Bool) :
    Ordered (List.filter p fields) :=
  List.Pairwise.filter p h

theorem mem_iff (h : fields.Ordered) : (name, value) ∈ fields ↔ get? fields name = some value := by
  unfold get?
  rw [List.lookup_eq_some_iff]
  constructor
  · intro hmem
    obtain ⟨before, after, rfl⟩ := List.append_of_mem hmem
    refine ⟨before, after, rfl, fun f hf => ?_⟩
    have hlt : f.1 < name := (List.pairwise_append.1 h).2.2 f hf _ List.mem_cons_self
    refine bne_iff_ne.2 ?_
    rintro rfl
    exact String.lt_irrefl _ hlt
  · rintro ⟨before, after, rfl, -⟩
    exact List.mem_append_right _ List.mem_cons_self

theorem get?_filter (h : fields.Ordered) (p : String × Json → Bool) (name : String) :
    get? (List.filter p fields) name = (get? fields name).filter fun v => p (name, v) := by
  ext value
  rw [← (h.filter p).mem_iff, List.mem_filter, Option.filter_eq_some_iff, h.mem_iff]

theorem nodup (h : fields.Ordered) : fields.Nodup := by
  refine List.Pairwise.imp (fun {f g} hlt => ?_) h
  rintro rfl
  exact String.lt_irrefl _ hlt

end Ordered

/-- Fields are known by what is found under each name. -/
theorem eq_of_get?_eq (h : fields.Ordered) (h' : fields'.Ordered)
    (hsame : ∀ name, get? fields name = get? fields' name) : fields = fields' := by
  have hperm : fields.Perm fields' := by
    refine (List.perm_ext_iff_of_nodup h.nodup h'.nodup).2 fun f => ?_
    rw [h.mem_iff, h'.mem_iff, hsame]
  refine hperm.eq_of_pairwise (fun f g _ _ hlt hgt => ?_) h h'
  exact absurd (String.lt_trans hlt hgt) (String.lt_irrefl _)

end Fields

/-- The objects inside the value have their fields in order. -/
inductive Ordered : Json → Prop
  | null : Ordered .null
  | bool (b : Bool) : Ordered (.bool b)
  | number (n : Number) : Ordered (.number n)
  | text (s : String) : Ordered (.text s)
  | array {items : List Json} : (∀ v ∈ items, Ordered v) → Ordered (.array items)
  | object {fields : Fields} : fields.Ordered → (∀ f ∈ fields, Ordered f.2) →
    Ordered (.object fields)

/-! ## Reading -/

/-- What is in the container is in order. -/
def Frame.Ordered : Frame → Prop
  | .items done => ∀ v ∈ done, v.Ordered
  | .fields done _ => done.Ordered ∧ ∀ f ∈ done, f.2.Ordered

namespace Reader

variable {r r' : Reader} {v : Json} {c : Char}

/-- All that was read is in order. -/
structure Ordered (r : Reader) : Prop where
  stack : ∀ f ∈ r.stack, f.Ordered
  word : ∀ rest v, r.scan = .word rest v → v.Ordered
  result : ∀ v ∈ r.result, v.Ordered

theorem Ordered.accept (h : r.Ordered) (hv : v.Ordered) : (r.accept v).Ordered := by
  have hword : ∀ rest v', Scan.between = .word rest v' → v'.Ordered := by
    intro _ _ heq
    contradiction
  unfold Reader.accept
  cases hstack : r.stack with
  | nil =>
    refine ⟨by simp, hword, fun v' hv' => ?_⟩
    obtain rfl := Option.some.inj hv'
    exact hv
  | cons f rest =>
    obtain ⟨hf, hrest⟩ := List.forall_mem_cons.1 (hstack ▸ h.stack)
    cases f with
    | items done =>
      exact ⟨List.forall_mem_cons.2 ⟨List.forall_mem_cons.2 ⟨hv, hf⟩, hrest⟩, hword, h.result⟩
    | fields done name =>
      refine ⟨List.forall_mem_cons.2 ⟨⟨hf.1.put name v, fun g hg => ?_⟩, hrest⟩, hword, h.result⟩
      rcases Fields.mem_put hg with rfl | hg
      · exact hv
      · exact hf.2 g hg

theorem Ordered.opening {f : Frame} {e : Expect} (h : r.Ordered) (hf : f.Ordered)
    (hr : r.opening f e = some r') : r'.Ordered := by
  obtain ⟨-, heq⟩ := Option.ite_none_right_eq_some.1 hr
  obtain rfl := Option.some.inj heq
  exact ⟨List.forall_mem_cons.2 ⟨hf, h.stack⟩, h.word, h.result⟩

theorem Ordered.close (h : r.Ordered) (hr : r.close c = some r') : r'.Ordered := by
  unfold Reader.close at hr
  cases hstack : r.stack with
  | nil =>
    rw [hstack] at hr
    contradiction
  | cons f rest =>
    obtain ⟨hf, hrest⟩ := List.forall_mem_cons.1 (hstack ▸ h.stack)
    have hpopped : Reader.Ordered { r with stack := rest } := ⟨hrest, h.word, h.result⟩
    rw [hstack] at hr
    cases f with
    | items done =>
      obtain ⟨-, heq⟩ := Option.ite_none_right_eq_some.1 hr
      obtain rfl := Option.some.inj heq
      exact hpopped.accept (.array fun v hv => hf v (List.mem_reverse.1 hv))
    | fields done name =>
      obtain ⟨-, heq⟩ := Option.ite_none_right_eq_some.1 hr
      obtain rfl := Option.some.inj heq
      exact hpopped.accept (.object hf.1 hf.2)

/-- A scan that holds no value. -/
theorem Ordered.scanning {s : Scan} (h : r.Ordered) (hs : ∀ rest v, s = .word rest v → v.Ordered) :
    Reader.Ordered { r with scan := s } :=
  ⟨h.stack, hs, h.result⟩

theorem Ordered.beginValue (h : r.Ordered) (hr : r.beginValue c = some r') : r'.Ordered := by
  have hword : ∀ (letters : List Char) (v : Json), v.Ordered →
      Reader.Ordered { r with scan := .word letters v } := by
    refine fun letters v hv => h.scanning fun rest v' heq => ?_
    obtain ⟨-, rfl⟩ := Scan.word.inj heq
    exact hv
  have hitems : Frame.Ordered (.items []) := fun v hv => absurd hv List.not_mem_nil
  have hfields : Frame.Ordered (.fields [] "") := ⟨.nil, fun f hf => absurd hf List.not_mem_nil⟩
  unfold Reader.beginValue at hr
  split_ifs at hr
  · exact h.opening hitems hr
  · exact h.opening hfields hr
  · obtain rfl := Option.some.inj hr
    exact h.scanning fun _ _ heq => by contradiction
  · obtain rfl := Option.some.inj hr
    exact hword _ _ .null
  · obtain rfl := Option.some.inj hr
    exact hword _ _ (.bool true)
  · obtain rfl := Option.some.inj hr
    exact hword _ _ (.bool false)
  · obtain rfl := Option.some.inj hr
    exact h.scanning fun _ _ heq => by contradiction
  · obtain ⟨n, -, rfl⟩ := Option.map_eq_some_iff.1 hr
    exact h.scanning fun _ _ heq => by contradiction

theorem Ordered.acceptText {s : String} (h : r.Ordered) (hr : r.acceptText s = some r') :
    r'.Ordered := by
  have hnamed : ∀ {done : Fields} {name : String} {rest : List Frame},
      r.stack = .fields done name :: rest →
      Reader.Ordered
        { r with stack := .fields done s :: rest, expect := .colon, scan := .between } := by
    intro done name rest hstack
    obtain ⟨hf, hrest⟩ := List.forall_mem_cons.1 (hstack ▸ h.stack)
    exact ⟨List.forall_mem_cons.2 ⟨hf, hrest⟩, fun _ _ heq => by contradiction, h.result⟩
  unfold Reader.acceptText at hr
  split at hr
  · obtain rfl := Option.some.inj hr
    exact hnamed ‹_›
  · obtain rfl := Option.some.inj hr
    exact hnamed ‹_›
  · obtain rfl := Option.some.inj hr
    exact h.accept (.text s)
  · obtain rfl := Option.some.inj hr
    exact h.accept (.text s)
  · contradiction

theorem Ordered.stepBetween (h : r.Ordered) (hr : r.stepBetween c = some r') : r'.Ordered := by
  have hexpect : ∀ e, Reader.Ordered { r with expect := e } := fun _ => ⟨h.stack, h.word, h.result⟩
  have htext : Reader.Ordered { r with scan := .text [] .none } :=
    h.scanning fun _ _ heq => by contradiction
  unfold Reader.stepBetween at hr
  by_cases hspace : isSpace c = true
  · rw [if_pos hspace] at hr
    obtain rfl := Option.some.inj hr
    exact h
  rw [if_neg hspace] at hr
  split at hr
  · exact h.beginValue hr
  · split_ifs at hr
    · exact h.close hr
    · exact h.beginValue hr
  · split_ifs at hr
    · obtain rfl := Option.some.inj hr
      exact htext
  · split_ifs at hr
    · exact h.close hr
    · obtain rfl := Option.some.inj hr
      exact htext
  · split_ifs at hr
    · obtain rfl := Option.some.inj hr
      exact hexpect _
  · split_ifs at hr
    · split at hr
      · obtain rfl := Option.some.inj hr
        exact hexpect _
      · obtain rfl := Option.some.inj hr
        exact hexpect _
      · contradiction
    · exact h.close hr

/-- After a code the scan is inside the text again. -/
theorem finishCode_eq {chars : List Char} {high : Option Nat} {n : Nat} {s : Scan}
    (h : finishCode chars high n = some s) : ∃ chars' e', s = .text chars' e' := by
  unfold finishCode at h
  split at h <;> split_ifs at h <;> exact ⟨_, _, (Option.some.inj h).symm⟩

/-- Inside a text the scan stays inside it. -/
theorem stepText_eq {chars : List Char} {e : EscapeScan} {s : Scan}
    (h : stepText chars e c = some s) : ∃ chars' e', s = .text chars' e' := by
  unfold stepText at h
  split at h
  · split_ifs at h <;> exact ⟨_, _, (Option.some.inj h).symm⟩
  · split_ifs at h
    exact ⟨_, _, (Option.some.inj h).symm⟩
  · split_ifs at h
    · exact ⟨_, _, (Option.some.inj h).symm⟩
    · split at h
      · contradiction
      · obtain ⟨d, -, rfl⟩ := Option.map_eq_some_iff.1 h
        exact ⟨_, _, rfl⟩
  · obtain ⟨d, -, h⟩ := Option.bind_eq_some_iff.1 h
    split_ifs at h
    · exact finishCode_eq h
    · exact ⟨_, _, (Option.some.inj h).symm⟩

theorem Ordered.text {chars : List Char} {e : EscapeScan} {s : Scan} (h : r.Ordered)
    (hs : stepText chars e c = some s) : Reader.Ordered { r with scan := s } := by
  obtain ⟨chars', e', rfl⟩ := stepText_eq hs
  exact h.scanning fun _ _ heq => by contradiction

theorem Ordered.step (h : r.Ordered) (hr : r.step c = some r') : r'.Ordered := by
  unfold Reader.step at hr
  split at hr
  · exact h.stepBetween hr
  · contradiction
  · rename_i x xs v hscan
    have hv : v.Ordered := h.word _ _ hscan
    split_ifs at hr
    split at hr
    · obtain rfl := Option.some.inj hr
      exact h.accept hv
    · obtain rfl := Option.some.inj hr
      refine h.scanning fun _ _ heq => ?_
      obtain ⟨-, rfl⟩ := Scan.word.inj heq
      exact hv
  · split at hr
    · obtain rfl := Option.some.inj hr
      exact h.scanning fun _ _ heq => by contradiction
    · obtain ⟨v, -, hr⟩ := Option.bind_eq_some_iff.1 hr
      exact (h.accept (.number v)).stepBetween hr
  · split_ifs at hr
    · exact h.acceptText hr
    · obtain ⟨s, hs, rfl⟩ := Option.map_eq_some_iff.1 hr
      exact h.text hs
  · obtain ⟨s, hs, rfl⟩ := Option.map_eq_some_iff.1 hr
    exact h.text hs

theorem Ordered.run {cs : List Char} (h : r.Ordered) (hr : cs.foldlM Reader.step r = some r') :
    r'.Ordered := by
  induction cs generalizing r with
  | nil =>
    obtain rfl := Option.some.inj hr
    exact h
  | cons c cs ih =>
    rw [List.foldlM_cons] at hr
    obtain ⟨next, hnext, hrest⟩ := Option.bind_eq_some_iff.1 hr
    exact ih (h.step hnext) hrest

theorem Ordered.finish (h : r.Ordered) (hr : r.finish = some v) : v.Ordered := by
  unfold Reader.finish at hr
  split at hr
  · exact h.result v hr
  · obtain ⟨n, -, hr⟩ := Option.bind_eq_some_iff.1 hr
    exact (h.accept (.number n)).result v hr
  · contradiction

end Reader

/-- What is read from a text has its fields in order. -/
theorem ordered_of_parse? {s : String} {v : Json} (h : parse? s = some v) : v.Ordered := by
  obtain ⟨r, hrun, hfinish⟩ := Option.bind_eq_some_iff.1 h
  have hstart : Reader.Ordered {} := ⟨by simp, fun _ _ heq => by contradiction, by simp⟩
  exact (hstart.run hrun).finish hfinish

end BmpFeed.Json
