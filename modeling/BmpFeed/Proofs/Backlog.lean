import BmpFeed.Backlog
import Mathlib.Tactic.SplitIfs

/-!
# What becomes of a request that is offered

Everything that a pass does with a request comes to one of three cases, which `Offered` tells with
what each of them changes. The counts of the pass say which it was.
-/

namespace BmpFeed.Backlog

/-- What a pass did with a request. -/
inductive Fate
  | delivered
  /-- Its writer refused it. -/
  | refused
  /-- Its writer had refused another one before. -/
  | held
  deriving DecidableEq, Repr

/-- What a pass did with the request between two places where it stood. -/
def Pass.fate (q q' : Pass) : Fate :=
  if q.delivered < q'.delivered then .delivered
  else if q.busy.length < q'.busy.length then .refused
  else .held

variable {q q' : Pass} {b b' : Backlog} {f f' : Fleet} {s : Fleet.Slot} {r : Request}
  {fate : Fate} {notes : List Note}

/-- What an offer can do. -/
inductive Offered (q : Pass) (b : Backlog) (f : Fleet) (s : Fleet.Slot) (r : Request) :
    Fate → Pass → Backlog → Fleet → List Note → Prop
  | held (hbusy : s ∈ q.busy) :
      Offered q b f s r .held { q with left := q.left - 1 }
        { b with items := b.items ++ [r] } f []
  | refused (hbusy : s ∉ q.busy) (hsend : f.send? s r = none) :
      Offered q b f s r .refused { q with left := q.left - 1, busy := s :: q.busy }
        { b with items := b.items ++ [r] } f []
  | delivered {f' : Fleet} {note : Note} (hbusy : s ∉ q.busy)
      (hsend : f.send? s r = some (f', note)) :
      Offered q b f s r .delivered { q with left := q.left - 1, delivered := q.delivered + 1 } b f'
        [note]

theorem offered (h : offer q b f s r = (q', b', f', notes)) :
    Offered q b f s r (q.fate q') q' b' f' notes := by
  unfold offer at h
  split_ifs at h with hbusy
  · obtain ⟨rfl, rfl, rfl, rfl⟩ := h
    simpa [Pass.fate] using Offered.held (b := b) (f := f) (r := r) hbusy
  · cases hsend : f.send? s r with
    | none =>
      rw [hsend] at h
      obtain ⟨rfl, rfl, rfl, rfl⟩ := h
      simpa [Pass.fate] using Offered.refused (b := b) hbusy hsend
    | some sent =>
      rw [hsend] at h
      obtain ⟨rfl, rfl, rfl, rfl⟩ := h
      simpa [Pass.fate] using Offered.delivered (b := b) hbusy hsend

namespace Offered

theorem left_eq (h : Offered q b f s r fate q' b' f' notes) : q'.left = q.left - 1 := by
  cases h <;> rfl

/-- The request goes to the writer at its place, if anywhere. -/
theorem fleet_eq (h : Offered q b f s r fate q' b' f' notes) :
    (f' = f ∧ notes = []) ∨ ∃ note, f.send? s r = some (f', note) ∧ notes = [note] := by
  cases h with
  | held | refused => exact .inl ⟨rfl, rfl⟩
  | delivered _ hsend => exact .inr ⟨_, hsend, rfl⟩

end Offered

/-- A pass either finds nothing, or routes the oldest request and offers it. -/
theorem passOn_cases (q : Pass) (b : Backlog) (f : Fleet) :
    (b.items = [] ∧ passOn q b f = ({ q with left := 0 }, b, f, [])) ∨
      ∃ r rest, b.items = r :: rest ∧
        Offered q { b with items := rest } (f.route r.category r.key).2
          (f.route r.category r.key).1 r (q.fate (passOn q b f).1) (passOn q b f).1
          (passOn q b f).2.1 (passOn q b f).2.2.1 (passOn q b f).2.2.2 := by
  unfold passOn
  cases hitems : b.items with
  | nil => exact .inl ⟨rfl, rfl⟩
  | cons r rest => exact .inr ⟨r, rest, rfl, offered rfl⟩

end BmpFeed.Backlog
