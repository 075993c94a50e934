import BmpFeed.Dispatch
import Mathlib.Tactic.SplitIfs

/-!
# What the step of each task of a dispatch does

`deed_of_step?` says once what a step can do, and on what condition. Everything else about the steps
of a dispatch follows by cases on the deed.
-/

namespace BmpFeed.Dispatch

/-- What the step of a task does. -/
inductive Deed (now : Nat) (d : Dispatch) (t : Store) : Task → Turn → Prop
  | chore {c : Fleet.Chore} {turn : Fleet.Chore.Turn} (h : c.step? now d.fleet t = some turn) :
      Deed now d t (.chore c) (d.ofChore turn)
  | push {r : Request} {backlog : Backlog} (h : d.backlog.push? r = some backlog) :
      Deed now d t (.push r) { dispatch := { d with backlog }, store := t }
  | full {r : Request} (h : d.backlog.push? r = none) :
      Deed now d t (.push r)
        { tasks := [.drain, .rest r], dispatch := d, store := t, pulse := true }
  | rest {r : Request} :
      Deed now d t (.rest r) { tasks := [.retry r (now + 1)], dispatch := d, store := t }
  | retry {r : Request} {due : Nat} (hdue : due ≤ now) :
      Deed now d t (.retry r due) { tasks := [.push r], dispatch := d, store := t }
  | drain : Deed now d t .drain { tasks := [.pass d.backlog.begin_], dispatch := d, store := t }
  | endPass {q : Backlog.Pass} (hleft : q.left = 0) :
      Deed now d t (.pass q) { dispatch := d, store := t }
  | passOn {q : Backlog.Pass} (hleft : q.left ≠ 0) :
      Deed now d t (.pass q)
        { tasks := [.pass (d.passStep q).1], dispatch := (d.passStep q).2.1, store := t
          notes := (d.passStep q).2.2 }

variable {now : Nat} {d : Dispatch} {t : Store} {task : Task} {turn : Turn}

theorem deed_of_step? (h : d.taskStep? now t task = some turn) : Deed now d t task turn := by
  unfold taskStep? at h
  cases task with
  | chore c =>
    obtain ⟨turn, hturn, rfl⟩ := Option.map_eq_some_iff.1 h
    exact .chore hturn
  | push r =>
    dsimp only at h
    cases hpush : d.backlog.push? r with
    | some backlog =>
      rw [hpush] at h
      obtain rfl := Option.some.inj h
      exact .push hpush
    | none =>
      rw [hpush] at h
      obtain rfl := Option.some.inj h
      exact .full hpush
  | rest r =>
    obtain rfl := Option.some.inj h
    exact .rest
  | retry r due =>
    dsimp only at h
    split_ifs at h with hdue
    obtain rfl := Option.some.inj h
    exact .retry hdue
  | drain =>
    obtain rfl := Option.some.inj h
    exact .drain
  | pass q =>
    dsimp only at h
    split_ifs at h with hleft
    · obtain rfl := Option.some.inj h
      exact .endPass hleft
    · obtain rfl := Option.some.inj h
      exact .passOn hleft

end BmpFeed.Dispatch
