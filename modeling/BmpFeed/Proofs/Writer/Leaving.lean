import BmpFeed.Proofs.Writer.Step

/-!
# How writers leave

A writer is ended by a statement, and then shows it, or it leaves because its queue was closed. So a
writer that nobody closed and that reads its queue no more has died.
-/

namespace BmpFeed.Writer

section Moves

variable {es : List Event} {now : Nat} {w w' : Writer} {t : Store}

theorem Move.crashed_of_died {es : List Event} {now : Nat} {w w' : Writer} {t : Store}
    (m : Move now w t es w') (hdied : .died ∈ es) : w'.phase = .crashed := by
  cases m with
  | die hd hs => rfl
  | @answer q rest ok hd hs => cases ok <;> simp at hdied
  | _ => simp at hdied

theorem Move.died_of_crashed (m : Move now w t es w') (hphase : w.phase = .working)
    (hcrashed : w'.phase = .crashed) : .died ∈ es := by
  cases m with
  | die => exact List.mem_singleton_self _
  | take hd hq =>
    rw [accept_phase] at hcrashed
    exact absurd (hphase.symm.trans hcrashed) (by simp)
  | leave => exact absurd hcrashed (by simp)
  | _ => exact absurd (hphase.symm.trans hcrashed) (by simp)

theorem Move.leaving_of_gone (m : Move now w t es w') (hphase : w.phase = .working)
    (hgone : w'.phase = .gone) : .leave ∈ w.duties := by
  cases m with
  | leave hd => rw [hd]; exact List.mem_cons_self
  | take hd hq =>
    rw [accept_phase] at hgone
    exact absurd (hphase.symm.trans hgone) (by simp)
  | die => exact absurd hgone (by simp)
  | _ => exact absurd (hphase.symm.trans hgone) (by simp)

theorem Move.closing_of_leaving (m : Move now w t es w') (hl : .leave ∈ w'.duties) :
    .leave ∈ w.duties ∨ w.closing = true := by
  cases m with
  | finish hd hq hc => exact .inr hc
  | take hd hq => exact absurd hl (no_leave_accept _ _)
  | review hd => 
    rw [hd]
    left
    split_ifs at hl <;> simpa using hl
  | start _ hd | skip hd _ | written hd => rw [hd]; exact .inl (by simpa using hl)
  | ask _ hd _ | progress _ hd _ _ _ _ _ | ran _ hd _ | answer hd _ =>
    rw [hd]; exact .inl (by simpa using hl)
  | write hd hb => rw [hd]; exact .inl (by simpa using hl)
  | expire | die | leave => exact absurd hl (by simp)

end Moves

namespace Run

variable {p : Policy} {capacity : Nat} {es : List Event} {now : Nat} {w : Writer}

/-- A writer that a statement ended stays so. -/
theorem crashed_of_died (h : Run p capacity es now w) (hdied : .died ∈ es) :
    w.phase = .crashed := by
  induction h with
  | hire => exact absurd hdied (by simp)
  | @step es now w t turn _ hstep ih =>
    rcases List.mem_append.1 hdied with hmem | hmem
    · exact absurd ((working_of_step? hstep).symm.trans (ih hmem)) (by simp)
    · have hmove := move_of_step? hstep
      generalize w.events t = ev at hmem hmove
      generalize turn.writer = w' at hmove ⊢
      exact hmove.crashed_of_died hmem
  | send _ _ hs ih =>
    rcases List.mem_append.1 hdied with hmem | hmem
    · exact absurd ((send?_spec hs).1.symm.trans (ih hmem)) (by simp)
    · exact absurd hmem (by simp)
  | shut _ ih => exact ih hdied
  | wait _ _ ih => exact ih hdied

theorem died_of_crashed (h : Run p capacity es now w) (hcrashed : w.phase = .crashed) :
    .died ∈ es := by
  induction h with
  | hire => exact absurd hcrashed (by simp [Writer.hire])
  | step _ hstep ih =>
    exact List.mem_append_right _
      ((move_of_step? hstep).died_of_crashed (working_of_step? hstep) hcrashed)
  | send _ _ hs ih =>
    obtain ⟨-, -, rfl⟩ := send?_spec hs
    exact List.mem_append_left _ (ih hcrashed)
  | shut _ ih => exact ih hcrashed
  | wait _ _ ih => exact ih hcrashed

/-- Only a writer whose queue was closed leaves. -/
theorem closing_of_leaving (h : Run p capacity es now w)
    (hl : .leave ∈ w.duties ∨ w.phase = .gone) : w.closing = true := by
  induction h with
  | hire => simp [Writer.hire] at hl
  | step _ hstep ih =>
    have hmove := move_of_step? hstep
    rw [hmove.frame.2]
    rcases hl with hl | hl
    · exact (hmove.closing_of_leaving hl).elim (fun hl => ih (.inl hl)) fun hc => hc
    · exact ih (.inl (hmove.leaving_of_gone (working_of_step? hstep) hl))
  | send _ _ hs ih =>
    obtain ⟨-, -, rfl⟩ := send?_spec hs
    exact ih hl
  | shut _ ih => rfl
  | wait _ _ ih => exact ih hl

/-- A writer that nobody closed and that reads its queue no more has died. -/
theorem died_of_closed (h : Run p capacity es now w) (hopen : w.closing = false)
    (hclosed : w.isClosed = true) : .died ∈ es := by
  cases hphase : w.phase with
  | working => simp [isClosed, hphase] at hclosed
  | gone => exact absurd (h.closing_of_leaving (.inr hphase)) (by simp [hopen])
  | crashed => exact h.died_of_crashed hphase

end Run

end BmpFeed.Writer
