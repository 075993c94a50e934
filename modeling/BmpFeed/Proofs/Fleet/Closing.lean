import BmpFeed.Proofs.Fleet.Crews
import BmpFeed.Proofs.Fleet.Staff

/-!
# How a fleet ends

Once a fleet is dismissed nobody is hired any more, and its chores take every writer out of its
crew, close the queue, and wait until the writer has left. So when the chores are done there are no
writers, and each of those that were hired left in good order unless it died.
-/

namespace BmpFeed.Fleet

variable {p : Policy} {es es' : List Event} {now now' : Nat} {f f' : Fleet} {c : Category}
  {chore : Chore} {chores chores' : List Chore}

/-- Chores of the end of a fleet. -/
def Chore.ends : Chore → Bool
  | .reset _ _ | .drain _ _ _ _ | .resetAll _ | .close _ | .join _ | .dismiss _ => true
  | _ => false

/-- A fleet that was dismissed: the crews that are left are to be dismissed. -/
structure Ending (f : Fleet) (chores : List Chore) : Prop where
  ends : ∀ chore ∈ chores, chore.ends = true
  posts : ∀ c, .dismiss c ∈ chores ∨ f.posts c = []

theorem Chore.Move.ends (m : Chore.Move now f chore es' chores' f') (h : chore.ends = true) :
    ∀ chore' ∈ chores', chore'.ends = true := by
  cases m with
  | idle | reset | wait | clear | close | join => simp [Chore.ends]
  | resetAll => simp [Chore.ends]
  | dismiss ha =>
    intro chore' hmem
    obtain ⟨w, -, hmem⟩ := List.mem_flatMap.1 hmem
    simp only [List.mem_cons, List.not_mem_nil, or_false] at hmem
    rcases hmem with rfl | rfl <;> rfl
  | _ => simp [Chore.ends] at h

namespace Ending

theorem shutdown (f : Fleet) : Ending f shutdownChores :=
  ⟨by decide, fun c => .inl (by cases c <;> decide)⟩

theorem replace (h : Ending f chores) (w : Writer) : Ending (f.replace w) chores :=
  ⟨h.ends, fun c => (h.posts c).imp_right fun hnil => by
    unfold Fleet.replace
    rw [posts_mapWriters, hnil, List.map_nil]⟩

theorem chore_step (h : Ending f (chore :: chores)) (m : Chore.Move now f chore es' chores' f') :
    Ending f' (chores' ++ chores) := by
  have hend := h.ends chore List.mem_cons_self
  constructor
  · intro chore' hmem
    rcases List.mem_append.1 hmem with hmem | hmem
    · exact m.ends hend chore' hmem
    · exact h.ends chore' (List.mem_cons_of_mem _ hmem)
  · intro c
    rcases h.posts c with hmem | hnil
    · rcases List.mem_cons.1 hmem with rfl | hmem
      · cases m with
        | idle hidle => simp [Chore.mayIdle] at hidle
        | dismiss ha => exact .inr ha.posts_eq
      · exact .inl (List.mem_append_right _ hmem)
    · by_cases hdismiss : chore = .dismiss c
      · subst hdismiss
        cases m with
        | idle hidle => simp [Chore.mayIdle] at hidle
        | dismiss ha => exact .inr ha.posts_eq
      · have hlen := m.length_eq c (fun he => by simp [he, Chore.ends] at hend)
          (fun he => by simp [he, Chore.ends] at hend) hdismiss
        rw [hnil, List.length_nil] at hlen
        exact .inr (List.eq_nil_of_length_eq_zero hlen)

end Ending

namespace Run

theorem ending (h : Run p es now f chores) (hd : .dismissed ∈ es) : Ending f chores := by
  induction h with
  | start => simp at hd
  | wait _ _ ih => exact ih hd
  | write _ _ _ ih =>
    refine (ih ((List.mem_append.1 hd).resolve_right ?_)).replace _
    simp
  | route _ _ _ hopen _ _ => exact absurd ((List.mem_append.1 hd).resolve_right (by simp)) hopen
  | send _ hopen _ _ _ => exact absurd ((List.mem_append.1 hd).resolve_right (by simp)) hopen
  | check _ hopen _ => exact absurd hd hopen
  | dismiss => exact .shutdown _
  | chore _ hstep ih =>
    have hmove := Chore.move_of_step? hstep
    exact (ih ((List.mem_append.1 hd).resolve_right (hmove.not_mem rfl))).chore_step hmove

/-- No writer is left when the end is over. -/
theorem writers_eq_nil (h : Run p es now f []) (hd : .dismissed ∈ es) : f.writers = [] := by
  have hposts : ∀ c, f.posts c = [] := fun c => ((h.ending hd).posts c).resolve_left (by simp)
  have hleaving : f.leaving = [] :=
    List.eq_nil_iff_forall_not_mem.2 fun w hw => absurd (h.staff.joins w hw) (by simp)
  refine List.Perm.eq_nil ((f.writers_perm .general).trans ?_)
  rw [hposts, hposts, hleaving]
  exact .refl _

/-- A writer that has retired left in good order, unless it died. -/
theorem gone_of_retired (h : Run p es now f chores) {w : Writer} (hw : .retired w ∈ es)
    (hdied : .died ∉ of w.id es) :
    w.phase = .gone ∧ ∃ n, Writer.Run p.writer p.queueSize (of w.id es) n w := by
  obtain ⟨hclosed, -, -, n, hrun⟩ := h.staff.roster.retired w hw
  refine ⟨?_, n, hrun⟩
  cases hphase : w.phase with
  | working => simp [Writer.isClosed, hphase] at hclosed
  | gone => rfl
  | crashed => exact absurd (hrun.died_of_crashed hphase) hdied

/-- A writer that is no longer there has left in good order, unless it died. -/
theorem left_of_absent (h : Run p es now f chores) {id : Nat} (hdied : .died ∉ of id es)
    (hlt : id < f.nextId) (habsent : id ∉ f.writers.map Writer.id) :
    ∃ w n, .retired w ∈ es ∧ w.id = id ∧ Writer.Run p.writer p.queueSize (of id es) n w ∧
      w.phase = .gone := by
  rcases h.staff.roster.known id hlt with hmem | ⟨w, hw, rfl⟩ | ⟨c, hc⟩
  · exact absurd hmem habsent
  · obtain ⟨hgone, n, hrun⟩ := h.gone_of_retired hw hdied
    exact ⟨w, n, hw, rfl, hrun, hgone⟩
  · exact absurd (h.staff.replaced c id hc) hdied

/-- Every writer is or was in a run of its own. -/
theorem exists_run (h : Run p es now f chores) {id : Nat} (hdied : .died ∉ of id es) :
    of id es = [] ∨ ∃ n w, Writer.Run p.writer p.queueSize (of id es) n w :=
  h.staff.roster.exists_run fun c hc => hdied (h.staff.replaced c id hc)

end Run

end BmpFeed.Fleet
