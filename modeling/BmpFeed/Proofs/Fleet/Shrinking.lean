import BmpFeed.Proofs.Fleet.Log
import BmpFeed.Proofs.Writer.Handover

/-!
# How a crew loses a writer

A check that makes a crew shrink found all its queues below the low watermark and no change of its
size within the pause. Its last writer is drained, taken out of the crew, and waited for; by then it
has handed over every request that its queue ever took, and until then no key is routed.
-/

namespace BmpFeed.Fleet

variable {p : Policy} {es es' : List Event} {log log' : List Entry} {now now' : Nat}
  {f f' : Fleet} {t : Store} {c c' : Category} {chore : Chore} {chores chores' rest : List Chore}
  {kept : List Tally} {a : Tally} {id : Nat}

/-! ## The stages of a removal -/

theorem leaving_ids_mapWriters {g : Writer → Writer} (hid : ∀ w, (g w).id = w.id) :
    (f.mapWriters g).leaving.map Writer.id = f.leaving.map Writer.id := by
  unfold mapWriters
  rw [List.map_map]
  exact List.map_congr_left fun w _ => hid w

theorem leaving_ids_replace (w : Writer) :
    (f.replace w).leaving.map Writer.id = f.leaving.map Writer.id := by
  refine leaving_ids_mapWriters fun v => ?_
  split_ifs with he
  · exact he.symm
  · rfl

/-- How far the removal of the last writer of a crew has come: what is known of the writer, and the
chores that are left. -/
inductive Shrinking (c : Category) (kept : List Tally) (id : Nat) :
    List Event → Fleet → List Chore → Prop
  | shrink {es : List Event} {f : Fleet} {a : Tally}
      (h : (f.sheet c).tallies = kept ++ [a])
      (hid : a.id = id) (hkept : kept ≠ []) : Shrinking c kept id es f [.shrink c]
  | reset {es : List Event} {f : Fleet} {a : Tally}
      (h : (f.sheet c).tallies = kept ++ [a])
      (hid : a.id = id) : Shrinking c kept id es f [.reset c kept.length, .release c]
  | drain {es : List Event} {f : Fleet} {a : Tally} (steps due : Nat)
      (h : (f.sheet c).tallies = kept ++ [a]) (hid : a.id = id) :
      Shrinking c kept id es f [.drain c kept.length steps due, .release c]
  | release {es : List Event} {f : Fleet} {a : Tally}
      (h : (f.sheet c).tallies = kept ++ [a])
      (hid : a.id = id) : Shrinking c kept id es f [.release c]
  | close {es : List Event} {f : Fleet} (h : (f.sheet c).tallies = kept)
      (hid : id ∈ f.leaving.map Writer.id) :
      Shrinking c kept id es f [.close id, .join id, .removed c]
  | join {es : List Event} {f : Fleet} (h : (f.sheet c).tallies = kept)
      (hid : id ∈ f.leaving.map Writer.id) : Shrinking c kept id es f [.join id, .removed c]
  | removed {es : List Event} {f : Fleet} {w : Writer} (h : (f.sheet c).tallies = kept)
      (hw : .retired w ∈ es) (hid : w.id = id) : Shrinking c kept id es f [.removed c]
  | done {es : List Event} {f : Fleet} {w : Writer} (h : (f.sheet c).tallies = kept)
      (hw : .retired w ∈ es) (hid : w.id = id) : Shrinking c kept id es f []

namespace Shrinking

/-- The writers work, and the stage is the same. -/
theorem work (h : Shrinking c kept id es f chores) (hsheet : f'.sheet c = f.sheet c)
    (hleaving : f'.leaving.map Writer.id = f.leaving.map Writer.id) (es' : List Event) :
    Shrinking c kept id (es ++ es') f' chores := by
  cases h with
  | shrink h hid hkept => exact .shrink (hsheet ▸ h) hid hkept
  | reset h hid => exact .reset (hsheet ▸ h) hid
  | drain steps due h hid => exact .drain steps due (hsheet ▸ h) hid
  | release h hid => exact .release (hsheet ▸ h) hid
  | close h hid => exact .close (hsheet ▸ h) (hleaving ▸ hid)
  | join h hid => exact .join (hsheet ▸ h) (hleaving ▸ hid)
  | removed h hw hid => exact .removed (hsheet ▸ h) (List.mem_append_left _ hw) hid
  | done h hw hid => exact .done (hsheet ▸ h) (List.mem_append_left _ hw) hid

/-- The last writer of a crew is the one that is released. -/
theorem release_step (h : (f.sheet c).tallies = kept ++ [a])
    (m : Chore.Move now f (.release c) es' chores' f')
    (d : Chore.Deed now f t (.release c) log' chores' f') :
    Shrinking c kept a.id (es ++ es') f' (chores' ++ []) := by
  have hids := congrArg (List.map Tally.id) h
  rw [tally_ids] at hids
  have hsheet : (f'.sheet c).tallies = kept := by
    cases d with
    | aside haside => simp [Chore.isAside] at haside
    | absent hattends => exact False.elim hattends
    | release _ ha => rw [ha.sheet_eq, h, List.dropLast_concat]
  cases m with
  | idle hidle => simp [Chore.mayIdle] at hidle
  | vacant hposts => simp [hposts] at hids
  | @release _ posts post _ hposts ha =>
    have hid : post.writer.id = a.id := by
      rw [hposts] at hids
      simpa using congrArg List.getLast? hids
    rw [hid]
    refine .close hsheet ?_
    rw [ha.leaving_eq, List.map_append, ← hid]
    simp

theorem step (h : Shrinking c kept id es f (chore :: rest))
    (m : Chore.Move now f chore es' chores' f') (d : Chore.Deed now f t chore log' chores' f') :
    Shrinking c kept id (es ++ es') f' (chores' ++ rest) := by
  cases h with
  | @shrink a h hid hkept =>
    have hpos := List.length_pos_iff.2 hkept
    have hlen : (f.sheet c).tallies.length = kept.length + 1 := by rw [h, List.length_append]; rfl
    cases d with
    | aside haside => simp [Chore.isAside] at haside
    | absent hattends => exact False.elim hattends
    | small hsmall => omega
    | shrink =>
      rw [hlen]
      exact .reset h hid
  | reset h hid =>
    cases d with
    | aside haside => simp [Chore.isAside] at haside
    | absent => exact .release h hid
    | reset => exact .drain 0 now h hid
  | @drain a steps due h hid =>
    cases d with
    | aside haside => simp [Chore.isAside] at haside
    | absent => exact .release h hid
    | wait _ _ _ _ steps' => exact .drain steps' (now + 1) h hid
    | clear _ _ _ _ ha =>
      have hcleared : (kept ++ [a]).modify kept.length Tally.cleared = kept ++ [a.cleared] := by
        simp [List.modify_eq_take_drop]
      exact .release (a := a.cleared) (by rw [ha.sheet_eq, h, hcleared]) hid
  | release h hid =>
    obtain rfl := hid
    exact release_step h m d
  | close h hid =>
    cases m with
    | idle hidle => simp [Chore.mayIdle] at hidle
    | close =>
      refine .join ((congrArg Sheet.tallies (sheet_closeQueue f id c)).trans h) ?_
      rwa [closeQueue, leaving_ids_mapWriters fun w => ?_]
      split_ifs <;> rfl
  | join h hid =>
    cases m with
    | idle hidle hjoin =>
      obtain ⟨w, hw, hwid⟩ := List.mem_map.1 hid
      exact absurd hwid (hjoin id rfl w hw)
    | @join w hw hclosed =>
      exact .removed ((congrArg Sheet.tallies (sheet_setLeaving f _ c)).trans h)
        (List.mem_append_right _ (List.mem_singleton_self _)) rfl
  | removed h hw hid =>
    cases m with
    | idle => exact .done h (List.mem_append_left _ hw) hid

/-- The removal goes through its stages. -/
theorem course (h : Shrinking c kept id es f chores)
    (hcourse : Course now f chores es' log' now' f' chores') :
    Shrinking c kept id (es ++ es') f' chores' := by
  induction hcourse with
  | start => rwa [List.append_nil]
  | wait _ _ ih => exact ih
  | write _ hw hstep ih =>
    rw [← List.append_assoc]
    exact ih.work (sheet_replace _ _ c) (leaving_ids_replace _) _
  | chore _ hstep ih =>
    rw [← List.append_assoc]
    exact ih.step (Chore.move_of_step? hstep) (Chore.deed_of_step? hstep)

end Shrinking

/-! ## Shrinking -/

/-- What has become of a crew with these members when its last writer has been removed. -/
structure Removal (c : Category) (ms : List Member) (es es' : List Event) (f f' : Fleet) :
    Prop where
  /-- The others are where they were, with their keys. -/
  kept : (f'.crew c).members.map (fun m => (m.writer.id, m.keys)) =
    ms.dropLast.map fun m => (m.writer.id, m.keys)
  other : (f'.crew c.other).members.map Member.tally = (f.crew c.other).members.map Member.tally
  /-- No key was routed in the meantime. -/
  unrouted : ∀ c' key id, .routed c' key id ∉ es'
  /-- Unless the removed writer died it has left, with its session closed, and has handed over
  every request that its queue ever took. -/
  handed : ∀ m, ms.getLast? = some m → .died ∉ of m.writer.id es' →
    ∃ w, .retired w ∈ es' ∧ w.id = m.writer.id ∧ w.phase = .gone ∧
      w.session.connected = false ∧ Writer.HandedOver (of m.writer.id (es ++ es'))

/-- What holds of a check that makes a category shrink. -/
structure Shrinks (p : Policy) (c : Category) (es : List Event) (log : List Entry) (now : Nat)
    (f : Fleet) (t : Store) : Prop where
  /-- The check finds everyone as it was who had not crashed. -/
  found : ∀ (place : Nat) (m : Member), (f.crew c).members[place]? = some m →
    m.writer.isClosed = false → (Chore.manned c now f t).1[place]? = some m
  /-- All queues are below the low watermark. -/
  low : ∀ m ∈ (Chore.manned c now f t).1, m.depth * 5 < p.queueSize
  several : 1 < (Chore.manned c now f t).1.length
  /-- The pause is over since the crews were made and since the size of this one changed. -/
  paused : ∀ n, .founded n ∈ log ∨ .resized c n ∈ log → n + p.resizePause ≤ now
  removal : ∀ {es' log' now' f'},
    Course now (Chore.inspectStep c now f t).fleet (Chore.inspectStep c now f t).chores es' log'
      now' f' [] →
    Removal c (Chore.manned c now f t).1 (es ++ (Chore.inspect c).events now f t) es' f f'

/-- Whoever has retired and did not die has handed over everything. -/
theorem Run.handed_over (h : Run p es now f chores) {w : Writer} (hw : .retired w ∈ es)
    (hdied : .died ∉ of w.id es) :
    w.phase = .gone ∧ w.session.connected = false ∧ Writer.HandedOver (of w.id es) := by
  obtain ⟨hgone, n, hrun⟩ := h.gone_of_retired hw hdied
  exact ⟨hgone, (hrun.handed_over hgone).2, (hrun.handed_over hgone).1⟩

/-- A check leaves the writers that it found, with their keys. -/
theorem Chore.posts_inspectStep (c : Category) (now : Nat) (f : Fleet) (t : Store) :
    (Chore.inspectStep c now f t).fleet.posts c =
      (Chore.manned c now f t).1.map Member.post := by
  have hcrew : ((Chore.inspectStep c now f t).fleet.crew c).members =
      (Chore.finding c now f t).members :=
    congrArg Crew.members (crew_setCrew (Chore.manned c now f t).2 c _)
  rw [posts, hcrew]
  exact Policy.posts_assess ..

theorem tally_keys (f : Fleet) (c : Category) :
    (f.sheet c).tallies.map (fun a => (a.id, a.keys)) =
      (f.posts c).map fun post => (post.writer.id, post.keys) := by
  simp [sheet, posts, Function.comp_def, Member.post, Member.tally]

theorem Logged.removal (h : Logged p es log now f (.inspect c :: rest)) (t : Store)
    (hshrink : (Chore.finding c now f t).verdict = .shrink)
    (hlen : 1 < (Chore.manned c now f t).1.length)
    (hcourse : Course now (Chore.inspectStep c now f t).fleet
      (Chore.inspectStep c now f t).chores es' log' now' f' []) :
    Removal c (Chore.manned c now f t).1 (es ++ (Chore.inspect c).events now f t) es' f f' := by
  have hnext := h.inspect t
  have hend := (hnext.course hcourse).run
  have hposts := Chore.posts_inspectStep c now f t
  have hopen : ∀ m ∈ (Chore.manned c now f t).1, m.writer.isClosed = false :=
    fun m hm => Chore.open_of_manned hm
  have hchores : (Chore.inspectStep c now f t).chores = [.shrink c] := by
    rw [Chore.chores_inspectStep, hshrink]
    rfl
  have hother := congrArg Sheet.tallies hcourse.inspect_other
  rw [hchores] at hcourse
  generalize (Chore.inspectStep c now f t).fleet = g at *
  generalize (Chore.manned c now f t).1 = ms at *
  -- the tallies of the crew that was inspected, with the last one apart
  have hkeys := g.tally_keys c
  rw [hposts, List.map_map] at hkeys
  have hsize : (g.sheet c).tallies.length = ms.length := by simpa using congrArg List.length hkeys
  obtain ⟨kept, a, htallies⟩ : ∃ kept a, (g.sheet c).tallies = kept ++ [a] :=
    ⟨_, _, (List.dropLast_append_getLast (List.ne_nil_of_length_pos (by omega))).symm⟩
  have hkept : kept ≠ [] := by
    rintro rfl
    simp [htallies] at hsize
    omega
  rw [htallies] at hkeys
  have hstage : Shrinking c kept a.id [] g [.shrink c] := .shrink htallies rfl hkept
  cases hstage.course hcourse with
  | @done w hdone hw hid =>
    rw [List.nil_append] at hw
    refine ⟨?_, hother, hcourse.unrouted, fun m hlast hdied => ?_⟩
    · have hfirst := congrArg List.dropLast hkeys
      rw [List.map_append, List.map_singleton, List.dropLast_concat, ← hdone, tally_keys,
        ← List.map_dropLast, posts, List.map_map] at hfirst
      exact hfirst
    · obtain ⟨others, rfl⟩ := List.getLast?_eq_some_iff.1 hlast
      have ha : a.id = m.post.writer.id := by simpa using congrArg (·.getLast?.map Prod.fst) hkeys
      have hm : m.post ∈ g.posts c := by simp [hposts]
      have hwid : w.id = m.writer.id := hid.trans ha
      have hdied' : .died ∉ of m.writer.id (es ++ (Chore.inspect c).events now f t ++ es') := by
        rw [of_append]
        exact fun hmem => (List.mem_append.1 hmem).elim
          (hnext.run.staff.not_died hm (hopen m (by simp))) hdied
      obtain ⟨hgone, hsession, hhanded⟩ :=
        hend.handed_over (List.mem_append_right _ hw) (hwid ▸ hdied')
      exact ⟨w, hw, hwid, hgone, hsession, hwid ▸ hhanded⟩

theorem Logged.shrinks (h : Logged p es log now f (.inspect c :: rest)) (t : Store)
    (hshrink : (Chore.finding c now f t).verdict = .shrink) : Shrinks p c es log now f t := by
  have hp := h.run.staff.policy_eq
  have hdated := h.dated
  obtain ⟨hlow, hlen, hdue⟩ : (∀ m ∈ (Chore.manned c now f t).1, f.policy.isLow m = true) ∧
      1 < (Chore.manned c now f t).1.length ∧ Chore.shrinkDue c now f = true := by
    have hfinds := Chore.finds_finding c now f t
    rw [hshrink] at hfinds
    cases hfinds with
    | calm hnone hv => simpa using hv
  rw [Chore.shrinkDue, hp, decide_eq_true_iff] at hdue
  refine ⟨fun place m hm hopen => Chore.manned_of_open now t hm hopen, fun m hm => ?_, hlen,
    fun n hn => ?_, h.removal t hshrink hlen⟩
  · rw [← hp]
    exact f.policy.isLow_iff.1 (hlow m hm)
  · have hle : n ≤ (f.sheet c).resized := by
      rcases hn with hn | hn
      · exact hdated.kept _ hn c
      · exact hdated.kept _ hn
    omega

/-! ## A crew that shrinks -/

def roomyPolicy : Policy := { samplePolicy with queueSize := 8 }

/-- Each of two writers was sent a request. -/
def roomyFleet : Fleet :=
  ((Fleet.start roomyPolicy 0 {}).1.deliver .general "a" 1).deliver .general "b" 1

/-- A check found that one of them is enough. -/
def spareBench : Dispatch.Bench :=
  { store := {}
    dispatch :=
      { fleet := (Chore.inspectStep .general 0 roomyFleet {}).fleet
        backlog := { capacity := 1 } } }

theorem shrinks_sample :
    ∃ es log, Logged roomyPolicy es log 0 roomyFleet checkChores ∧
      (Chore.finding .general 0 roomyFleet {}).verdict = .shrink ∧
      Shrinks roomyPolicy .general es log 0 roomyFleet {} ∧
      ∃ es' log' now' f', Course 0 (Chore.inspectStep .general 0 roomyFleet {}).fleet
          (Chore.inspectStep .general 0 roomyFleet {}).chores es' log' now' f' [] ∧
        (roomyFleet.crew .general).members.map (fun m => (m.depth, m.keys)) =
          [(1, ["a"]), (1, ["b"])] ∧
        (f'.crew .general).members.map Member.keys = [["a"]] := by
  have hmanaged : Managed roomyPolicy _ false 0 roomyFleet [] :=
    ((Managed.start 0 {}).deliver .general "a" 1).deliver .general "b" 1
  obtain ⟨es, hrun, hd⟩ := hmanaged.run
  obtain ⟨log, hlogged⟩ := (hrun.check (by simp [hd])).logged
  have hverdict : (Chore.finding .general 0 roomyFleet {}).verdict = .shrink := by decide +kernel
  obtain ⟨es', log', hcourse⟩ :=
    Course.bench_perform spareBench [.shrink .general] 400 (by decide +kernel)
  exact ⟨es, log, hlogged, hverdict, hlogged.shrinks {} hverdict, es', log', _, _, hcourse,
    by decide +kernel, by decide +kernel⟩

end BmpFeed.Fleet
