import BmpFeed.Proofs.Fleet.Choice
import BmpFeed.Proofs.Fleet.Log

/-!
# The balance of a crew

A new key goes to a writer with the fewest keys, a crew that grows is reset first, and one that
shrinks loses a writer with its keys. So as long as no writer is replaced or reset alone, the
writers of a category have the same number of keys, up to one. In between, while a reset is under
way, they do not: `Levelling` lists the stages of the work on a crew with what holds of its numbers
of keys.
-/

namespace BmpFeed.Fleet

variable {p : Policy} {es es' : List Event} {log' : List Entry} {now : Nat} {f f' : Fleet}
  {t : Store} {c : Category} {chore : Chore} {chores chores' rest : List Chore} {ns : List Nat}

/-! ## Balanced numbers -/

/-- No two of the numbers differ by more than one. -/
def Balanced (ns : List Nat) : Prop := ∀ a ∈ ns, ∀ b ∈ ns, a ≤ b + 1

namespace Balanced

theorem of_zero (h : ∀ a ∈ ns, a = 0) : Balanced ns := by
  intro a ha b hb
  rw [h a ha]
  omega

theorem sublist {ms : List Nat} (h : Balanced ns) (hs : ms.Sublist ns) : Balanced ms :=
  fun a ha b hb => h a (hs.subset ha) b (hs.subset hb)

/-- One more for one of those with the least. -/
theorem raise (h : Balanced ns) {place a : Nat} (ha : ns[place]? = some a)
    (hleast : ∀ b ∈ ns, a ≤ b) : Balanced (ns.modify place (· + 1)) := by
  have hmem := List.mem_of_getElem? ha
  -- the raised number is the only new one
  have hcases : ∀ b ∈ ns.modify place (· + 1), b = a + 1 ∨ b ∈ ns := by
    intro b hb
    obtain ⟨j, hj⟩ := List.mem_iff_getElem?.1 hb
    rw [List.getElem?_modify] at hj
    obtain ⟨n, hn, rfl⟩ := Option.map_eq_some_iff.1 hj
    split_ifs with hplace
    · subst hplace
      obtain rfl := Option.some.inj (ha.symm.trans hn)
      exact .inl rfl
    · exact .inr (List.mem_of_getElem? hn)
  intro x hx y hy
  have hy' : a ≤ y := by
    rcases hcases y hy with rfl | hy
    · omega
    · exact hleast y hy
  rcases hcases x hx with rfl | hx
  · omega
  · have hxa := h x hx a hmem
    omega

end Balanced

/-! ## The numbers of keys of a crew -/

/-- The number of keys of each writer of a category. -/
def loads (f : Fleet) (c : Category) : List Nat := (f.crew c).members.map fun m => m.keys.length

theorem loads_eq_tallies (f : Fleet) (c : Category) :
    f.loads c = (f.sheet c).tallies.map fun a => a.keys.length := by
  simp [loads, sheet, Function.comp_def, Member.tally]

theorem length_loads (f : Fleet) (c : Category) :
    (f.loads c).length = (f.sheet c).tallies.length := by
  rw [loads_eq_tallies, List.length_map]

theorem loads_eq_posts (f : Fleet) (c : Category) :
    f.loads c = (f.posts c).map fun post => post.keys.length := by
  simp [loads, posts, Function.comp_def, Member.post]

/-- A key that is routed goes to its owner, or to a writer with the fewest keys. -/
theorem loads_route (f : Fleet) (c : Category) (key : String) :
    (f.route c key).2.loads c = f.loads c ∨
      ∃ place a, (f.loads c)[place]? = some a ∧ (∀ b ∈ f.loads c, a ≤ b) ∧
        (f.route c key).2.loads c = (f.loads c).modify place (· + 1) := by
  have hcrew : (f.route c key).2.crew c = ((f.crew c).route f.mid key).2 := crew_setCrew ..
  unfold loads
  rw [hcrew]
  unfold Crew.route
  cases (f.crew c).ownerPlace? key with
  | some i =>
    exact .inl (map_modify_same (g := fun m : Member => m.keys.length) (h := Member.count)
      (fun _ => rfl) _ _)
  | none =>
    have hsame : ((f.crew c).members.map Member.refreshed).map (fun m => m.keys.length) =
        (f.crew c).members.map fun m => m.keys.length := by
      rw [List.map_map]
      refine List.map_congr_left fun m _ => ?_
      simp only [Function.comp_apply, Member.refreshed]
      split_ifs <;> rfl
    have hraised (ms : List Member) (i : Nat) :
        (ms.modify i fun m => (m.assign key).count).map (fun m => m.keys.length) =
          (ms.map fun m => m.keys.length).modify i (· + 1) :=
      map_modify (fun m => by simp [Member.assign, Member.count]) ms i
    dsimp only
    rw [hraised, hsame]
    rcases List.eq_nil_or_concat (f.crew c).members with hnil | ⟨ms, m, hms⟩
    · simp [hnil]
    · have hne : (f.crew c).members.map Member.refreshed ≠ [] := by simp [hms]
      obtain ⟨m, hchosen⟩ := Crew.choose_chosen f.mid hne
      refine .inr ⟨_, m.keys.length, ?_, fun b hb => ?_, rfl⟩
      · rw [← hsame, List.getElem?_map, hchosen.at_place]
        rfl
      · rw [← hsame] at hb
        obtain ⟨u, hu, rfl⟩ := List.mem_map.1 hb
        exact hchosen.fewest u hu

theorem loads_send {s : Slot} {r : Request} {note : Note} (h : f.send? s r = some (f', note))
    (c : Category) : f'.loads c = f.loads c := by
  obtain ⟨post, w, hpost, -, ha⟩ := send_spec h
  rw [loads_eq_posts, loads_eq_posts]
  by_cases hc : c = s.category
  · subst hc
    have hkeys := congrArg (List.map List.length) (map_keys_set hpost w)
    rw [List.map_map, List.map_map] at hkeys
    rw [ha.posts_eq]
    exact hkeys
  · rw [ha.posts_of_ne hc]

theorem loads_replace (f : Fleet) (w : Writer) (c : Category) :
    (f.replace w).loads c = f.loads c := by
  rw [loads_eq_tallies, loads_eq_tallies, sheet_replace]

/-! ## The stages of the work on a crew -/

/-- The chore ends a reset of the whole crew. -/
def Chore.Ends (c : Category) (chore : Chore) : Prop := chore = .enlist c ∨ chore = .dismiss c

/-- What holds of the numbers of keys of a crew while these chores about it are left. -/
inductive Levelling (c : Category) : List Nat → List Chore → Prop
  | rest {ns : List Nat} (h : Balanced ns) : Levelling c ns []
  /-- It is not yet clear what there is to do. -/
  | asked {ns : List Nat} {chore : Chore} (h : Balanced ns)
      (hchore : chore = .inspect c ∨ chore = .grow c ∨ chore = .shrink c) :
      Levelling c ns [chore]
  | resetAll {ns : List Nat} {last : Chore} (hlast : last.Ends c) :
      Levelling c ns [.resetAll c, last]
  /-- The writers before the place have been reset. -/
  | reset {ns : List Nat} {place n : Nat} {last : Chore} (hzero : ∀ a ∈ ns.take place, a = 0)
      (hlen : place + n = ns.length) (hlast : last.Ends c) :
      Levelling c ns ((List.range' place n).map (.reset c) ++ [last])
  | drain {ns : List Nat} {place n : Nat} {last : Chore} (steps due : Nat)
      (hzero : ∀ a ∈ ns.take place, a = 0) (hlen : place + (n + 1) = ns.length)
      (hlast : last.Ends c) :
      Levelling c ns
        (.drain c place steps due :: ((List.range' (place + 1) n).map (.reset c) ++ [last]))
  | resetLast {ns : List Nat} (h : Balanced ns.dropLast) :
      Levelling c ns [.reset c (ns.length - 1), .release c]
  | drainLast {ns : List Nat} (steps due : Nat) (h : Balanced ns.dropLast) :
      Levelling c ns [.drain c (ns.length - 1) steps due, .release c]
  | release {ns : List Nat} (h : Balanced ns.dropLast) : Levelling c ns [.release c]

/-- What is done about the writers outside the crews is about no crew. -/
theorem Chore.filter_aside (h : ∀ chore ∈ chores, chore.isAside = true) (c : Category) :
    chores.filter (Chore.concerns c) = [] :=
  List.filter_eq_nil_iff.2 fun chore hmem => by simp [concerns_of_isAside (h chore hmem)]

theorem Chore.Manned.eq_of_open {n n' : Nat} {posts posts' : List Post}
    (h : Chore.Manned p now n posts n' posts')
    (hopen : ∀ post ∈ posts, post.writer.isClosed = false) : posts' = posts := by
  induction h with
  | nil => rfl
  | keep _ _ ih => rw [ih fun post hpost => hopen post (List.mem_cons_of_mem _ hpost)]
  | fill t hclosed => exact absurd (hopen _ List.mem_cons_self) (by simp [hclosed])

namespace Levelling

/-- Where nothing but a check is still to be done, the numbers are balanced. -/
theorem balanced (h : Levelling c ns chores) (hidle : ∀ chore ∈ chores, chore = .inspect c) :
    Balanced ns := by
  cases h with
  | rest h | asked h => exact h
  | resetAll => exact absurd (hidle (.resetAll c) (by simp)) (by simp)
  | @reset place n last _ _ hlast =>
    have hinspect := hidle last (by simp)
    rcases hlast with rfl | rfl <;> exact absurd hinspect (by simp)
  | drain => exact absurd (hidle _ List.mem_cons_self) (by simp)
  | resetLast | drainLast => exact absurd (hidle _ List.mem_cons_self) (by simp)
  | release => exact absurd (hidle (.release c) (by simp)) (by simp)

/-- A check finds the crew as it was, and leads to a change of its size or to nothing. -/
theorem inspect_step (h : Balanced (f.loads c))
    (hopen : ∀ post ∈ f.posts c, post.writer.isClosed = false)
    (hcalm : ∀ ids, .rebalanced c ids ∉ es')
    (m : Chore.Move now f (.inspect c) es' chores' f') :
    Levelling c (f'.loads c) (chores'.filter (Chore.concerns c)) := by
  cases m with
  | idle hidle => simp [Chore.mayIdle] at hidle
  | @inspect _ posts n _ v hmanned ha =>
    have hloads : f'.loads c = f.loads c := by
      rw [loads_eq_posts, loads_eq_posts, ha.posts_eq, hmanned.eq_of_open hopen]
    rw [hloads]
    cases v with
    | rebalance places =>
      exact absurd (List.mem_append_right _ (List.mem_singleton_self _)) (hcalm _)
    | grow =>
      rw [List.filter_eq_self.2 (by simp [Chore.ofVerdict, Chore.concerns])]
      exact .asked h (.inr (.inl rfl))
    | shrink =>
      rw [List.filter_eq_self.2 (by simp [Chore.ofVerdict, Chore.concerns])]
      exact .asked h (.inr (.inr rfl))
    | hold => exact .rest h

/-- Behind the last reset the crew gets a writer without keys, or is dismissed. -/
theorem close_step (hzero : ∀ a ∈ f.loads c, a = 0) (hlast : chore.Ends c)
    (d : Chore.Deed now f t chore log' chores' f') :
    Levelling c (f'.loads c) (chores'.filter (Chore.concerns c)) := by
  rw [loads_eq_tallies] at hzero ⊢
  rcases hlast with rfl | rfl
  · cases d with
    | aside haside => simp [Chore.isAside] at haside
    | absent hattends => exact False.elim hattends
    | enlist ha =>
      refine .rest (.of_zero ?_)
      rw [ha.sheet_eq, List.map_append]
      intro a hmem
      rcases List.mem_append.1 hmem with hmem | hmem
      · exact hzero a hmem
      · simpa [Tally.fresh] using hmem
  · cases d with
    | aside haside => simp [Chore.isAside] at haside
    | absent hattends => exact False.elim hattends
    | dismiss hchores ha =>
      rw [Chore.filter_aside hchores, ha.sheet_eq]
      exact .rest (.of_zero (by simp))

/-- A writer that is reset has no keys. -/
theorem loads_cleared {place : Nat} {s : Sheet}
    (hs : s.tallies = (f.sheet c).tallies.modify place Tally.cleared) (ha : f.Amends c s f') :
    f'.loads c = (f.loads c).modify place fun _ => 0 := by
  rw [loads_eq_tallies, loads_eq_tallies, ha.sheet_eq, hs]
  exact map_modify (g := fun a : Tally => a.keys.length) (h := Tally.cleared) (fun _ => rfl) _ _

theorem take_modify_zero {place : Nat} (hzero : ∀ a ∈ ns.take place, a = 0) :
    ∀ a ∈ (ns.modify place fun _ => 0).take (place + 1), a = 0 := by
  intro a ha
  obtain ⟨j, hj⟩ := List.mem_iff_getElem?.1 ha
  rw [List.getElem?_take] at hj
  split_ifs at hj with hlt
  rw [List.getElem?_modify] at hj
  obtain ⟨b, hb, rfl⟩ := Option.map_eq_some_iff.1 hj
  split_ifs with hplace
  · rfl
  · refine hzero b (List.mem_of_getElem? (i := j) ?_)
    rw [List.getElem?_take, if_pos (by omega)]
    exact hb

/-- The last writer is the only one that a crew loses when it shrinks. -/
theorem dropLast_modify_last (ns : List Nat) (g : Nat → Nat) :
    (ns.modify (ns.length - 1) g).dropLast = ns.dropLast := by
  apply List.ext_getElem?
  intro j
  rw [List.getElem?_dropLast, List.getElem?_dropLast, List.length_modify]
  split_ifs with hj
  · have hne : ns.length - 1 ≠ j := by omega
    rw [List.getElem?_modify]
    cases ns[j]? <;> simp [hne]
  · rfl

/-! ### Growing and shrinking -/

theorem grow_step (h : Balanced (f.loads c)) (d : Chore.Deed now f t (.grow c) log' chores' f') :
    Levelling c (f'.loads c) (chores'.filter (Chore.concerns c)) := by
  cases d with
  | aside haside => simp [Chore.isAside] at haside
  | absent hattends => exact False.elim hattends
  | full => exact .rest h
  | grow =>
    rw [List.filter_eq_self.2 (by simp [Chore.concerns])]
    exact .resetAll (.inl rfl)

theorem shrink_step (h : Balanced (f.loads c))
    (d : Chore.Deed now f t (.shrink c) log' chores' f') :
    Levelling c (f'.loads c) (chores'.filter (Chore.concerns c)) := by
  cases d with
  | aside haside => simp [Chore.isAside] at haside
  | absent hattends => exact False.elim hattends
  | small => exact .rest h
  | shrink =>
    rw [List.filter_eq_self.2 (by simp [Chore.concerns]), ← length_loads]
    exact .resetLast (h.sublist (List.dropLast_sublist _))

/-! ### The reset of a crew -/

section Reset

variable {place n : Nat} {last : Chore}

theorem resetAll_step (hlast : last.Ends c)
    (d : Chore.Deed now f t (.resetAll c) log' chores' f') :
    Levelling c (f'.loads c) (chores'.filter (Chore.concerns c) ++ [last]) := by
  cases d with
  | aside haside => simp [Chore.isAside] at haside
  | absent hattends => exact False.elim hattends
  | resetAll =>
    rw [List.filter_eq_self.2 (by simp [Chore.concerns]), ← length_loads, List.range_eq_range']
    exact .reset (by simp) (Nat.zero_add _) hlast

theorem reset_step (hzero : ∀ a ∈ (f.loads c).take place, a = 0)
    (hlen : place + (n + 1) = (f.loads c).length) (hlast : last.Ends c)
    (d : Chore.Deed now f t (.reset c place) log' chores' f') :
    Levelling c (f'.loads c) (chores'.filter (Chore.concerns c) ++
      ((List.range' (place + 1) n).map (.reset c) ++ [last])) := by
  have hlength := length_loads f c
  cases d with
  | aside haside => simp [Chore.isAside] at haside
  | absent hattends hplace =>
    obtain ⟨rfl, rfl⟩ := hattends
    omega
  | reset =>
    rw [List.filter_eq_self.2 (by simp [Chore.concerns])]
    exact .drain 0 now hzero hlen hlast

theorem drain_step {steps due : Nat} (hzero : ∀ a ∈ (f.loads c).take place, a = 0)
    (hlen : place + (n + 1) = (f.loads c).length) (hlast : last.Ends c)
    (d : Chore.Deed now f t (.drain c place steps due) log' chores' f') :
    Levelling c (f'.loads c) (chores'.filter (Chore.concerns c) ++
      ((List.range' (place + 1) n).map (.reset c) ++ [last])) := by
  have hlength := length_loads f c
  cases d with
  | aside haside => simp [Chore.isAside] at haside
  | absent hattends hplace =>
    obtain ⟨rfl, rfl⟩ := hattends
    omega
  | wait _ _ _ _ steps' =>
    rw [List.filter_eq_self.2 (by simp [Chore.concerns])]
    exact .drain steps' (now + 1) hzero hlen hlast
  | clear _ _ _ _ ha =>
    rw [loads_cleared rfl ha]
    refine .reset (take_modify_zero hzero) ?_ hlast
    rw [List.length_modify]
    omega

end Reset

/-! ### The reset of the last writer -/

theorem resetLast_step (h : Balanced (f.loads c).dropLast)
    (d : Chore.Deed now f t (.reset c ((f.loads c).length - 1)) log' chores' f') :
    Levelling c (f'.loads c) (chores'.filter (Chore.concerns c) ++ [.release c]) := by
  cases d with
  | aside haside => simp [Chore.isAside] at haside
  | absent => exact .release h
  | reset =>
    rw [List.filter_eq_self.2 (by simp [Chore.concerns])]
    exact .drainLast 0 now h

theorem drainLast_step {steps due : Nat} (h : Balanced (f.loads c).dropLast)
    (d : Chore.Deed now f t (.drain c ((f.loads c).length - 1) steps due) log' chores' f') :
    Levelling c (f'.loads c) (chores'.filter (Chore.concerns c) ++ [.release c]) := by
  cases d with
  | aside haside => simp [Chore.isAside] at haside
  | absent => exact .release h
  | wait _ _ _ _ steps' =>
    rw [List.filter_eq_self.2 (by simp [Chore.concerns])]
    exact .drainLast steps' (now + 1) h
  | clear _ _ _ _ ha =>
    refine .release ?_
    rw [loads_cleared rfl ha, dropLast_modify_last]
    exact h

theorem release_step (h : Balanced (f.loads c).dropLast)
    (d : Chore.Deed now f t (.release c) log' chores' f') :
    Levelling c (f'.loads c) (chores'.filter (Chore.concerns c)) := by
  cases d with
  | aside haside => simp [Chore.isAside] at haside
  | absent hattends => exact False.elim hattends
  | release hchores ha =>
    have hloads : f'.loads c = (f.loads c).dropLast := by
      rw [loads_eq_tallies, ha.sheet_eq, List.map_dropLast, ← loads_eq_tallies]
    rw [Chore.filter_aside hchores, hloads]
    exact .rest h

/-! ### All steps -/

/-- What a step of a chore about the crew does to the numbers of keys. -/
theorem step (h : Levelling c (f.loads c) (chore :: rest))
    (hopen : ∀ post ∈ f.posts c, post.writer.isClosed = false)
    (hcalm : ∀ ids, .rebalanced c ids ∉ es') (m : Chore.Move now f chore es' chores' f')
    (d : Chore.Deed now f t chore log' chores' f') :
    Levelling c (f'.loads c) (chores'.filter (Chore.concerns c) ++ rest) := by
  generalize hpending : chore :: rest = pending at h
  generalize hns : f.loads c = ns at h
  cases h with
  | rest => exact absurd hpending (by simp)
  | asked h hchore =>
    subst hns
    obtain ⟨rfl, rfl⟩ := List.cons.inj hpending
    rw [List.append_nil]
    rcases hchore with rfl | rfl | rfl
    · exact inspect_step h hopen hcalm m
    · exact grow_step h d
    · exact shrink_step h d
  | resetAll hlast =>
    obtain ⟨rfl, rfl⟩ := List.cons.inj hpending
    exact resetAll_step hlast d
  | @reset place n last hzero hlen hlast =>
    subst hns
    cases n with
    | zero =>
      obtain ⟨rfl, rfl⟩ := List.cons.inj hpending
      -- the last place has been reached, so all numbers are zero
      have hall : (f.loads c).take place = f.loads c :=
        List.take_of_length_le (Nat.le_of_eq hlen.symm)
      rw [hall] at hzero
      rw [List.append_nil]
      exact close_step hzero hlast d
    | succ n =>
      rw [List.range'_succ, List.map_cons, List.cons_append] at hpending
      obtain ⟨rfl, rfl⟩ := List.cons.inj hpending
      exact reset_step hzero hlen hlast d
  | drain steps due hzero hlen hlast =>
    subst hns
    obtain ⟨rfl, rfl⟩ := List.cons.inj hpending
    exact drain_step hzero hlen hlast d
  | resetLast h =>
    subst hns
    obtain ⟨rfl, rfl⟩ := List.cons.inj hpending
    exact resetLast_step h d
  | drainLast steps due h =>
    subst hns
    obtain ⟨rfl, rfl⟩ := List.cons.inj hpending
    exact drainLast_step h d
  | release h =>
    subst hns
    obtain ⟨rfl, rfl⟩ := List.cons.inj hpending
    rw [List.append_nil]
    exact release_step h d

end Levelling

/-! ## Balance -/

theorem loads_start (p : Policy) (now : Nat) (t : Store) (c : Category) :
    ∀ a ∈ (Fleet.start p now t).1.loads c, a = 0 := by
  refine start_induction (P := fun f => ∀ a ∈ f.loads c, a = 0) p now t ?_ ?_
  · intro f _ hposts _ _
    simp [loads_eq_posts, hposts]
  · rintro f c' f' hzero ⟨t, ha⟩
    rw [loads_eq_posts] at hzero ⊢
    by_cases hc : c = c'
    · subst hc
      rw [ha.posts_eq, List.map_append]
      intro a hmem
      rcases List.mem_append.1 hmem with hmem | hmem
      · exact hzero a hmem
      · simpa [opened] using hmem
    · rwa [ha.posts_of_ne hc]

/-- The stage of the work on a category, as long as no writer dies and no check rebalances it. -/
theorem Run.levelling (h : Run p es now f chores) (hdied : ∀ id, .died ∉ of id es)
    (hcalm : ∀ ids, .rebalanced c ids ∉ es) :
    Levelling c (f.loads c) (chores.filter (Chore.concerns c)) := by
  have hearlier : ∀ {es es' : List Event}, (∀ id, .died ∉ of id (es ++ es')) →
      (∀ ids, .rebalanced c ids ∉ es ++ es') →
        (∀ id, .died ∉ of id es) ∧ ∀ ids, .rebalanced c ids ∉ es := by
    intro es es' hdied hcalm
    refine ⟨fun id hmem => hdied id ?_, fun ids hmem => hcalm ids (List.mem_append_left _ hmem)⟩
    rw [of_append]
    exact List.mem_append_left _ hmem
  induction h with
  | start now t => exact .rest (.of_zero (loads_start p now t c))
  | wait _ _ ih => exact ih hdied hcalm
  | @write es now f chores t w turn _ _ _ ih =>
    rw [loads_replace]
    obtain ⟨hdied, hcalm⟩ := hearlier hdied hcalm
    exact ih hdied hcalm
  | @route es now f c' key post _ hopen hpost ih =>
    obtain ⟨hdied, hcalm⟩ := hearlier hdied hcalm
    have hbalanced := (ih hdied hcalm).balanced (by simp)
    refine .rest ?_
    by_cases hc : c = c'
    · subst hc
      rcases loads_route f c key with hsame | ⟨place, a, ha, hleast, hraised⟩
      · rwa [hsame]
      · rw [hraised]
        exact hbalanced.raise ha hleast
    · have hcrew : (f.route c' key).2.crew c = f.crew c := crew_setCrew_of_ne f _ hc
      rwa [loads, hcrew]
  | send _ _ hs _ ih =>
    obtain ⟨hdied, hcalm⟩ := hearlier hdied hcalm
    rw [loads_send hs]
    exact ih hdied hcalm
  | check _ _ ih =>
    have hpending : checkChores.filter (Chore.concerns c) = [.inspect c] := by cases c <;> rfl
    rw [hpending]
    exact .asked ((ih hdied hcalm).balanced (by simp)) (.inl rfl)
  | dismiss _ _ ih =>
    have hpending : shutdownChores.filter (Chore.concerns c) = [.resetAll c, .dismiss c] := by
      cases c <;> rfl
    rw [hpending]
    exact .resetAll (.inr rfl)
  | @chore es now f chore chores t turn hrun hstep ih =>
    have hnew : ∀ ids, .rebalanced c ids ∉ chore.events now f t :=
      fun ids hmem => hcalm ids (List.mem_append_right _ hmem)
    obtain ⟨hdied, hcalm⟩ := hearlier hdied hcalm
    have hpast := ih hdied hcalm
    have hdeed := Chore.deed_of_step? hstep
    rw [List.filter_append]
    cases hconcerns : chore.concerns c with
    | true =>
      rw [List.filter_cons_of_pos hconcerns] at hpast
      -- a closed writer at a post would have died
      refine hpast.step (fun post hpost => ?_) hnew (Chore.move_of_step? hstep) hdeed
      by_contra hclosed
      exact hdied _ (hrun.staff.died_of_closed hpost (by simpa using hclosed))
    | false =>
      have hnone : turn.chores.filter (Chore.concerns c) = [] :=
        List.filter_eq_nil_iff.2 fun chore' hmem => by simp [hdeed.concerns hconcerns chore' hmem]
      rw [List.filter_cons_of_neg (by simp [hconcerns])] at hpast
      rw [hnone, List.nil_append, loads_eq_tallies, hdeed.sheet_eq hconcerns, ← loads_eq_tallies]
      exact hpast

/-- As long as no writer dies and no check rebalances a category, the numbers of keys of any two of
its writers differ by at most one whenever no more than a check of it is to be done. -/
theorem Run.keys_balanced (h : Run p es now f chores) (hdied : ∀ id, .died ∉ of id es)
    (hcalm : ∀ ids, .rebalanced c ids ∉ es)
    (hidle : ∀ chore ∈ chores, chore.concerns c = true → chore = .inspect c) {m m' : Member}
    (hm : m ∈ (f.crew c).members) (hm' : m' ∈ (f.crew c).members) :
    m.keys.length ≤ m'.keys.length + 1 := by
  have hbalanced := (h.levelling hdied hcalm).balanced fun chore hmem => by
    obtain ⟨hmem, hconcerns⟩ := List.mem_filter.1 hmem
    exact hidle chore hmem hconcerns
  exact hbalanced _ (List.mem_map_of_mem hm) _ (List.mem_map_of_mem hm')

/-! ## A crew that shrinks -/

/-- Only a check whose verdict it is shows that writers are to be reset. -/
theorem Chore.rebalance_of_mem {ids : List Nat} (h : .rebalanced c ids ∈ chore.events now f t) :
    ∃ c' places, chore = .inspect c' ∧ (finding c' now f t).verdict = .rebalance places := by
  cases chore with
  | inspect c' =>
    cases hv : (finding c' now f t).verdict with
    | rebalance places => exact ⟨c', places, rfl, hv⟩
    | _ => simp [events, replacedEvents, verdictEvents, hv] at h
  | _ => simp [events] at h

/-- Nothing is rebalanced before the first pause is over. -/
theorem Run.not_rebalanced (h : Run p es now f chores) (hpause : now < p.rebalancePause)
    (ids : List Nat) : .rebalanced c ids ∉ es := by
  induction h with
  | start => simp
  | wait _ hle ih => exact ih (Nat.lt_of_le_of_lt hle hpause)
  | write _ _ _ ih | route _ _ _ _ _ ih | send _ _ _ _ ih | dismiss _ _ ih =>
    simpa using ih hpause
  | check _ _ ih => exact ih hpause
  | @chore es now f chore chores t turn hrun hstep ih =>
    intro hmem
    rcases List.mem_append.1 hmem with hmem | hmem
    · exact ih hpause hmem
    · obtain ⟨c', places, rfl, hv⟩ := Chore.rebalance_of_mem hmem
      have hfinds := Chore.finds_finding c' now f t
      generalize (Chore.finding c' now f t).members = ms at hfinds
      rw [hv] at hfinds
      cases hfinds with
      | rebalance hdue =>
        rw [Chore.rebalanceDue, hrun.staff.policy_eq, decide_eq_true_iff] at hdue
        omega
      | calm _ hv => simp at hv

namespace Chore

/-- Some steps of chores in which no writer makes a step. -/
def works (now : Nat) (t : Store) : Nat → Fleet × List Chore → Fleet × List Chore
  | 0, s => s
  | _ + 1, (f, []) => (f, [])
  | n + 1, (f, chore :: chores) =>
    match chore.step? now f t with
    | some turn => works now t n (turn.fleet, turn.chores ++ chores)
    | none => (f, chore :: chores)

theorem run_works (t : Store) (n : Nat) (h : Run p es now f chores)
    (hdied : ∀ id, .died ∉ of id es) :
    ∃ es', Run p es' now (works now t n (f, chores)).1 (works now t n (f, chores)).2 ∧
      ∀ id, .died ∉ of id es' := by
  induction n generalizing es f chores with
  | zero => exact ⟨es, h, hdied⟩
  | succ n ih =>
    cases chores with
    | nil => exact ⟨es, h, hdied⟩
    | cons chore chores =>
      unfold works
      cases hstep : chore.step? now f t with
      | none => exact ⟨es, h, hdied⟩
      | some turn =>
        refine ih (h.chore hstep) fun id => ?_
        rw [of_append, (move_of_step? hstep).of_eq, List.append_nil]
        exact hdied id

end Chore

def levelPolicy : Policy := { samplePolicy with maxWriters := 3 }

/-- A fleet that has routed four keys of a category to its three writers. -/
def levelFleet : Fleet :=
  ["a", "b", "c", "d"].foldl (fun f key => (f.route .general key).2)
    (Fleet.start levelPolicy 0 {}).1

theorem keys_balanced_sample :
    ∃ es f chores, Run levelPolicy es 0 f chores ∧ (∀ id, .died ∉ of id es) ∧
      (∀ ids, .rebalanced .general ids ∉ es) ∧
      (∀ chore ∈ chores, chore.concerns .general = true → chore = .inspect .general) ∧
      (levelFleet.crew .general).members.map Member.keys = [["a", "d"], ["b"], ["c"]] ∧
      (f.crew .general).members.map Member.keys = [["a", "d"], ["b"]] ∧
      ∀ m ∈ (f.crew .general).members, ∀ m' ∈ (f.crew .general).members,
        m.keys.length ≤ m'.keys.length + 1 := by
  have hstart : Run levelPolicy [] 0 (Fleet.start levelPolicy 0 {}).1 [] := .start 0 {}
  have ha := hstart.route_id .general "a" 0 (by simp) (by decide +kernel)
  have hb := ha.route_id .general "b" 1 (by simp) (by decide +kernel)
  have hc := hb.route_id .general "c" 2 (by simp) (by decide +kernel)
  have hd := hc.route_id .general "d" 0 (by simp) (by decide +kernel)
  obtain ⟨es, hrun, hdied⟩ :=
    Chore.run_works {} 6 (hd.check (by simp)) fun id => by simp [of]
  have hcalm : ∀ ids, .rebalanced .general ids ∉ es :=
    fun ids => hrun.not_rebalanced (by decide) ids
  have hidle : ∀ chore ∈ (Chore.works 0 {} 6 (levelFleet, checkChores)).2,
      chore.concerns .general = true → chore = .inspect .general := by decide +kernel
  exact ⟨es, _, _, hrun, hdied, hcalm, hidle, by decide +kernel, by decide +kernel,
    fun m hm m' hm' => hrun.keys_balanced hdied hcalm hidle hm hm'⟩

end BmpFeed.Fleet
