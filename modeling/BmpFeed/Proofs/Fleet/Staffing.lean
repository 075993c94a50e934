import BmpFeed.Proofs.Backlog
import BmpFeed.Proofs.Fleet.Closing
import BmpFeed.Proofs.Fleet.Routing

/-!
# How many writers a fleet has, and their numbers

`Managed` is a run of a fleet as its owner sees it, with all writers that were hired. Every crew is
within its bounds at any time of it: growth is decided once and checked again before the writer is
hired, and nothing else makes a crew larger. Each hired writer has the next number, so no number is
given twice.
-/

namespace BmpFeed.Fleet

variable {p : Policy} {es es' : List Event} {now now' : Nat} {f f' : Fleet} {c : Category}
  {chore : Chore} {chores chores' : List Chore}

/-! ## The largest size of a crew -/

/-- The chore can lead to a larger crew. -/
def Chore.grows (c : Category) : Chore → Bool
  | .inspect c' | .grow c' | .enlist c' => c' = c
  | _ => false

theorem Chore.inherited_grows (c : Category) : Chore.Inherited (Chore.grows c) := by
  constructor <;> simp [Chore.grows]

theorem Chore.Move.enlist_of_mem (m : Chore.Move now f chore es' chores' f')
    (h : .enlist c ∈ chores') : (f.posts c).length < f.policy.maxWriters := by
  cases m with
  | inspect v hm ha => cases v <;> simp [Chore.ofVerdict] at h
  | resetAll => simp at h
  | @grow c' hlt =>
    obtain rfl : c = c' := by simpa using h
    exact hlt
  | dismiss ha => simp at h
  | _ => simp at h

/-- A crew gets larger by hiring a writer for it, and in no other way. -/
theorem Chore.Move.length_le (m : Chore.Move now f chore es' chores' f')
    (henlist : chore ≠ .enlist c) : (f'.posts c).length ≤ (f.posts c).length := by
  by_cases hrelease : chore = .release c
  · subst hrelease
    cases m with
    | idle hidle => simp [Chore.mayIdle] at hidle
    | vacant hposts ha =>
      rw [ha.posts_eq]
      exact Nat.zero_le _
    | release hposts ha =>
      rw [ha.posts_eq, hposts, List.length_append]
      exact Nat.le_add_right _ _
  by_cases hdismiss : chore = .dismiss c
  · subst hdismiss
    cases m with
    | idle hidle => simp [Chore.mayIdle] at hidle
    | dismiss ha =>
      rw [ha.posts_eq]
      exact Nat.zero_le _
  · exact Nat.le_of_eq (m.length_eq c henlist hrelease hdismiss)

/-- What keeps the crews within the most writers of a category. A fleet that may have none has
crews of one writer. -/
structure Bounded (p : Policy) (f : Fleet) (chores : List Chore) : Prop where
  size_le : ∀ c, (f.posts c).length ≤ max p.maxWriters 1
  grows : ∀ c, chores.countP (Chore.grows c) ≤ 1
  enlist : ∀ c, .enlist c ∈ chores → (f.posts c).length < p.maxWriters

namespace Bounded

theorem chore_step (h : Bounded p f (chore :: chores)) (hp : f.policy = p)
    (m : Chore.Move now f chore es' chores' f') : Bounded p f' (chores' ++ chores) := by
  constructor
  · intro c
    by_cases henlist : chore = .enlist c
    · have hlt := h.enlist c (henlist ▸ List.mem_cons_self)
      subst henlist
      cases m with
      | idle hidle => simp [Chore.mayIdle] at hidle
      | enlist he =>
        rw [he.length_eq, if_pos rfl]
        omega
    · exact Nat.le_trans (m.length_le henlist) (h.size_le c)
  · exact fun c => m.countP_le_one (Chore.inherited_grows c) (h.grows c)
  · intro c hmem
    rcases List.mem_append.1 hmem with hmem | hmem
    · have hlt := m.enlist_of_mem hmem
      have hne : chore ≠ .enlist c := by
        rintro rfl
        cases m <;> simp at hmem
      exact Nat.lt_of_le_of_lt (m.length_le hne) (hp ▸ hlt)
    · have hne : chore ≠ .enlist c := by
        rintro rfl
        exact not_mem_of_countP_le_one (h.grows c) (by simp [Chore.grows]) (by simp [Chore.grows])
          hmem
      exact Nat.lt_of_le_of_lt (m.length_le hne) (h.enlist c (List.mem_cons_of_mem _ hmem))

theorem resize (h : Bounded p f chores) (hlen : ∀ c, (f'.posts c).length = (f.posts c).length) :
    Bounded p f' chores where
  size_le c := by
    rw [hlen]
    exact h.size_le c
  grows := h.grows
  enlist c hmem := by
    rw [hlen]
    exact h.enlist c hmem

/-- Chores come up that look at each category once. -/
theorem assign (h : Bounded p f []) (hgrows : ∀ c, chores.countP (Chore.grows c) ≤ 1)
    (henlist : ∀ c, .enlist c ∉ chores) : Bounded p f chores :=
  ⟨h.size_le, hgrows, fun c hmem => absurd hmem (henlist c)⟩

end Bounded

/-- No crew is ever larger than its category may be. -/
theorem Run.bounded (h : Run p es now f chores) : Bounded p f chores := by
  induction h with
  | start now t => exact ⟨fun c => Nat.le_of_eq (length_posts_start p now t c), by simp, by simp⟩
  | wait _ _ ih => exact ih
  | write _ _ _ ih =>
    refine ih.resize fun c => ?_
    unfold Fleet.replace
    rw [posts_mapWriters, List.length_map]
  | route c' key _ _ hpost ih =>
    obtain ⟨place, posts', -, hroutes, ha⟩ :=
      route_spec key (List.ne_nil_of_mem (List.mem_of_getElem? hpost))
    exact ih.resize (ha.length_eq hroutes.length_eq)
  | send _ _ hs _ ih =>
    obtain ⟨post, w, -, -, ha⟩ := send_spec hs
    exact ih.resize (ha.length_eq (List.length_set ..))
  | check _ _ ih => exact ih.assign (fun c => by cases c <;> decide) (by simp [checkChores])
  | dismiss _ _ ih => exact ih.assign (fun c => by cases c <;> decide) (by simp [shutdownChores])
  | chore hrun hstep ih => exact ih.chore_step hrun.staff.policy_eq (Chore.move_of_step? hstep)

/-! ## Who is hired -/

/-- The writers in the places of closed ones. -/
def substitutes : List Member → List Member → List Writer
  | old :: olds, new :: news =>
    if old.writer.isClosed then new.writer :: substitutes olds news else substitutes olds news
  | _, _ => []

/-- The writers that the next step of a chore hires. -/
def Chore.hires (now : Nat) (f : Fleet) (t : Store) : Chore → List Writer
  | inspect c => substitutes (f.crew c).members (manned c now f t).1
  | enlist _ => [(f.hire now t).1.writer]
  | _ => []

/-- Writers with the numbers from `n` on, each with the next one. -/
def Numbered (n n' : Nat) (ws : List Writer) : Prop :=
  n' = n + ws.length ∧ ws.map Writer.id = List.range' n ws.length

theorem numbered_nil (n : Nat) : Numbered n n [] := ⟨rfl, rfl⟩

theorem Numbered.cons {n n' : Nat} {w : Writer} {ws : List Writer} (h : Numbered (n + 1) n' ws)
    (hid : w.id = n) : Numbered n n' (w :: ws) := by
  obtain ⟨hn, hids⟩ := h
  constructor
  · rw [hn, List.length_cons]
    omega
  · rw [List.map_cons, List.length_cons, List.range'_succ, hid, hids]

theorem numbered_substitutes (c : Category) (now : Nat) (ms : List Member) (s : Fleet × Store) :
    let s' := Chore.replaceDead c now ms s
    Numbered s.1.nextId s'.2.1.1.nextId (substitutes ms s'.1) := by
  induction ms generalizing s with
  | nil => exact numbered_nil _
  | cons m ms ih =>
    obtain ⟨f, t⟩ := s
    unfold Chore.replaceDead
    cases hm : m.writer.isClosed with
    | true =>
      have hrest := ih ((f.hire now t).2.1, (f.hire now t).2.2)
      simp only [if_true, substitutes, hm]
      exact hrest.cons rfl
    | false =>
      simp only [Bool.false_eq_true, if_false, substitutes, hm]
      exact ih (f, t)

theorem Chore.Move.nextId_eq (m : Chore.Move now f chore es' chores' f')
    (hinspect : ∀ c, chore ≠ .inspect c) (henlist : ∀ c, chore ≠ .enlist c) :
    f'.nextId = f.nextId := by
  cases m with
  | inspect => exact absurd rfl (hinspect _)
  | enlist => exact absurd rfl (henlist _)
  | clear _ _ _ _ ha | vacant _ ha | release _ ha | dismiss ha => exact ha.nextId_eq
  | _ => rfl

/-- Whoever a chore hires gets the next number. -/
theorem Chore.numbered_hires {t : Store} {turn : Chore.Turn}
    (hstep : chore.step? now f t = some turn) :
    Numbered f.nextId turn.fleet.nextId (chore.hires now f t) := by
  have hmove := Chore.move_of_step? hstep
  cases chore with
  | inspect c =>
    obtain rfl := Option.some.inj hstep
    have hnext : (Chore.inspectStep c now f t).fleet.nextId =
        (Chore.replaceDead c now (f.crew c).members (f, t)).2.1.1.nextId := by
      cases c <;> rfl
    rw [hnext]
    exact numbered_substitutes c now (f.crew c).members (f, t)
  | enlist c =>
    obtain rfl := Option.some.inj hstep
    refine ⟨?_, rfl⟩
    cases c <;> rfl
  | _ =>
    rw [hmove.nextId_eq (by simp) (by simp)]
    exact numbered_nil _

theorem nextId_route (f : Fleet) (c : Category) (key : String) :
    (f.route c key).2.nextId = f.nextId := by
  cases c <;> rfl

theorem nextId_send {s : Slot} {r : Request} {note : Note} (hs : f.send? s r = some (f', note)) :
    f'.nextId = f.nextId := by
  obtain ⟨post, w, -, -, ha⟩ := send_spec hs
  exact ha.nextId_eq

theorem nextId_passOn (q : Backlog.Pass) (b : Backlog) (f : Fleet) :
    (Backlog.passOn q b f).2.2.1.nextId = f.nextId := by
  rcases Backlog.passOn_cases q b f with ⟨-, heq⟩ | ⟨r, rest, -, ho⟩
  · rw [heq]
  · have hroute := f.nextId_route r.category r.key
    rcases ho.fleet_eq with ⟨hf, -⟩ | ⟨note, hsend, -⟩
    · rw [hf, hroute]
    · exact (nextId_send hsend).trans hroute

/-! ## Managed fleets -/

/-- The runs of a fleet as its owner has them, with the writers hired so far, and whether the fleet
was dismissed. Keys are routed, requests sent to any place, and backlogs worked off while there are
no chores; the writers work, the store changes and time passes at any time. -/
inductive Managed (p : Policy) : List Writer → Bool → Nat → Fleet → List Chore → Prop
  | start (now : Nat) (t : Store) :
      Managed p (Fleet.start p now t).1.writers false now (Fleet.start p now t).1 []
  | wait {hired : List Writer} {closed : Bool} {now now' : Nat} {f : Fleet} {chores : List Chore} :
      Managed p hired closed now f chores → now ≤ now' → Managed p hired closed now' f chores
  | write {hired : List Writer} {closed : Bool} {now : Nat} {f : Fleet} {chores : List Chore}
      {t : Store} {w : Writer} {turn : Writer.Turn} :
      Managed p hired closed now f chores → w ∈ f.writers → w.step? now t = some turn →
        Managed p hired closed now (f.replace turn.writer) chores
  | route {hired : List Writer} {now : Nat} {f : Fleet} (c : Category) (key : String) :
      Managed p hired false now f [] → Managed p hired false now (f.route c key).2 []
  | send {hired : List Writer} {now : Nat} {f f' : Fleet} {s : Slot} {r : Request} {note : Note} :
      Managed p hired false now f [] → f.send? s r = some (f', note) →
        Managed p hired false now f' []
  | pass {hired : List Writer} {now : Nat} {f : Fleet} (q : Backlog.Pass) (b : Backlog) :
      Managed p hired false now f [] →
        Managed p hired false now (Backlog.passOn q b f).2.2.1 []
  | check {hired : List Writer} {now : Nat} {f : Fleet} :
      Managed p hired false now f [] → Managed p hired false now f checkChores
  | dismiss {hired : List Writer} {now : Nat} {f : Fleet} :
      Managed p hired false now f [] → Managed p hired true now f shutdownChores
  | chore {hired : List Writer} {closed : Bool} {now : Nat} {f : Fleet} {chore : Chore}
      {chores : List Chore} {t : Store} {turn : Chore.Turn} :
      Managed p hired closed now f (chore :: chores) → chore.step? now f t = some turn →
        Managed p (hired ++ chore.hires now f t) closed now turn.fleet (turn.chores ++ chores)

namespace Run

/-- Routing leads to a writer that is there. -/
theorem route_post (h : Run p es now f []) (hopen : .dismissed ∉ es) (c : Category)
    (key : String) : ∃ post,
      (f.posts c)[(f.route c key).1.place]? = some post ∧
        Run p (es ++ [.routed c key post.writer.id]) now (f.route c key).2 [] := by
  obtain ⟨place, post, hslot, hpost, -⟩ := h.route_owner hopen c key
  have hat : (f.posts c)[(f.route c key).1.place]? = some post := by rwa [hslot]
  exact ⟨post, hat, h.route c key hopen hat⟩

theorem pass (h : Run p es now f []) (hopen : .dismissed ∉ es) (q : Backlog.Pass) (b : Backlog) :
    ∃ es', Run p (es ++ es') now (Backlog.passOn q b f).2.2.1 [] ∧ .dismissed ∉ es ++ es' := by
  rcases Backlog.passOn_cases q b f with ⟨-, heq⟩ | ⟨r, rest, -, ho⟩
  · rw [heq]
    exact ⟨[], by simpa using h, by simpa using hopen⟩
  · obtain ⟨post, hpost, hrun⟩ := h.route_post hopen r.category r.key
    have hopen' : .dismissed ∉ es ++ [Event.routed r.category r.key post.writer.id] := by
      simpa using hopen
    rcases ho.fleet_eq with ⟨hf, -⟩ | ⟨note, hsend, -⟩
    · rw [hf]
      exact ⟨_, hrun, hopen'⟩
    · obtain ⟨post', w, hpost', -, -⟩ := send_spec hsend
      have hsent := hrun.send hopen' hsend hpost'
      rw [List.append_assoc] at hsent
      exact ⟨_, hsent, by simpa using hopen⟩

end Run

variable {hired : List Writer} {closed : Bool}

namespace Managed

/-- A managed fleet is in a run. -/
theorem run (h : Managed p hired closed now f chores) :
    ∃ es, Run p es now f chores ∧ (.dismissed ∈ es ↔ closed = true) := by
  induction h with
  | start now t => exact ⟨[], .start now t, by simp⟩
  | wait _ hle ih =>
    obtain ⟨es, hrun, hd⟩ := ih
    exact ⟨es, hrun.wait hle, hd⟩
  | write _ hw hstep ih =>
    obtain ⟨es, hrun, hd⟩ := ih
    exact ⟨_, hrun.write hw hstep, by simpa using hd⟩
  | route c key _ ih =>
    obtain ⟨es, hrun, hd⟩ := ih
    obtain ⟨post, -, hrouted⟩ := hrun.route_post (by simpa using hd) c key
    exact ⟨_, hrouted, by simpa using hd⟩
  | send _ hs ih =>
    obtain ⟨es, hrun, hd⟩ := ih
    obtain ⟨post, w, hpost, -, -⟩ := send_spec hs
    exact ⟨_, hrun.send (by simpa using hd) hs hpost, by simpa using hd⟩
  | pass q b _ ih =>
    obtain ⟨es, hrun, hd⟩ := ih
    obtain ⟨es', hpass, hopen⟩ := hrun.pass (by simpa using hd) q b
    exact ⟨_, hpass, by simpa using hopen⟩
  | check _ ih =>
    obtain ⟨es, hrun, hd⟩ := ih
    exact ⟨es, hrun.check (by simpa using hd), hd⟩
  | dismiss _ ih =>
    obtain ⟨es, hrun, hd⟩ := ih
    exact ⟨_, hrun.dismiss (by simpa using hd), by simp⟩
  | @chore hired closed now f chore chores t turn _ hstep ih =>
    obtain ⟨es, hrun, hd⟩ := ih
    have hkeeps : .dismissed ∉ chore.events now f t := (Chore.move_of_step? hstep).not_mem rfl
    refine ⟨_, hrun.chore hstep, ?_⟩
    rw [List.mem_append, or_iff_left hkeeps, hd]

/-- The numbers of the hired writers are those below the next one, each once. -/
theorem numbers (h : Managed p hired closed now f chores) :
    (hired.map Writer.id).Perm (List.range f.nextId) := by
  induction h with
  | start now t =>
    have hroster := (Run.start (p := p) now t).staff.roster
    refine (List.perm_ext_iff_of_nodup hroster.nodup List.nodup_range).2 fun id => ?_
    rw [List.mem_range]
    constructor
    · rintro hid
      obtain ⟨w, hw, rfl⟩ := List.mem_map.1 hid
      exact hroster.lt w hw
    · intro hlt
      simpa using hroster.known id hlt
  | wait _ _ ih | check _ ih | dismiss _ ih => exact ih
  | write _ _ _ ih => exact ih
  | route c key _ ih => rwa [nextId_route]
  | send _ hs ih => rwa [nextId_send hs]
  | pass q b _ ih => rwa [nextId_passOn]
  | chore _ hstep ih =>
    obtain ⟨hnext, hids⟩ := Chore.numbered_hires hstep
    rw [hnext, List.map_append, hids, List.range_eq_range', ← List.range'_append_1]
    refine List.Perm.append ?_ (.of_eq ?_)
    · rwa [← List.range_eq_range']
    · rw [Nat.zero_add]

end Managed

/-- What holds of a fleet, dismissed or not, and of all writers that were hired for it. -/
structure Staffing (p : Policy) (hired : List Writer) (dismissed : Bool) (f : Fleet)
    (chores : List Chore) : Prop where
  /-- Until the fleet is dismissed there is a writer in every crew. -/
  manned : dismissed = false → ∀ c, 1 ≤ (f.crew c).size
  /-- No crew is larger than its category may be. -/
  bounded : ∀ c, (f.crew c).size ≤ max 1 p.maxWriters
  /-- Until the fleet is dismissed a key is routed to a place that its crew has, and routing changes
  the size of no crew. -/
  routed : dismissed = false → ∀ c key, ∃ place,
    (f.route c key).1 = ⟨c, place⟩ ∧ place < (f.crew c).size ∧
      ∀ c', ((f.route c key).2.crew c').size = (f.crew c').size
  /-- The writers of the crews have different numbers. -/
  distinct : ((f.general.members ++ f.bulk.members).map fun m => m.writer.id).Nodup
  /-- No number was given to two writers. -/
  hired_once : (hired.map Writer.id).Nodup
  /-- The writers of the crews are among the hired ones. -/
  hired : ∀ c, ∀ m ∈ (f.crew c).members, m.writer.id ∈ hired.map Writer.id
  /-- Once the fleet is dismissed and all is done, the crews are empty. -/
  emptied : dismissed = true → chores = [] → ∀ c, (f.crew c).members = []

theorem nodup_ids_of_writers (h : (f.writers.map Writer.id).Nodup) :
    ((f.general.members ++ f.bulk.members).map fun m => m.writer.id).Nodup := by
  unfold writers at h
  rw [List.map_append] at h
  simpa [Category.all, crew, Function.comp_def] using h.of_append_left

/-- The crews of a fleet are within their bounds at any time, and its writers never share a
number. -/
theorem Managed.staffing (h : Managed p hired closed now f chores) :
    Staffing p hired closed f chores := by
  obtain ⟨es, hrun, hd⟩ := h.run
  have hroster := hrun.staff.roster
  have hopen : closed = false → .dismissed ∉ es := fun hc => by simp [hd, hc]
  constructor
  · intro hc c
    rw [← length_posts]
    exact List.length_pos_iff.2 ((hrun.crewed (hopen hc)).ne_nil c)
  · intro c
    rw [← length_posts, Nat.max_comm]
    exact hrun.bounded.size_le c
  · intro hc c key
    obtain ⟨place, posts', hslot, hroutes, ha⟩ :=
      route_spec key ((hrun.crewed (hopen hc)).ne_nil c)
    refine ⟨place, hslot, ?_, fun c' => ?_⟩
    · rw [← length_posts]
      cases hroutes with
      | owned hpost => exact (List.getElem?_eq_some_iff.1 hpost).1
      | new hlt => exact hlt
    · rw [← length_posts, ← length_posts]
      exact ha.length_eq hroutes.length_eq c'
  · exact nodup_ids_of_writers hroster.nodup
  · exact h.numbers.nodup_iff.2 List.nodup_range
  · intro c m hm
    have hmem : m.post ∈ f.posts c := List.mem_map_of_mem hm
    exact h.numbers.mem_iff.2 (List.mem_range.2 (hroster.lt _ (mem_writers_of_post hmem)))
  · rintro hc rfl c
    have hnil := hrun.writers_eq_nil (hd.2 hc)
    refine List.eq_nil_iff_forall_not_mem.2 fun m hm => ?_
    have hmem : m.post.writer ∈ f.writers := mem_writers_of_post (List.mem_map_of_mem hm)
    rw [hnil] at hmem
    exact absurd hmem List.not_mem_nil

/-! ## A fleet that replaces, sheds and adds writers -/

section Bench

variable {b b' : Dispatch.Bench}

theorem Managed.bench_step (h : Managed p hired closed b.now b.dispatch.fleet chores)
    (htasks : b.tasks = chores.map .chore) (hs : b.step? = some b') :
    ∃ hired' chores', Managed p hired' closed b'.now b'.dispatch.fleet chores' ∧
      b'.tasks = chores'.map .chore := by
  rcases bench_step_cases htasks hs with
    ⟨chore, rest, turn, rfl, hstep, hnow, hfleet, htasks'⟩ |
    ⟨w, turn, hw, hstep, hnow, hfleet, htasks'⟩
  · rw [hnow, hfleet]
    exact ⟨_, _, h.chore hstep, htasks'⟩
  · rw [hnow, hfleet]
    exact ⟨_, _, h.write hw hstep, htasks'⟩

/-- A bench that goes on manages its fleet. -/
theorem Managed.bench_finish (h : Managed p hired closed b.now b.dispatch.fleet chores)
    (htasks : b.tasks = chores.map .chore) (done : Dispatch.Bench → Bool) (fuel : Nat) :
    ∃ hired' chores', Managed p hired' closed (Timed.finish done fuel b).now
        (Timed.finish done fuel b).dispatch.fleet chores' ∧
      (Timed.finish done fuel b).tasks = chores'.map .chore := by
  refine Timed.finish_induction
    (P := fun b => ∃ hired' chores', Managed p hired' closed b.now b.dispatch.fleet chores' ∧
      b.tasks = chores'.map .chore) ?_ ?_ done fuel ⟨hired, chores, h, htasks⟩
  · rintro b b' ⟨hired', chores', h', htasks'⟩ hs
    exact h'.bench_step htasks' hs
  · rintro b t ⟨hired', chores', h', htasks'⟩
    exact ⟨hired', chores', h'.wait (Nat.le_max_right _ _), htasks'⟩

/-- A bench that does some chores to their end. -/
theorem Managed.perform (h : Managed p hired closed b.now b.dispatch.fleet chores) (fuel : Nat)
    (hdone : (b.perform fuel (chores.map .chore)).tasks = []) :
    ∃ hired', Managed p hired' closed (b.perform fuel (chores.map .chore)).now
      (b.perform fuel (chores.map .chore)).dispatch.fleet [] := by
  have hbegun : Managed p hired closed { b with tasks := chores.map .chore }.now
      { b with tasks := chores.map .chore }.dispatch.fleet chores := h
  obtain ⟨hired', chores', hrun, htasks⟩ :=
    hbegun.bench_finish rfl (fun b => b.tasks.isEmpty) fuel
  obtain rfl : chores' = [] := List.map_eq_nil_iff.1 (htasks.symm.trans hdone)
  exact ⟨hired', hrun⟩

end Bench

/-- Offers the first writer of a category requests of one kind. -/
def offer (c : Category) (sql : String) : Nat → Fleet → Fleet
  | 0, f => f
  | n + 1, f =>
    offer c sql n (((f.send? ⟨c, 0⟩ (.immediate "a" c sql)).map Prod.fst).getD f)

theorem Managed.offer (h : Managed p hired false now f []) (c : Category) (sql : String)
    (n : Nat) : Managed p hired false now (f.offer c sql n) [] := by
  induction n generalizing f with
  | zero => exact h
  | succ n ih =>
    unfold Fleet.offer
    cases hs : f.send? ⟨c, 0⟩ (.immediate "a" c sql) with
    | none => exact ih h
    | some s =>
      obtain ⟨f', note⟩ := s
      exact ih (h.send hs)

/-- Routes a key, and sends requests for it to wherever that leads. -/
def deliver (c : Category) (key : String) : Nat → Fleet → Fleet
  | 0, f => f
  | n + 1, f =>
    let (s, f) := f.route c key
    deliver c key n (((f.send? s (.immediate key c "delete from t")).map Prod.fst).getD f)

theorem Managed.deliver (h : Managed p hired false now f []) (c : Category) (key : String)
    (n : Nat) : Managed p hired false now (f.deliver c key n) [] := by
  induction n generalizing f with
  | zero => exact h
  | succ n ih =>
    unfold Fleet.deliver
    have hrouted := h.route c key
    dsimp only
    cases hs : (f.route c key).2.send? (f.route c key).1 (.immediate key c "delete from t") with
    | none => exact ih hrouted
    | some s =>
      obtain ⟨f', note⟩ := s
      exact ih (hrouted.send hs)

/-- A fleet that had two writers in every crew, after one of them crashed over a request. -/
def crashedBench : Dispatch.Bench :=
  Timed.finish (fun b => b.dispatch.fleet.writers.any Writer.isClosed) 100
    { store := { fatal := some "drop" }
      dispatch :=
        { fleet := (Fleet.start samplePolicy 0 {}).1.offer .general "drop table t" 1
          backlog := { capacity := 1 } } }

/-- Looks at the fleet of a bench and does what follows. -/
def recheck (b : Dispatch.Bench) : Dispatch.Bench := b.perform 400 (checkChores.map .chore)

/-- The check has replaced the writer and taken one out of each crew; then a queue was filled. -/
def loadedBench : Dispatch.Bench :=
  let b := recheck crashedBench
  { b with
    dispatch := { b.dispatch with fleet := b.dispatch.fleet.offer .general "delete from t" 4 } }

/-- The queue was still full at the third check, so that a writer was added. -/
def grownBench : Dispatch.Bench := recheck (recheck (recheck loadedBench))

/-- The fleet was dismissed. -/
def emptiedBench : Dispatch.Bench := grownBench.perform 400 (shutdownChores.map .chore)

theorem Managed.recheck {b : Dispatch.Bench} (h : Managed p hired false b.now b.dispatch.fleet [])
    (hdone : (recheck b).tasks.isEmpty = true) :
    ∃ hired', Managed p hired' false (recheck b).now (recheck b).dispatch.fleet [] :=
  h.check.perform 400 (List.isEmpty_iff.1 hdone)

theorem managed_grownBench :
    ∃ hired, Managed samplePolicy hired false grownBench.now grownBench.dispatch.fleet [] := by
  have hstart := (Managed.start (p := samplePolicy) 0 {}).offer .general "drop table t" 1
  obtain ⟨hired, chores, hcrashed, htasks⟩ := hstart.bench_finish
    (b := { store := { fatal := some "drop" }
            dispatch :=
              { fleet := (Fleet.start samplePolicy 0 {}).1.offer .general "drop table t" 1
                backlog := { capacity := 1 } } }) rfl
    (fun b => b.dispatch.fleet.writers.any Writer.isClosed) 100
  have hidle : crashedBench.tasks.isEmpty = true := by decide +kernel
  obtain rfl : chores = [] := List.map_eq_nil_iff.1 (htasks.symm.trans (List.isEmpty_iff.1 hidle))
  obtain ⟨hired, hshrunk⟩ := hcrashed.recheck (by decide +kernel)
  have hloaded : Managed samplePolicy hired false loadedBench.now loadedBench.dispatch.fleet [] :=
    hshrunk.offer .general "delete from t" 4
  obtain ⟨hired, hfirst⟩ := hloaded.recheck (by decide +kernel)
  obtain ⟨hired, hsecond⟩ := hfirst.recheck (by decide +kernel)
  exact hsecond.recheck (by decide +kernel)

theorem staffing_sample :
    (∃ hired now f, Managed samplePolicy hired false now f [] ∧
      (f.crew .general).members.map (fun m => m.writer.id) = [4, 5] ∧
      Staffing samplePolicy hired false f []) ∧
    ∃ hired now f, Managed samplePolicy hired true now f [] ∧ hired.length = 6 ∧
      Staffing samplePolicy hired true f [] := by
  obtain ⟨hired, hgrown⟩ := managed_grownBench
  obtain ⟨hired', hemptied⟩ :=
    hgrown.dismiss.perform 400 (List.isEmpty_iff.1 (by decide +kernel))
  have hnext : emptiedBench.dispatch.fleet.nextId = 6 := by decide +kernel
  have hlen : hired'.length = 6 := by
    have hlen := hemptied.numbers.length_eq
    rw [List.length_map, List.length_range] at hlen
    exact hlen.trans hnext
  exact ⟨⟨_, _, _, hgrown, by decide +kernel, hgrown.staffing⟩,
    ⟨_, _, _, hemptied, hlen, hemptied.staffing⟩⟩

end BmpFeed.Fleet
