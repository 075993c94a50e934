import BmpFeed.Proofs.Intake.Inline
import BmpFeed.Proofs.Intake.Watch
import BmpFeed.Proofs.Routers

/-!
# Reconnects

A router that connects again has its peers marked down. `Watched.reconnects` says for which rows of
a router message this happens if the store, whenever it is asked, tells which routers are up: the
intake then counts from at most one connection for each router, however many there are. So it also
marks down peers of routers that still have a connection, if one message ends a connection and opens
another (`marks_live_peers`).
-/

namespace BmpFeed.Intake

open Routers (Tells live liveAfter names actionOf marksFrom calledFor)

variable {w : World} {s : Settings} {log past later : List Sight} {now : Nat} {i : Intake}
  {stopping : Bool} {t : Store} {turn : Turn} {task : Task} {ts rest : List Task}
  {m : Feed.Message} {r : Routers}

/-! ## Rows of routers -/

/-- The rows of a router message. -/
def routerRows (m : Feed.Message) : List Record :=
  match Kind.classify m.tag m.topic, Record.decode m.payload with
  | some .router, .ok rows => rows
  | _, _ => []

/-- The rows of all router messages that were taken up. -/
def history (log : List Sight) : List Record :=
  (takings (journalOf log)).flatMap fun x => routerRows x.1

@[simp] theorem history_append (log log' : List Sight) :
    history (log ++ log') = history log ++ history log' := by
  simp [history]

/-- Whenever the routers are read, the store tells which of them are up. -/
def Truthful (log : List Sight) : Prop :=
  ∀ past rows later, log = past ++ .refreshed rows :: later → Tells rows (history past)

theorem Truthful.of_append {log' : List Sight} (h : Truthful (log ++ log')) : Truthful log :=
  fun past rows later hlog => h past rows (later ++ log') (by rw [hlog]; simp)

theorem takings_entries (hts : i.tasks = task :: rest) (hmessage : ∀ m, task ≠ .handle m) :
    takings (i.entries now t) = [] := by
  cases task with
  | run q =>
    unfold entries queryEntries
    rw [hts]
    dsimp only
    split <;> first | rfl | (split_ifs <;> rfl)
  | _ => exact (aloof_entries hts hmessage (by simp)).takings_eq

/-- Only messages add rows. -/
theorem history_sights (hts : i.tasks = task :: rest) (hmessage : ∀ m, task ≠ .handle m) :
    history (i.sights now t turn) = [] := by
  unfold history
  rw [journalOf_sights, takings_entries hts hmessage]
  rfl

theorem history_handle (hts : i.tasks = .handle m :: rest) :
    history (i.sights now t turn) = routerRows m := by
  have hentries : takings (i.entries now t) = [(m, i.due m)] := by
    unfold entries
    rw [hts]
    dsimp only
    rw [← List.singleton_append, takings_append, (aloof_map_dispatch _ _).takings_eq]
    rfl
  unfold history
  rw [journalOf_sights, hentries]
  exact List.append_nil _

theorem history_writer (v : Writer) : history ((writerEntries v t).map .noted) = [] := by
  unfold history
  rw [journalOf_map, (aloof_writerEntries v t).takings_eq]
  rfl

/-! ## Tasks about routers -/

/-- Tasks that neither change the counts nor lead at once to one that does. -/
def Task.isStill : Task → Bool
  | .start | .routers _ | .refresh => false
  | _ => true

/-- Tasks that may stand before one about the routers. -/
def Task.isErrand : Task → Bool
  | .run _ | .beat | .peersDown _ => true
  | _ => false

def Still (ts : List Task) : Prop := ∀ t ∈ ts, t.isStill = true

def Errands (ts : List Task) : Prop := ∀ t ∈ ts, t.isErrand = true

theorem isStill_of_leadsTo {next : Task} (h : task.leadsTo next = true)
    (htask : task.isStill = true) (hmessage : ∀ m, task ≠ .handle m) : next.isStill = true := by
  cases next with
  | start | refresh | routers rows =>
    cases task with
    | handle m => exact absurd rfl (hmessage m)
    | start | refresh | routers rows => exact absurd htask (by simp [Task.isStill])
    | _ => exact absurd h (by simp [Task.leadsTo])
  | _ => rfl

theorem isErrand_of_leadsTo {next : Task} (h : task.leadsTo next = true)
    (htask : task.isErrand = true) : next.isErrand = true := by
  cases task with
  | run q | peersDown sql =>
    cases next with
    | run q => rfl
    | _ => exact absurd h (by simp [Task.leadsTo])
  | beat => exact absurd h (by simp [Task.leadsTo])
  | _ => exact absurd htask (by simp [Task.isErrand])

theorem Still.of_cons (h : Still (task :: rest)) : Still rest := fun t ht =>
  h t (List.mem_cons_of_mem _ ht)

theorem Errands.of_cons (h : Errands (task :: rest)) : Errands rest := fun t ht =>
  h t (List.mem_cons_of_mem _ ht)

theorem errands_inserts (i : Intake) (k : Kind) (rows : List Record) :
    Errands (((i.insert? k rows).map i.query).toList ++ [.beat]) := by
  intro t ht
  rcases List.mem_append.1 ht with ht | ht
  · obtain ⟨sql, -, rfl⟩ := Option.map_eq_some_iff.1 (Option.mem_toList.1 ht)
    rfl
  · obtain rfl := List.mem_singleton.1 ht
    rfl

theorem isStill_of_handle {next : Task} (h : (Task.handle m).leadsTo next = true)
    (hrouters : ∀ rows, next ≠ .routers rows) : next.isStill = true := by
  cases next with
  | routers rows => exact absurd rfl (hrouters rows)
  | start | refresh => exact absurd h (by simp [Task.leadsTo])
  | _ => rfl

theorem routers_not_mem_inlineTasks {k : Kind} (hk : k ≠ .router) (rows rows' : List Record) :
    .routers rows' ∉ i.inlineTasks k rows := by
  have hinsert : .routers rows' ∉ ((i.insert? k rows).map i.query).toList := by
    simp [query]
  cases k with
  | router => exact absurd rfl hk
  | collector | peer => simp [inlineTasks, query]
  | _ => exact hinsert

/-- What becomes of the tasks when a message is taken up that is not about routers. -/
theorem Handled.still (h : Handled i m rest t turn) (hrows : routerRows m = [])
    (hrest : Still rest) : Still turn.intake.tasks := by
  cases h with
  | unknown | refused | empty | unmapped | unkeyed => exact hrest
  | @inline k row rows hkind hdecode =>
    have hrouter : k ≠ .router := by
      rintro rfl
      rw [routerRows, hkind, hdecode] at hrows
      exact absurd hrows (by simp)
    intro t ht
    rcases List.mem_append.1 ht with ht | ht
    · refine isStill_of_handle (leadsTo_inlineTasks m k (row :: rows) t ht) ?_
      rintro rows' rfl
      exact routers_not_mem_inlineTasks hrouter _ _ ht
    · exact hrest t ht
  | batched =>
    intro t ht
    rcases List.mem_cons.1 ht with rfl | ht
    · rfl
    · exact hrest t ht

/-- What becomes of the tasks when a message about routers is taken up. -/
theorem Handled.due {row : Record} (h : Handled i m rest t turn)
    (hrows : routerRows m = row :: rows) :
    turn.intake.tasks = ((i.insert? .router (row :: rows)).map i.query).toList ++ [.beat] ++
      .routers (row :: rows) :: rest := by
  have hclass : Kind.classify m.tag m.topic = some .router := by
    unfold routerRows at hrows
    split at hrows
    · assumption
    · exact absurd hrows (by simp)
  have hdecode : Record.decode m.payload = .ok (row :: rows) := by
    unfold routerRows at hrows
    split at hrows
    · rename_i hd
      rwa [hrows] at hd
    · exact absurd hrows (by simp)
  cases h with
  | unknown hkind => exact absurd (hkind.symm.trans hclass) (by simp)
  | refused _ hd | empty _ hd => exact absurd (hd.symm.trans hdecode) (by simp)
  | @inline k row' rows' hkind hd =>
    obtain rfl := Option.some.inj (hkind.symm.trans hclass)
    obtain ⟨rfl, rfl⟩ := List.cons.inj (Except.ok.inj (hd.symm.trans hdecode))
    rw [List.append_assoc]
    exact List.append_assoc _ [.beat, .routers (row' :: rows')] rest
  | unmapped hkind _ hsync | unkeyed hkind _ hsync | batched hkind _ hsync =>
    obtain rfl := Option.some.inj (hkind.symm.trans hclass)
    exact absurd hsync (by decide)

/-! ## Counts -/

/-- How the counts of the routers stand to the rows so far, by what the tasks have still to do. -/
inductive Outlook (history : List Record) (r : Routers) : List Task → Prop
  | start (h : history = []) (hcounts : ∀ hash, r.connections hash = 0) : Outlook history r [.start]
  /-- The routers have been read. -/
  | steady {ts : List Task} (hts : Still ts)
      (hcounts : ∀ hash, r.connections hash = min (live history hash) 1) : Outlook history r ts
  /-- The rows of a message are to be counted. -/
  | due {before rows : List Record} {errands ts : List Task} (herrands : Errands errands)
      (hts : Still ts) (hhistory : history = before ++ rows)
      (hcounts : ∀ hash, r.connections hash = min (live before hash) 1) :
      Outlook history r (errands ++ .routers rows :: ts)
  /-- The routers are to be read. -/
  | stale {errands ts : List Task} (herrands : Errands errands) (hts : Still ts)
      (hcounts : ∀ hash, (∀ row ∈ history, names hash row = false) → r.connections hash = 0) :
      Outlook history r (errands ++ .refresh :: ts)

namespace Outlook

/-- A task that stands before one about the routers leaves the rest as it is. -/
theorem errand {errands back : List Task} (hts : i.tasks = task :: (errands ++ back))
    (herrands : Errands (task :: errands)) (hstep : i.step? now stopping t = some turn)
    (hcrash : turn.intake.outcome ≠ some .crashed) :
    history (log ++ i.sights now t turn) = history log ∧ turn.intake.routers = i.routers ∧
      ∃ errands', turn.intake.tasks = errands' ++ back ∧ Errands errands' := by
  have htask := herrands task List.mem_cons_self
  have hcut : task.mayCut = false := by
    cases task with
    | run q | beat | peersDown sql => rfl
    | _ => exact absurd htask (by simp [Task.isErrand])
  have hmessage : ∀ m, task ≠ .handle m := by
    rintro m rfl
    exact absurd htask (by simp [Task.isErrand])
  have hrouters : ∀ rows, task ≠ .routers rows := by
    rintro rows rfl
    exact absurd htask (by simp [Task.isErrand])
  have hrefresh : task ≠ .refresh := by
    rintro rfl
    exact absurd htask (by simp [Task.isErrand])
  refine ⟨?_, (kept_of_step hts hstep).routers_eq hrouters hrefresh, ?_⟩
  · rw [history_append, history_sights hts hmessage, List.append_nil]
  · exact (tasks_of_step hts hstep).front hcut (fun _ hled => isErrand_of_leadsTo hled htask)
      herrands.of_cons hcrash

/-- No row so far names a router whose count is left when none of its connections is live. -/
theorem stale_of_apply {before rows : List Record}
    (hcounts : ∀ hash, r.connections hash = min (live before hash) 1) (hash : String)
    (hnone : ∀ row ∈ before ++ rows, names hash row = false) :
    (r.apply rows).1.connections hash = 0 := by
  have hbefore : live before hash = 0 :=
    Routers.liveAfter_of_not_names (fun row hrow => hnone row (List.mem_append_left _ hrow)) 0
  rw [Routers.connections_apply, hcounts, hbefore]
  exact Routers.liveAfter_of_not_names (fun row hrow => hnone row (List.mem_append_right _ hrow)) _

/-- A step that is neither about a message nor about the routers. -/
theorem steady_step (hts : i.tasks = task :: rest) (hstill : Still (task :: rest))
    (hcounts : ∀ hash, i.routers.connections hash = min (live (history log) hash) 1)
    (hmessage : ∀ m, task ≠ .handle m) (hstep : i.step? now stopping t = some turn) :
    Outlook (history (log ++ i.sights now t turn)) turn.intake.routers turn.intake.tasks := by
  have htask := hstill task List.mem_cons_self
  have hrouters : turn.intake.routers = i.routers := by
    refine (kept_of_step hts hstep).routers_eq ?_ ?_
    · rintro rows rfl
      exact absurd htask (by simp [Task.isStill])
    · rintro rfl
      exact absurd htask (by simp [Task.isStill])
  rw [history_append, history_sights hts hmessage, List.append_nil, hrouters]
  exact .steady ((tasks_of_step hts hstep).all
    (fun _ h => isStill_of_leadsTo h htask hmessage) hstill.of_cons) hcounts

/-- A message is taken up. -/
theorem handle (hts : i.tasks = .handle m :: rest) (hrest : Still rest)
    (hcounts : ∀ hash, i.routers.connections hash = min (live (history log) hash) 1)
    (hstep : i.step? now stopping t = some turn) :
    Outlook (history (log ++ i.sights now t turn)) turn.intake.routers turn.intake.tasks := by
  have hrouters := (kept_of_step hts hstep).routers_eq (by simp) (by simp)
  rw [history_append, history_handle hts, hrouters]
  cases deed_of_step? hts hstep with
  | handle hm =>
    cases hrows : routerRows m with
    | nil =>
      rw [List.append_nil]
      exact .steady (hm.still hrows hrest) hcounts
    | cons row rows =>
      rw [hm.due hrows]
      exact .due (errands_inserts i .router _) hrest rfl hcounts

/-- A step of an intake keeps its counts as they should be. -/
theorem step (h : Outlook (history log) i.routers i.tasks)
    (htrue : Truthful (log ++ i.sights now t turn)) (hstep : i.step? now stopping t = some turn)
    (hcrash : turn.intake.outcome ≠ some .crashed) :
    Outlook (history (log ++ i.sights now t turn)) turn.intake.routers turn.intake.tasks := by
  generalize hts : i.tasks = ts at h
  cases h with
  | start hnil hcounts =>
    cases deed_of_step? hts hstep
    rw [history_append, history_sights hts (by simp), List.append_nil]
    show Outlook _ _ ([] ++ .refresh :: [.cycle])
    exact .stale (by simp [Errands]) (by simp [Still, Task.isStill]) fun hash _ => hcounts hash
  | steady hstill hcounts =>
    cases ts with
    | nil =>
      obtain ⟨task, rest, hts', -⟩ := exists_deed hstep
      exact absurd (hts.symm.trans hts') (by simp)
    | cons task rest =>
      by_cases hmessage : ∃ m, task = .handle m
      · obtain ⟨m, rfl⟩ := hmessage
        exact handle hts hstill.of_cons hcounts hstep
      · exact steady_step hts hstill hcounts (fun m hm => hmessage ⟨m, hm⟩) hstep
  | @due before rows errands ts herrands hstill hhistory hcounts =>
    cases errands with
    | nil =>
      cases deed_of_step? hts hstep
      rw [history_append, history_sights hts (by simp), List.append_nil]
      refine .stale ?_ hstill fun hash hnone => ?_
      · intro t ht
        obtain ⟨sql, -, rfl⟩ := List.mem_map.1 ht
        rfl
      · exact stale_of_apply hcounts hash (hhistory ▸ hnone)
    | cons task errands =>
      obtain ⟨hsame, hrouters, errands', htasks, herrands'⟩ :=
        errand hts herrands hstep hcrash
      rw [hsame, hrouters, htasks]
      exact .due herrands' hstill hhistory hcounts
  | @stale errands ts herrands hstill hcounts =>
    cases errands with
    | nil =>
      cases deed_of_step? hts hstep
      rw [history_append, history_sights hts (by simp), List.append_nil]
      refine .steady hstill fun hash => ?_
      have htells : Tells (i.session.select t Routers.refreshQuery).1 (history log) := by
        refine htrue log _ (calls (i.refreshStep ts t).notes) ?_
        unfold sights entries events findings
        rw [hts]
        rfl
      refine Routers.connections_refresh htells i.routers fun hnil => hcounts hash ?_
      rw [hnil] at htells
      exact htells.not_names hash
    | cons task errands =>
      obtain ⟨hsame, hrouters, errands', htasks, herrands'⟩ :=
        errand hts herrands hstep hcrash
      rw [hsame, hrouters, htasks]
      exact .stale herrands' hstill hcounts

end Outlook

/-! ## Runs -/

theorem Watched.outlook (h : Watched w s log now i) (htrue : Truthful log)
    (hcrash : i.outcome ≠ some .crashed) : Outlook (history log) i.routers i.tasks := by
  induction h with
  | open_ id now t _ => exact .start rfl fun _ => rfl
  | wait _ _ ih => exact ih htrue hcrash
  | bus _ _ ih => exact ih htrue hcrash
  | @write log now i t v turn _ _ _ ih =>
    rw [history_append, history_writer, List.append_nil]
    exact ih htrue.of_append hcrash
  | step hw hstep ih =>
    have hopen := hw.journal.run.outcome_eq_none hstep
    exact (ih htrue.of_append (by simp [hopen])).step htrue hstep hcrash

theorem Outlook.of_handle {history : List Record} (h : Outlook history r (.handle m :: rest)) :
    ∀ hash, r.connections hash = min (live history hash) 1 := by
  generalize hts : Task.handle m :: rest = ts at h
  cases h with
  | start => exact absurd hts (by simp)
  | steady _ hcounts => exact hcounts
  | @due _ _ errands _ herrands =>
    cases errands with
    | nil => exact absurd hts (by simp)
    | cons task errands =>
      obtain ⟨rfl, -⟩ := List.cons.inj hts
      exact absurd (herrands _ List.mem_cons_self) (by simp [Task.isErrand])
  | @stale errands _ herrands =>
    cases errands with
    | nil => exact absurd hts (by simp)
    | cons task errands =>
      obtain ⟨rfl, -⟩ := List.cons.inj hts
      exact absurd (herrands _ List.mem_cons_self) (by simp [Task.isErrand])

/-- A message is taken up by an intake that is about to. -/
theorem Seen.taken {due : List String} (h : Seen w s past (.noted (.taken m due))) :
    ∃ now i rest, Watched w s past now i ∧ i.outcome = none ∧ i.tasks = .handle m :: rest ∧
      due = i.due m := by
  cases h with
  | @step log before after now i stopping t turn _ hw hstep hsights =>
    have hentries : i.entries now t = journalOf before ++ .taken m due :: journalOf after := by
      rw [← journalOf_sights now i t turn, hsights, journalOf_append]
      rfl
    obtain ⟨hbefore, rfl, rest, hts⟩ := entries_taken hentries
    have hfirst : before = [] := by
      cases before with
      | nil => rfl
      | cons b before =>
        unfold sights at hsights
        rw [hentries, hbefore] at hsights
        obtain ⟨rfl, -⟩ := List.cons.inj hsights
        exact absurd hbefore (by simp [journalOf])
    rw [hfirst, List.append_nil]
    exact ⟨now, i, rest, hw, hw.journal.run.outcome_eq_none hstep, hts, rfl⟩
  | @write log before after now i t v turn _ _ _ _ hentries =>
    have hmem : Sight.noted (.taken m due) ∈ (writerEntries v t).map .noted := by
      rw [hentries]
      simp
    simp [writerEntries] at hmem

theorem insert?_nil (i : Intake) (k : Kind) : i.insert? k [] = none := by
  unfold insert?
  cases Sql.Mapping.forKind? i.mappings k with
  | none => rfl
  | some mapping => rfl

/-- The statements for a router message. -/
theorem due_router (hclass : Kind.classify m.tag m.topic = some .router) :
    i.due m = (i.insert? .router (routerRows m)).toList ++
      marksFrom i.routers.connections (routerRows m) := by
  rw [← Routers.corrections_apply]
  unfold due routerRows
  rw [hclass]
  cases Record.decode m.payload with
  | error e => rw [insert?_nil]; rfl
  | ok rows =>
    cases rows with
    | nil => rw [insert?_nil]; rfl
    | cons row rows => rfl

/-! ## Statements for reconnects -/

/-- The corrective statements for the rows of a router message, when the routers have been read
after the rows before it. -/
structure Reconnects (history rows : List Record) (marks : List String) : Prop where
  /-- Each router counts as having one connection at most when the message is taken up. -/
  marks_eq : marks = marksFrom (fun hash => min (live history hash) 1) rows
  /-- Every row that opens a connection of a router without any has its statement. -/
  complete : (calledFor history rows).Sublist marks
  /-- There are no other statements exactly if a router has no connection left at any row that opens
  one and comes after rows that would have ended the only one. -/
  sound_iff : marks = calledFor history rows ↔
    ∀ before r after hash, rows = before ++ r :: after →
      r.text? Correction.hashField = some hash → actionOf r = .opens →
      liveAfter hash 1 before = 0 → live (history ++ before) hash = 0
  /-- So it is if every router has one connection at most or none that the message ends. -/
  sound : (∀ hash, live history hash ≤ 1 ∨
      ∀ r ∈ rows, names hash r = true → actionOf r ≠ .ends) → marks = calledFor history rows
  /-- So it is for a message of one row. -/
  single : rows.length ≤ 1 → marks = calledFor history rows

theorem reconnects_marksFrom (history rows : List Record) :
    Reconnects history rows (marksFrom (fun hash => min (live history hash) 1) rows) := by
  have hle : ∀ hash, min (live history hash) 1 ≤ live history hash := fun _ => Nat.min_le_left _ _
  have hiff : marksFrom (fun hash => min (live history hash) 1) rows = calledFor history rows ↔
      ∀ before r after hash, rows = before ++ r :: after →
        r.text? Correction.hashField = some hash → actionOf r = .opens →
        liveAfter hash 1 before = 0 → live (history ++ before) hash = 0 := by
    rw [Routers.calledFor_eq, eq_comm, Routers.marksFrom_eq_iff hle]
    constructor
    · intro h before r after hash hrows hhash hopens hone
      rw [Routers.live_append]
      exact h before r after hash hrows hhash hopens
        (Routers.liveAfter_min_eq_zero_iff.2 (.inr hone))
    · intro h before r after hash hrows hhash hopens hmin
      rcases Routers.liveAfter_min_eq_zero_iff.1 hmin with hlive | hone
      · exact hlive
      · rw [← Routers.live_append]
        exact h before r after hash hrows hhash hopens hone
  refine ⟨rfl, ?_, hiff, fun hfew => hiff.2 ?_, fun hone => hiff.2 ?_⟩
  · rw [Routers.calledFor_eq]
    exact Routers.marksFrom_sublist hle rows
  · intro before r after hash hrows _ _ hone
    rcases hfew hash with hlive | hnone
    · have hmono := Routers.liveAfter_mono hash hlive before
      rw [Routers.live_append]
      omega
    · have hmem : ∀ r ∈ before, r ∈ rows := fun r hr => by
        rw [hrows]
        exact List.mem_append_left _ hr
      have hmono := Routers.le_liveAfter (fun r hr => hnone r (hmem r hr)) 1
      omega
  · intro before r after hash hrows _ _ hended
    have hbefore : before = [] := by
      rw [hrows, List.length_append, List.length_cons] at hone
      exact List.eq_nil_of_length_eq_zero (by omega)
    rw [hbefore] at hended
    exact absurd hended Nat.one_ne_zero

theorem begun_prefix_pending (r : Routers) (ts : List Task) : begun ts <+: pending r ts := by
  unfold begun
  split
  · split_ifs
    · exact List.nil_prefix
    · exact List.prefix_append _ _
  · exact List.nil_prefix

/-- What a run does about routers that connect again. -/
structure Reconnected (log : List Sight) (i : Intake) : Prop where
  /-- The statements for a router message are its insert and then those for its rows. -/
  called : ∀ past m due later, log = past ++ .noted (.taken m due) :: later →
    Kind.classify m.tag m.topic = some .router →
    ∃ marks, due = (i.insert? .router (routerRows m)).toList ++ marks ∧
      Reconnects (history past) (routerRows m) marks
  /-- The statements that are issued are those that messages call for, in their order. -/
  issued : asked (journalOf log) <+: dues (journalOf log)
  /-- All are issued by an intake that has ended, other than by a statement. -/
  all_issued : i.outcome ≠ none → i.outcome ≠ some .crashed →
    asked (journalOf log) = dues (journalOf log)

/-- What an intake does about routers that connect again, if the store tells which are up. -/
theorem Watched.reconnects (h : Watched w s log now i) (htrue : Truthful log) :
    Reconnected log i where
  called past m due later hlog hclass := by
    obtain ⟨now', i', rest, hpast, hopen, hts, rfl⟩ := (h.seen hlog).taken
    subst hlog
    have hcounts := hts ▸ hpast.outlook htrue.of_append (by simp [hopen])
    have hsame : i'.routers.connections = fun hash => min (live (history past) hash) 1 :=
      funext hcounts.of_handle
    have hinsert : i'.insert? .router (routerRows m) = i.insert? .router (routerRows m) := by
      unfold insert?
      rw [hpast.journal.inline.mappings_eq, h.journal.inline.mappings_eq]
    exact ⟨_, by rw [due_router hclass, hinsert, hsame], reconnects_marksFrom _ _⟩
  issued := by
    obtain ⟨_, r, ts, haccount⟩ := h.journal.exists_account
    rw [haccount.asked_eq, ← haccount.ended_eq]
    exact (List.prefix_append_right_inj _).2 (begun_prefix_pending r ts)
  all_issued hended hcrash := by
    have haccount := h.journal.inline.account hcrash
    rw [h.journal.run.tasks_eq_nil hended] at haccount
    rw [haccount.asked_eq, ← haccount.ended_eq]
    rfl

/-! ## Samples -/

/-- The rows that the store answered when the routers were read. -/
def Sight.answer? : Sight → Option (List Row)
  | .refreshed rows => some rows
  | _ => none

theorem truthful_iff : Truthful log ↔
    ∀ x ∈ log.zipIdx, ∀ rows ∈ x.1.answer?, Tells rows (history (log.take x.2)) := by
  constructor
  · rintro h ⟨x, k⟩ hx rows hrows
    obtain rfl : x = .refreshed rows := by
      cases x <;> simp [Sight.answer?] at hrows
      rw [hrows]
    have hget := List.mk_mem_zipIdx_iff_getElem?.1 hx
    obtain ⟨hk, hget⟩ := List.getElem?_eq_some_iff.1 hget
    refine h _ rows (log.drop (k + 1)) ?_
    rw [← hget, ← List.drop_eq_getElem_cons hk, List.take_append_drop]
  · intro h past rows later hlog
    have hmem : (Sight.refreshed rows, past.length) ∈ log.zipIdx := by
      rw [List.mk_mem_zipIdx_iff_getElem?, hlog]
      simp
    have htells := h _ hmem rows rfl
    rwa [hlog, List.take_left] at htells

instance (log : List Sight) : Decidable (Truthful log) := decidable_of_iff _ truthful_iff.symm

/-- No table is mapped. -/
def bareSettings : Settings := { base := { maxWriters := 1 }, kafka := { patterns := ["t"] } }

/-- One router opens and ends connections. -/
def routerRow (action : String) : String :=
  "\x7b\"hash_id\":\"r\",\"action\":\"" ++ action ++ "\",\"timestamp\":\"1\"\x7d"

def routerOf (actions : List String) : Feed.Message :=
  { topic := "t", key := "r", tag := some "router"
    payload := "[" ++ ",".intercalate (actions.map routerRow) ++ "]" }

/-- The store has the router up, but cannot be reached at first. -/
def routerStore : Store := { rows := [[("hash_id", "r"), ("state", "up")]], refusals := 2 }

/-- An intake that gets messages about the router, each in a batch of its own. -/
def routerReel (messages : List (List String)) : Reel :=
  (Reel.start bareSettings { batches := messages.map fun actions => [routerOf actions] }
    routerStore).finish (fun x => x.trace.intake.hasEnded) 300

theorem watched_routerReel (messages : List (List String)) :
    Watched .any bareSettings (routerReel messages).seen (routerReel messages).trace.now
      (routerReel messages).trace.intake :=
  Reel.watched_finish (Reel.watched_start _ _ trivial) _ 300

/-- The statement for a row of the router that opens its first connection. -/
def routerDown : String := Correction.peersDown "r" "1"

/-- While one of its connections is live, no peers of the router are marked down when it connects
again. -/
theorem reconnects_sample :
    ∃ log now i, Watched .any bareSettings log now i ∧ Truthful log ∧
      takings (journalOf log) =
        [(routerOf ["init", "init"], [routerDown]), (routerOf ["term"], []),
          (routerOf ["init"], [])] ∧
      Reconnected log i := by
  have hwatched := watched_routerReel [["init", "init"], ["term"], ["init"]]
  have hseen : Truthful (routerReel [["init", "init"], ["term"], ["init"]]).seen ∧
      takings (journalOf (routerReel [["init", "init"], ["term"], ["init"]]).seen) =
        [(routerOf ["init", "init"], [routerDown]), (routerOf ["term"], []),
          (routerOf ["init"], [])] := by decide +kernel
  exact ⟨_, _, _, hwatched, hseen.1, hseen.2, hwatched.reconnects hseen.1⟩

/-- The last message that was taken up. -/
theorem exists_last_taken {earlier : List (Feed.Message × List String)} {due : List String}
    (h : takings (journalOf log) = earlier ++ [(m, due)]) :
    ∃ past later, log = past ++ .noted (.taken m due) :: later ∧
      takings (journalOf past) = earlier := by
  have hne : takings (journalOf log) ≠ [] := by simp [h]
  obtain ⟨past', m', due', later', hlog, htakings⟩ := exists_last_taking hne
  obtain ⟨hearlier, hlast⟩ := List.append_inj' (h.symm.trans htakings) rfl
  obtain ⟨rfl, rfl⟩ : m = m' ∧ due = due' := by simpa using hlast
  obtain ⟨past, rest, rfl, hpast, hrest⟩ := List.filterMap_eq_append_iff.1 hlog
  obtain ⟨between, x, later, rfl, hbetween, hx, -⟩ := List.filterMap_eq_cons_iff.1 hrest
  obtain rfl : x = .noted (.taken m due) := by
    cases x <;> simp at hx
    rw [hx]
  refine ⟨past ++ between, later, by simp, ?_⟩
  have hnil : journalOf between = [] := List.filterMap_eq_nil_iff.2 hbetween
  have hpast' : journalOf past = past' := hpast
  rw [journalOf_append, hnil, List.append_nil, hpast', hearlier]

/-- An intake marks the peers of a router down though one of its two connections is live: after both
were opened, one message ends one of them and opens another. -/
theorem marks_live_peers :
    ∃ log now i past due later, Watched .any bareSettings log now i ∧ Truthful log ∧
      log = past ++ .noted (.taken (routerOf ["term", "init"]) due) :: later ∧
      live (history past) "r" = 2 ∧
      live (history past ++ (routerRows (routerOf ["term", "init"])).take 1) "r" = 1 ∧
      calledFor (history past) (routerRows (routerOf ["term", "init"])) = [] ∧
      due = [routerDown] ∧ asked (journalOf log) = dues (journalOf log) := by
  obtain ⟨htrue, htakings, hissued⟩ :
      Truthful (routerReel [["init", "init"], ["term", "init"]]).seen ∧
        takings (journalOf (routerReel [["init", "init"], ["term", "init"]]).seen) =
          [(routerOf ["init", "init"], [routerDown])] ++
            [(routerOf ["term", "init"], [routerDown])] ∧
        asked (journalOf (routerReel [["init", "init"], ["term", "init"]]).seen) =
          dues (journalOf (routerReel [["init", "init"], ["term", "init"]]).seen) := by
    decide +kernel
  obtain ⟨past, later, hlog, hpast⟩ := exists_last_taken htakings
  have hhistory : history past = routerRows (routerOf ["init", "init"]) := by
    unfold history
    rw [hpast]
    exact List.append_nil _
  have hrows : live (routerRows (routerOf ["init", "init"])) "r" = 2 ∧
      live (routerRows (routerOf ["init", "init"]) ++
        (routerRows (routerOf ["term", "init"])).take 1) "r" = 1 ∧
      calledFor (routerRows (routerOf ["init", "init"]))
        (routerRows (routerOf ["term", "init"])) = [] := by decide +kernel
  rw [← hhistory] at hrows
  exact ⟨_, _, _, past, _, later, watched_routerReel _, htrue, hlog, hrows.1, hrows.2.1,
    hrows.2.2, rfl, hissued⟩

end BmpFeed.Intake
