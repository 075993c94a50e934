import BmpFeed.Proofs.Backlog
import BmpFeed.Proofs.Intake.Deeds
import BmpFeed.Proofs.Intake.Watch

/-!
# Calls on the bus

Neither the store, nor the fleet, nor the backlog says anything of the bus. So only few tasks of an
intake call on it, and all others do so at most to show a sign of life (`Intake.quiet_of_step`).
-/

namespace BmpFeed

open Intake (calls)

@[simp] theorem calls_append (notes notes' : List Note) :
    calls (notes ++ notes') = calls notes ++ calls notes' :=
  List.filterMap_append

variable {now : Nat} {t : Store}

/-! ## The store -/

theorem calls_connect (s : Store.Session) (t : Store) : calls (s.connect t).notes = [] := by
  unfold Store.Session.connect
  split <;> rfl

theorem calls_ensure (s : Store.Session) (t : Store) : calls (s.ensure t).notes = [] := by
  unfold Store.Session.ensure
  split_ifs
  · rfl
  · exact calls_connect s t

theorem calls_select (s : Store.Session) (t : Store) (sql : String) :
    calls (s.select t sql).2.notes = [] := by
  unfold Store.Session.select Store.Session.ask
  dsimp only
  rw [calls_append, calls_ensure]
  split_ifs <;> rfl

namespace Store.Query

variable {pauses : Writer.Pauses} {q q' : Query} {s : Session} {e : Exchange}

theorem calls_onFault (pauses : Writer.Pauses) (now : Nat) (q : Query) (f : Fault) (s : Session)
    (t : Store) : calls (q.onFault pauses now f s t).2.notes = [] := by
  unfold onFault
  cases f <;> dsimp only <;> split_ifs <;> rfl

theorem calls_issue (q : Query) (s : Session) : calls (q.issue pauses now s t).2.notes = [] := by
  unfold issue
  split_ifs
  · rfl
  · rfl
  · exact calls_onFault pauses now q Fault.noConnection s t
  · rfl

theorem calls_step (h : q.step? pauses now s t = some (q', e)) : calls e.notes = [] := by
  unfold step? at h
  split at h
  · obtain ⟨rfl, rfl⟩ := Prod.mk.inj (Option.some.inj h)
    exact calls_ensure s t
  · obtain rfl := congrArg Prod.snd (Option.some.inj h)
    exact calls_issue q s
  · split_ifs at h
    obtain rfl := congrArg Prod.snd (Option.some.inj h)
    unfold answered
    split
    · rfl
    · exact calls_onFault pauses now q _ _ _
  · obtain rfl := congrArg Prod.snd (Option.some.inj h)
    unfold relink
    dsimp only
    split_ifs <;> exact calls_connect s t
  · split_ifs at h
    obtain rfl := congrArg Prod.snd (Option.some.inj h)
    rfl
  · split_ifs at h
    obtain rfl := congrArg Prod.snd (Option.some.inj h)
    rfl
  · exact absurd h (by simp)
  · exact absurd h (by simp)

end Store.Query

/-! ## Dispatch -/

namespace Fleet

variable {c : Category} {f : Fleet}

theorem calls_weigh (p : Policy) (c : Category) (size place : Nat) (m : Member) :
    calls (p.weigh c size place m).2.2 = [] := by
  unfold Policy.weigh
  dsimp only
  split_ifs <;> rfl

theorem calls_weighAll (p : Policy) (c : Category) (size place : Nat) (ms : List Member) :
    calls (p.weighAll c size place ms).2.2 = [] := by
  induction ms generalizing place with
  | nil => rfl
  | cons m ms ih =>
    unfold Policy.weighAll
    dsimp only
    split_ifs
    · exact calls_weigh p c size place m
    · rw [calls_append, calls_weigh, ih]
      rfl

theorem calls_assess (p : Policy) (c : Category) (rebalanceDue shrinkDue : Bool)
    (ms : List Member) : calls (p.assess c rebalanceDue shrinkDue ms).notes = [] := by
  unfold Policy.assess
  dsimp only
  split_ifs <;> first | rfl | exact calls_weighAll _ _ _ _ _

theorem calls_replaceDead (c : Category) (ms : List Member) (s : Fleet × Store) :
    calls (Chore.replaceDead c now ms s).2.2 = [] := by
  induction ms generalizing s with
  | nil => rfl
  | cons m ms ih =>
    unfold Chore.replaceDead
    dsimp only
    split_ifs
    · exact ih _
    · exact ih _

theorem calls_inspect (c : Category) (f : Fleet) :
    calls (Chore.inspectStep c now f t).notes = [] := by
  have hverdict : ∀ v, calls (Chore.ofVerdict c v).2 = [] := by
    intro v
    cases v <;> rfl
  unfold Chore.inspectStep
  dsimp only
  rw [calls_append, calls_append, calls_replaceDead, calls_assess, hverdict]
  rfl

/-- Chores say nothing of the bus. -/
theorem calls_chore {chore : Chore} {turn : Chore.Turn} (h : chore.step? now f t = some turn) :
    calls turn.notes = [] := by
  unfold Chore.step? at h
  cases chore with
  | inspect c =>
    obtain rfl := Option.some.inj h
    exact calls_inspect c f
  | reset c place =>
    dsimp only at h
    split at h <;> obtain rfl := Option.some.inj h <;> rfl
  | drain c place steps due =>
    dsimp only at h
    split_ifs at h
    obtain rfl := Option.some.inj h
    unfold Chore.drainStep
    split
    · rfl
    · split_ifs <;> rfl
  | grow c | shrink c =>
    dsimp only at h
    split_ifs at h <;> obtain rfl := Option.some.inj h <;> rfl
  | release c =>
    obtain rfl := Option.some.inj h
    unfold Chore.releaseStep
    dsimp only
    split <;> rfl
  | join id =>
    dsimp only at h
    unfold Chore.joinStep? at h
    split at h
    · obtain rfl := Option.some.inj h
      rfl
    · split_ifs at h <;> obtain rfl := Option.some.inj h <;> rfl
  | resetAll c | enlist c | close id | removed c | dismiss c =>
    obtain rfl := Option.some.inj h
    rfl

end Fleet

theorem calls_passOn (p : Backlog.Pass) (b : Backlog) (f : Fleet) :
    calls (Backlog.passOn p b f).2.2.2 = [] := by
  rcases Backlog.passOn_cases p b f with ⟨-, heq⟩ | ⟨r, rest, -, ho⟩
  · rw [heq]
    rfl
  · rcases ho.fleet_eq with ⟨-, hnotes⟩ | ⟨note, hsend, hnotes⟩
    · rw [hnotes]
      rfl
    · obtain ⟨post, -, rfl⟩ := Fleet.note_send hsend
      rw [hnotes]
      rfl

namespace Dispatch

variable {d : Dispatch} {w : Task} {done : Turn}

/-- A sign of life may be asked for. -/
def Task.mayPulse : Task → Bool
  | .chore _ | .push _ => true
  | _ => false

theorem calls_deed (h : Deed now d t w done) :
    calls done.notes = [] ∧ (done.pulse = true → w.mayPulse = true) := by
  cases h with
  | chore hturn => exact ⟨Fleet.calls_chore hturn, fun _ => rfl⟩
  | push | full => exact ⟨rfl, fun _ => rfl⟩
  | rest | retry | drain | endPass => exact ⟨rfl, nofun⟩
  | @passOn q => exact ⟨calls_passOn q d.backlog d.fleet, nofun⟩

end Dispatch

/-! ## Steps of an intake -/

namespace Intake

variable {i : Intake} {stopping : Bool} {turn : Turn} {task : Task} {rest : List Task}

/-- Tasks whose calls are more than signs of life. -/
def Task.isCalling : Task → Bool
  | .subscribe | .poll | .pause | .resume | .lastPause | .leave _ => true
  | _ => false

/-- Tasks that may show the bus a sign of life. -/
def Task.mayBeat : Task → Bool
  | .beat | .drainOut _ => true
  | .work w => w.mayPulse
  | _ => false

/-- A step has called on the bus at most to show it a sign of life. -/
def Quiet (task : Task) (i : Intake) (turn : Turn) : Prop :=
  (calls turn.notes = [] ∧ turn.intake.bus = i.bus) ∨
    (task.mayBeat = true ∧ calls turn.notes = calls i.bus.keepAlive.2 ∧
      turn.intake.bus = i.bus.keepAlive.1)

theorem Quiet.silent (hcalls : calls turn.notes = []) (hbus : turn.intake.bus = i.bus) :
    Quiet task i turn :=
  .inl ⟨hcalls, hbus⟩

/-- A sign of life before notes that are no calls. -/
theorem Quiet.beat {notes : List Note} (hbeat : task.mayBeat = true)
    (hnotes : turn.notes = i.bus.keepAlive.2 ++ notes) (hcalls : calls notes = [])
    (hbus : turn.intake.bus = i.bus.keepAlive.1) : Quiet task i turn :=
  .inr ⟨hbeat, by rw [hnotes, calls_append, hcalls, List.append_nil], hbus⟩

theorem calls_startStep : calls (i.startStep rest t).notes = [] := by
  unfold startStep
  dsimp only
  rw [List.cons_append, ← List.singleton_append, calls_append, calls_append, calls_connect]
  split_ifs <;> rfl

theorem calls_refreshStep : calls (i.refreshStep rest t).notes = [] := by
  change calls ((i.session.select t Routers.refreshQuery).2.notes ++
    (Routers.stored (i.session.select t Routers.refreshQuery).1).map Note.routerRefreshed) = []
  rw [calls_append, calls_select, List.nil_append]
  exact List.filterMap_eq_nil_iff.2 (by simp)

theorem quiet_handled {m : Feed.Message} (h : Handled i m rest t turn) : Quiet task i turn := by
  cases h <;> exact .silent rfl rfl

/-- Few tasks call on the bus. -/
theorem quiet_of_step (hts : i.tasks = task :: rest) (h : i.step? now stopping t = some turn)
    (hcalling : task.isCalling = false) : Quiet task i turn := by
  cases deed_of_step? hts h with
  | subscribe | subscribeFailed | poll | pollFailed | pause | pauseFailed | resume | resumeFailed
  | lastPause | lastPauseFailed | leave => exact absurd hcalling (by simp [Task.isCalling])
  | start => exact .silent calls_startStep rfl
  | handle hm => exact quiet_handled hm
  | @query q q' e hq =>
    refine .silent ?_ rfl
    change calls (e.notes ++ []) = []
    rw [List.append_nil]
    exact Store.Query.calls_step hq
  | beat => exact .beat rfl rfl rfl rfl
  | routers rows =>
    refine .silent ?_ rfl
    change calls (((i.routers.apply rows).2).map Note.routerEvent) = []
    exact List.filterMap_eq_nil_iff.2 (by simp)
  | refresh => exact .silent calls_refreshStep rfl
  | work hw => exact .silent (Dispatch.calls_deed hw).1 rfl
  | workBeat hw hpulse =>
    obtain ⟨hcalls, hmay⟩ := Dispatch.calls_deed hw
    exact .beat (hmay hpulse) rfl hcalls rfl
  | halt fault => exact .silent (by cases fault <;> rfl) rfl
  | report =>
    refine .inr ⟨rfl, ?_, rfl⟩
    change calls (i.bus.keepAlive.2 ++ []) = _
    rw [List.append_nil]
  | _ => exact .silent rfl rfl

end Intake

end BmpFeed
