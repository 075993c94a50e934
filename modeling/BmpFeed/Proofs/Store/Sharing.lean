import BmpFeed.Proofs.Store.Retry
import Mathlib.Data.List.Induction

/-!
# Sessions that share a store

Any number of clients call one store, each through a session of its own. Their calls interleave: a
query goes on step by step, and a select, which first makes sure of its connection, asks later.
Between these the other clients may use the store, and its script may change.

`Query.Stepped` lists what a step of a query can do. `Client.Sound` is what each client keeps when
it begins a call or goes on with it. What follows for any calls is `Sharing.never_misreports`:
whenever none is in progress the owner of a session knows whether it is connected.
-/

namespace BmpFeed.Store

variable {s : Session} {t : Store}

/-! ## Connections -/

theorem Session.selects_connect (s : Session) (t : Store) :
    (s.connect t).store.selects = t.selects := by
  unfold Session.connect Store.link
  split_ifs <;> rfl

theorem Session.selects_ensure (s : Session) (t : Store) :
    (s.ensure t).store.selects = t.selects := by
  unfold Session.ensure
  split_ifs
  · rfl
  · exact s.selects_connect t

/-- The store cannot be reached through a session that is not connected and whose next attempt to
connect is refused. -/
def Session.CannotReach (s : Session) (t : Store) : Prop := s.connected = false ∧ 0 < t.refusals

instance (s : Session) (t : Store) : Decidable (s.CannotReach t) :=
  inferInstanceAs (Decidable (_ ∧ _))

theorem Session.connected_ensure (s : Session) (t : Store) :
    (s.ensure t).session.connected = !decide (s.CannotReach t) := by
  unfold Session.ensure Session.CannotReach
  split_ifs with hconnected
  · simp [hconnected]
  · unfold Session.connect Store.link
    split_ifs with hrefusals <;> simp [hconnected, hrefusals, Nat.pos_iff_ne_zero]

theorem Session.selects_ask (s : Session) (t : Store) (sql : String) :
    (s.ask t sql).2.store.selects = t.selects ++ if s.linked then [sql] else [] := by
  unfold Session.ask
  split_ifs
  · rfl
  · exact (List.append_nil _).symm

/-! ## Queries -/

namespace Query

variable {pauses : Writer.Pauses} {now : Nat} {q q' : Query} {e : Exchange}

/-- What a step of a query can do. -/
inductive Stepped (pauses : Writer.Pauses) (now : Nat) (q : Query) (s : Session) (t : Store) :
    Query → Exchange → Prop
  | open_ (stage : q.stage = .opening) :
    Stepped pauses now q s t { q with stage := .ready } (s.ensure t)
  | issue (stage : q.stage = .ready) :
    Stepped pauses now q s t (q.issue pauses now s t).1 (q.issue pauses now s t).2
  | answer {due : Nat} (stage : q.stage = .executing due) :
    Stepped pauses now q s t (q.answered pauses now s t).1 (q.answered pauses now s t).2
  | relink (stage : q.stage = .linking) :
    Stepped pauses now q s t (q.relink pauses now s t).1 (q.relink pauses now s t).2
  | paused {due : Nat} (stage : q.stage = .pausing due) :
    Stepped pauses now q s t { q with stage := .linking } ⟨s, t, []⟩
  | rested {due : Nat} (stage : q.stage = .resting due) :
    Stepped pauses now q s t { q with stage := .ready } ⟨s, t, []⟩

theorem stepped (hstep : q.step? pauses now s t = some (q', e)) :
    Stepped pauses now q s t q' e := by
  unfold step? at hstep
  cases hstage : q.stage with
  | opening =>
    rw [hstage] at hstep
    obtain ⟨rfl, rfl⟩ := Prod.mk.inj (Option.some.inj hstep)
    exact .open_ hstage
  | ready =>
    rw [hstage] at hstep
    have hissue :
        Stepped pauses now q s t (q.issue pauses now s t).1 (q.issue pauses now s t).2 :=
      .issue hstage
    rwa [Option.some.inj hstep] at hissue
  | executing due =>
    rw [hstage] at hstep
    dsimp only at hstep
    split_ifs at hstep
    have hanswer :
        Stepped pauses now q s t (q.answered pauses now s t).1 (q.answered pauses now s t).2 :=
      .answer hstage
    rwa [Option.some.inj hstep] at hanswer
  | linking =>
    rw [hstage] at hstep
    have hrelink :
        Stepped pauses now q s t (q.relink pauses now s t).1 (q.relink pauses now s t).2 :=
      .relink hstage
    rwa [Option.some.inj hstep] at hrelink
  | pausing due =>
    rw [hstage] at hstep
    dsimp only at hstep
    split_ifs at hstep
    obtain ⟨rfl, rfl⟩ := Prod.mk.inj (Option.some.inj hstep)
    exact .paused hstage
  | resting due =>
    rw [hstage] at hstep
    dsimp only at hstep
    split_ifs at hstep
    obtain ⟨rfl, rfl⟩ := Prod.mk.inj (Option.some.inj hstep)
    exact .rested hstage
  | finished ok | crashed =>
    rw [hstage] at hstep
    exact absurd hstep (by simp)

/-- What a query has made sure of. After an attempt the session is connected again before the next
one is due. -/
def Assures (q : Query) (s : Session) : Prop :=
  match q.stage with
  | .opening => q.attempt = 0
  | .ready => 0 < q.attempt → s.connected = true
  | .executing _ | .resting _ => s.connected = true
  | .finished _ => 0 < q.retries → s.connected = true
  | .linking | .pausing _ | .crashed => True

theorem assures_onFault {f : Fault} (h : f.isConnection = false → s.connected = true) :
    (q.onFault pauses now f s t).1.Assures (q.onFault pauses now f s t).2.session := by
  cases f with
  | connection reason => exact trivial
  | deadlock reason => exact h rfl
  | statement code reason => exact fun _ => h rfl

theorem Assures.step (hs : s.Agrees) (h : q.Assures s) (hstep : Stepped pauses now q s t q' e) :
    q'.Assures e.session := by
  unfold Assures at h
  cases hstep with
  | open_ hstage =>
    rw [hstage] at h
    exact fun hpos => absurd h (Nat.pos_iff_ne_zero.1 hpos)
  | issue hstage =>
    rw [hstage] at h
    unfold Query.issue
    split_ifs with hlt _ hlinked
    · exact trivial
    · exact hs.symm.trans hlinked
    · exact trivial
    · exact fun hpos => h (Nat.lt_of_lt_of_le hpos (Nat.le_of_not_lt hlt))
  | answer hstage =>
    rw [hstage] at h
    unfold answered
    split
    · exact fun _ => h
    · exact assures_onFault fun _ => h
  | relink _ =>
    unfold Query.relink
    dsimp only
    split_ifs with hconnected
    · exact fun _ => hconnected
    · exact trivial
  | paused _ => exact trivial
  | rested hstage =>
    rw [hstage] at h
    exact fun _ => h

theorem store_onFault (pauses : Writer.Pauses) (now : Nat) (q : Query) (f : Fault) (s : Session)
    (t : Store) : (q.onFault pauses now f s t).2.store = t := by
  cases f <;> rfl

/-- A query is no select. -/
theorem Stepped.selects_eq (hstep : Stepped pauses now q s t q' e) :
    e.store.selects = t.selects := by
  cases hstep with
  | open_ _ => exact s.selects_ensure t
  | issue _ =>
    unfold Query.issue
    split_ifs <;> rfl
  | answer _ =>
    unfold answered Store.run
    cases t.faults with
    | nil => rfl
    | cons f rest =>
      dsimp only
      rw [q.store_onFault pauses now f]
  | relink _ =>
    unfold Query.relink
    dsimp only
    split_ifs <;> exact s.selects_connect t
  | paused _ | rested _ => rfl

end Query

/-! ## Clients -/

namespace Sharing

/-- A call that has not come to its end. -/
inductive Call
  | query (q : Query)
  /-- The store is yet to be asked. The session and the store are those at the beginning. -/
  | select (sql : String) (s : Session) (t : Store)

structure Client where
  session : Session
  call : Option Call := none

/-- What a client may call. -/
inductive Order
  | connect
  | disconnect
  | query (sql : String) (retries : Nat)
  | select (sql : String)

/-- A query that has returned. -/
structure Queried where
  query : Query
  session : Session

/-- A select that has returned. -/
structure Selected where
  sql : String
  /-- The session at the beginning. -/
  session : Session
  /-- The store at the beginning. -/
  store : Store
  /-- The session when the store was asked. -/
  asking : Session
  /-- The store when it was asked. -/
  asked : Store
  rows : List Row
  reply : Exchange

/-- What a move of a client came to. -/
structure Turn where
  client : Client
  store : Store
  queried : List Queried := []
  selected : List Selected := []

namespace Client

/-- Begins a call. -/
def begin (c : Client) (t : Store) : Order → Turn
  | .connect =>
    { client := { session := (c.session.connect t).session }, store := (c.session.connect t).store }
  | .disconnect => { client := { session := c.session.disconnect }, store := t }
  | .query sql retries =>
    { client := { c with call := some (.query { sql, retries }) }, store := t }
  | .select sql =>
    { client := ⟨(c.session.ensure t).session, some (.select sql c.session t)⟩
      store := (c.session.ensure t).store }

/-- The call in progress goes on. -/
def goOn (c : Client) (pauses : Writer.Pauses) (now : Nat) (t : Store) : Call → Turn
  | .query q =>
    match q.step? pauses now c.session t, q.stage with
    | some (q, e), _ => { client := ⟨e.session, some (.query q)⟩, store := e.store }
    | none, .finished _ =>
      { client := { session := c.session }, store := t, queried := [⟨q, c.session⟩] }
    | none, _ => { client := c, store := t }
  | .select sql s began =>
    let (rows, e) := c.session.ask t sql
    { client := { session := e.session }, store := e.store
      selected := [⟨sql, s, began, c.session, t, rows, e⟩] }

end Client

/-! ## What a client keeps -/

/-- How far a call has come. -/
def Call.Sound (s : Session) : Call → Prop
  | .query q => q.Assures s
  | .select _ first t => s = (first.ensure t).session

structure Client.Sound (c : Client) : Prop where
  agrees : c.session.Agrees
  call : ∀ x, c.call = some x → x.Sound c.session

/-- A query with an attempt leaves its session connected. -/
def Queried.Sound (x : Queried) : Prop :=
  0 < x.query.retries → x.session.linked = true ∧ x.session.connected = true

/-- A select is answered by the store when that can be reached, and leaves no trace else. -/
structure Selected.Sound (x : Selected) : Prop where
  asking_eq : x.asking.linked = !decide (x.session.CannotReach x.store)
  unreachable : x.session.CannotReach x.store →
    x.rows = [] ∧ x.reply.store = x.asked ∧ x.reply.session.connected = false
  reachable : ¬x.session.CannotReach x.store →
    x.rows = x.asked.rows ∧
      x.reply.store = { x.asked with selects := x.asked.selects ++ [x.sql] } ∧
      x.reply.session.connected = true
  /-- When no other client has come between its two halves, they are the select of the session. -/
  alone : x.asked = (x.session.ensure x.store).store →
    x.session.select x.store x.sql =
      (x.rows, { x.reply with notes := (x.session.ensure x.store).notes ++ x.reply.notes })

/-- The selects that were made over a connection. -/
def recorded (xs : List Selected) : List String :=
  (xs.filter fun x => x.asking.linked).map Selected.sql

theorem recorded_singleton (x : Selected) :
    recorded [x] = if x.asking.linked then [x.sql] else [] := by
  unfold recorded
  rw [List.filter_singleton, Bool.cond_eq_ite]
  split_ifs <;> rfl

structure Turn.Sound (t : Store) (x : Turn) : Prop where
  client : x.client.Sound
  queried : ∀ y ∈ x.queried, y.Sound
  selected : ∀ y ∈ x.selected, y.Sound
  selects : x.store.selects = t.selects ++ recorded x.selected

/-- A move that neither query nor select comes to its end with. -/
theorem Turn.Sound.of_silent {c : Client} {t' : Store} (hc : c.Sound)
    (hselects : t'.selects = t.selects) : Turn.Sound t { client := c, store := t' } :=
  ⟨hc, List.forall_mem_nil _, List.forall_mem_nil _, hselects.trans (List.append_nil _).symm⟩

variable {c : Client}

theorem Client.Sound.begin (h : c.Sound) (t : Store) (o : Order) : (c.begin t o).Sound t := by
  cases o with
  | connect => exact .of_silent ⟨c.session.agrees_connect t, nofun⟩ (c.session.selects_connect t)
  | disconnect => exact .of_silent ⟨rfl, nofun⟩ rfl
  | query sql retries =>
    refine .of_silent ⟨h.agrees, fun x hx => ?_⟩ rfl
    rw [← Option.some.inj hx]
    exact rfl
  | select sql =>
    refine .of_silent ⟨h.agrees.ensure t, fun x hx => ?_⟩ (c.session.selects_ensure t)
    rw [← Option.some.inj hx]
    exact rfl

/-- The half of a select that asks the store. -/
theorem Client.Sound.ask {first : Session} {began : Store} (h : c.Sound)
    (hsession : c.session = (first.ensure began).session) (sql : String) (t : Store) :
    Selected.Sound ⟨sql, first, began, c.session, t, (c.session.ask t sql).1,
      (c.session.ask t sql).2⟩ := by
  have hlinked : c.session.linked = !decide (first.CannotReach began) := by
    rw [h.agrees, hsession, first.connected_ensure]
  refine ⟨hlinked, fun hcannot => ?_, fun hcan => ?_, fun halone => ?_⟩
  · have hno : ¬c.session.linked = true := by simp [hlinked, hcannot]
    unfold Session.ask
    rw [if_neg hno]
    exact ⟨rfl, rfl, rfl⟩
  · have hyes : c.session.linked = true := by simp [hlinked, hcan]
    unfold Session.ask
    rw [if_pos hyes]
    exact ⟨rfl, rfl, h.agrees.symm.trans hyes⟩
  · dsimp only at halone
    unfold Session.select
    rw [hsession, halone]

theorem Client.Sound.goOn (h : c.Sound) {call : Call} (hcall : c.call = some call)
    (pauses : Writer.Pauses) (now : Nat) (t : Store) : (c.goOn pauses now t call).Sound t := by
  have hsound := h.call call hcall
  cases call with
  | query q =>
    unfold Client.goOn
    dsimp only
    split
    · rename_i q' e hstep
      have hagrees := Query.agrees_step h.agrees hstep
      refine .of_silent ⟨hagrees, fun x hx => ?_⟩ (Query.stepped hstep).selects_eq
      rw [← Option.some.inj hx]
      exact Query.Assures.step h.agrees hsound (Query.stepped hstep)
    · rename_i ok hstage
      have hconnected : 0 < q.retries → c.session.connected = true := by
        have hassures : q.Assures c.session := hsound
        unfold Query.Assures at hassures
        rwa [hstage] at hassures
      refine ⟨⟨h.agrees, nofun⟩, fun x hx hpos => ?_, List.forall_mem_nil _,
        (List.append_nil _).symm⟩
      rw [List.mem_singleton.1 hx] at hpos ⊢
      exact ⟨h.agrees.trans (hconnected hpos), hconnected hpos⟩
    · exact .of_silent h rfl
  | select sql first began =>
    refine ⟨⟨h.agrees.ask t sql, nofun⟩, List.forall_mem_nil _, fun x hx => ?_, ?_⟩
    · rw [List.mem_singleton.1 hx]
      exact h.ask hsound sql t
    · exact (c.session.selects_ask t sql).trans (congrArg (t.selects ++ ·)
        (recorded_singleton ⟨sql, first, began, c.session, t, _, _⟩).symm)

end Sharing

/-! ## Runs -/

/-- Clients of a store, with what returned to them. -/
structure Sharing where
  store : Store := {}
  clients : List Sharing.Client := []
  queried : List Sharing.Queried := []
  selected : List Sharing.Selected := []

namespace Sharing

/-- What can happen to a store and its clients. A client makes one call at a time. -/
inductive Deed
  | opening
  /-- What goes wrong from now on, and what the store answers. -/
  | script (faults : List Fault) (refusals : Nat) (rows : List Row) (latency : Nat)
    (fatal : Option String)
  | begin (place : Nat) (o : Order)
  | goOn (place : Nat) (pauses : Writer.Pauses) (now : Nat)

variable {h : Sharing}

/-- Takes over a move of the client at a place. -/
def take (h : Sharing) (place : Nat) (x : Turn) : Sharing where
  store := x.store
  clients := h.clients.set place x.client
  queried := h.queried ++ x.queried
  selected := h.selected ++ x.selected

def step (h : Sharing) : Deed → Sharing
  | .opening =>
    { h with
      store := (openSession h.store).2
      clients := h.clients ++ [{ session := (openSession h.store).1 }] }
  | .script faults refusals rows latency fatal =>
    { h with store := { h.store with faults, refusals, rows, latency, fatal } }
  | .begin place o =>
    match h.clients[place]? with
    | some ⟨s, none⟩ => h.take place (Client.begin ⟨s, none⟩ h.store o)
    | _ => h
  | .goOn place pauses now =>
    match h.clients[place]? with
    | some ⟨s, some call⟩ => h.take place (Client.goOn ⟨s, some call⟩ pauses now h.store call)
    | _ => h

def after (deeds : List Deed) : Sharing := deeds.foldl step {}

/-- What holds of a store and its clients at any time. -/
structure Sound (h : Sharing) : Prop where
  clients : ∀ c ∈ h.clients, c.Sound
  queried : ∀ x ∈ h.queried, x.Sound
  selected : ∀ x ∈ h.selected, x.Sound
  selects : h.store.selects = recorded h.selected

theorem Sound.take (hs : h.Sound) {x : Turn} (hx : x.Sound h.store) (place : Nat) :
    (h.take place x).Sound := by
  constructor
  · intro c hc
    rcases List.mem_or_eq_of_mem_set hc with hold | rfl
    · exact hs.clients c hold
    · exact hx.client
  · intro y hy
    rcases List.mem_append.1 hy with hold | hnew
    · exact hs.queried y hold
    · exact hx.queried y hnew
  · intro y hy
    rcases List.mem_append.1 hy with hold | hnew
    · exact hs.selected y hold
    · exact hx.selected y hnew
  · refine hx.selects.trans ?_
    rw [hs.selects]
    unfold recorded Sharing.take
    rw [List.filter_append, List.map_append]

theorem Sound.step (hs : h.Sound) (d : Deed) : (h.step d).Sound := by
  cases d with
  | opening =>
    refine { hs with clients := fun c hc => ?_ }
    rcases List.mem_append.1 hc with hold | hnew
    · exact hs.clients c hold
    · rw [List.mem_singleton.1 hnew]
      exact ⟨rfl, nofun⟩
  | script faults refusals rows latency fatal => exact { hs with }
  | begin place o =>
    unfold Sharing.step
    dsimp only
    split
    · rename_i s hget
      exact hs.take ((hs.clients _ (List.mem_of_getElem? hget)).begin h.store o) place
    · exact hs
  | goOn place pauses now =>
    unfold Sharing.step
    dsimp only
    split
    · rename_i s call hget
      exact hs.take ((hs.clients _ (List.mem_of_getElem? hget)).goOn rfl pauses now h.store) place
    · exact hs

theorem sound_after (deeds : List Deed) : (after deeds).Sound := by
  induction deeds using List.reverseRecOn with
  | nil =>
    exact ⟨List.forall_mem_nil _, List.forall_mem_nil _, List.forall_mem_nil _, rfl⟩
  | append_singleton deeds d ih =>
    have hafter : after (deeds ++ [d]) = (after deeds).step d := List.foldl_append
    rw [hafter]
    exact ih.step d

/-- The owners of sessions know which of them are connected. -/
structure Truthful (h : Sharing) : Prop where
  idle : ∀ c ∈ h.clients, c.call = none → c.session.connected = c.session.linked
  queried : ∀ x ∈ h.queried, 1 ≤ x.query.retries → x.session.connected = true
  selects : h.store.selects = (h.selected.filter fun x => x.asking.linked).map Selected.sql
  selected : ∀ x ∈ h.selected, x.Sound

theorem never_misreports (deeds : List Deed) : (after deeds).Truthful where
  idle c hc _ := ((sound_after deeds).clients c hc).agrees.symm
  queried x hx hpos := ((sound_after deeds).queried x hx hpos).2
  selects := (sound_after deeds).selects
  selected := (sound_after deeds).selected

/-- The first client cannot reach the store before the second one has met the other refusal. The
query of that one fails, but leaves it connected. -/
example :
    let h := after ([.opening, .opening, .script [Fault.noConnection] 2 [] 0 none,
      .begin 0 (.select "first"), .begin 1 (.query "x" 2), .goOn 1 ⟨0, 0⟩ 0, .goOn 0 ⟨0, 0⟩ 0] ++
      List.replicate 8 (.goOn 1 ⟨0, 0⟩ 0) ++ [.begin 0 (.select "second"), .goOn 0 ⟨0, 0⟩ 0])
    h.selected.map (fun x => (x.sql, x.asking.linked)) = [("first", false), ("second", true)] ∧
      h.queried.map (fun x => (x.query.stage, x.session)) = [(.finished false, ⟨2, true, true⟩)] ∧
      h.store.selects = ["second"] ∧ h.store.connects = 3 := by
  decide +kernel

end Sharing

end BmpFeed.Store
