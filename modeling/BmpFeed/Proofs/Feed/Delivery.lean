import BmpFeed.Feed.Bus
import Mathlib.Data.List.Forall2
import Mathlib.Tactic.Common

/-!
# What a bus delivers

Of the messages on a topic, those that polls have brought and those that still wait are together the
ones that were pushed, in their order (`onTopic_delivered`), although batches are taken apart on the
way: a poll takes all messages on a topic out of a batch or none, and only when no batch before has
any of them (`Takes.onTopic_eq`). What waits is always part of the batches that were pushed
(`batches_of_pushed`). `delivers_in_order` adds what a single poll brings and when it brings
nothing.
-/

namespace BmpFeed.Feed

/-! ## Taking messages out of batches -/

/-- The batch, unless it is empty. -/
def occupied (batch : List Message) : List (List Message) := if batch.isEmpty then [] else [batch]

/-- How accepted messages leave the batches: all those of the first batch that has any are taken. -/
inductive Takes (accepts : Message → Bool) :
    List (List Message) → List Message → List (List Message) → Prop
  | nil : Takes accepts [] [] []
  | skip {batches left : List (List Message)} {taken batch : List Message} :
    batch.filter accepts = [] → Takes accepts batches taken left →
    Takes accepts (batch :: batches) taken (occupied batch ++ left)
  | found {batch : List Message} (batches : List (List Message)) :
    batch.filter accepts ≠ [] →
    Takes accepts (batch :: batches) (batch.filter accepts)
      (occupied (batch.filter fun m => !accepts m) ++ batches)

/-- The messages on a topic. -/
def onTopic (topic : String) (messages : List Message) : List Message :=
  messages.filter fun m => m.topic = topic

theorem onTopic_append (topic : String) (messages later : List Message) :
    onTopic topic (messages ++ later) = onTopic topic messages ++ onTopic topic later :=
  List.filter_append _ _

theorem flatten_occupied (batch : List Message) : (occupied batch).flatten = batch := by
  cases batch <;> simp [occupied]

theorem occupied_append (batch : List Message) (later : List (List Message)) :
    occupied batch ++ later = if batch.isEmpty then later else batch :: later := by
  unfold occupied
  split_ifs <;> rfl

/-- Those that are picked are among the accepted ones. -/
theorem filter_filter_of_accepted {picks accepts : Message → Bool}
    (h : ∀ m, picks m = true → accepts m = true) (batch : List Message) :
    (batch.filter accepts).filter picks = batch.filter picks := by
  rw [List.filter_filter]
  apply List.filter_congr
  intro m _
  cases hm : picks m with
  | false => rfl
  | true => rw [h m hm, Bool.and_self]

theorem filter_filter_of_refused {picks accepts : Message → Bool}
    (h : ∀ m, picks m = true → accepts m = false) (batch : List Message) :
    (batch.filter accepts).filter picks = [] := by
  refine List.filter_eq_nil_iff.2 fun m hm hpick => ?_
  have haccepted := (List.mem_filter.1 hm).2
  rw [h m hpick] at haccepted
  exact Bool.false_ne_true haccepted

namespace Bus

theorem takeAccepted_cons (accepts : Message → Bool) (batch : List Message)
    (batches : List (List Message)) :
    takeAccepted accepts (batch :: batches) =
      if batch.filter accepts = [] then
        ((takeAccepted accepts batches).1,
          occupied (batch.filter fun m => !accepts m) ++ (takeAccepted accepts batches).2)
      else (batch.filter accepts, occupied (batch.filter fun m => !accepts m) ++ batches) := by
  rw [takeAccepted, List.partition_eq_filter_filter]
  dsimp only
  rw [occupied_append, occupied_append]
  simp only [List.isEmpty_iff]
  rfl

theorem takes (accepts : Message → Bool) (batches : List (List Message)) :
    Takes accepts batches (takeAccepted accepts batches).1 (takeAccepted accepts batches).2 := by
  induction batches with
  | nil => exact .nil
  | cons batch batches ih =>
    rw [takeAccepted_cons]
    split_ifs with hany
    · have hall : (batch.filter fun m => !accepts m) = batch :=
        List.filter_eq_self.2 fun m hm => by simpa using List.filter_eq_nil_iff.1 hany m hm
      rw [hall]
      exact .skip hany ih
    · exact .found batches hany

end Bus

namespace Takes

variable {accepts : Message → Bool} {batches left : List (List Message)} {taken : List Message}

theorem filter_of_refused (h : Takes accepts batches taken left) {picks : Message → Bool}
    (hpicks : ∀ m, picks m = true → accepts m = false) :
    taken.filter picks = [] ∧ left.flatten.filter picks = batches.flatten.filter picks := by
  induction h with
  | nil => exact ⟨rfl, rfl⟩
  | skip _ _ ih =>
    refine ⟨ih.1, ?_⟩
    rw [List.flatten_append, flatten_occupied, List.flatten_cons, List.filter_append,
      List.filter_append, ih.2]
  | @found batch batches _ =>
    refine ⟨filter_filter_of_refused hpicks batch, ?_⟩
    rw [List.flatten_append, flatten_occupied, List.flatten_cons, List.filter_append,
      List.filter_append, filter_filter_of_accepted fun m hm => by rw [hpicks m hm, Bool.not_false]]

theorem filter_of_accepted (h : Takes accepts batches taken left) {picks : Message → Bool}
    (hpicks : ∀ m, picks m = true → accepts m = true) :
    taken.filter picks ++ left.flatten.filter picks = batches.flatten.filter picks := by
  induction h with
  | nil => rfl
  | @skip _ _ _ batch hskip _ ih =>
    have hnone : batch.filter picks = [] := by
      rw [← filter_filter_of_accepted hpicks, hskip, List.filter_nil]
    rw [List.flatten_append, flatten_occupied, List.flatten_cons, List.filter_append,
      List.filter_append, hnone, List.nil_append, List.nil_append, ih]
  | @found batch batches _ =>
    have hrest : (batch.filter fun m => !accepts m).filter picks = [] :=
      filter_filter_of_refused (fun m hm => by rw [hpicks m hm, Bool.not_true]) batch
    rw [List.flatten_append, flatten_occupied, List.flatten_cons, List.filter_append,
      List.filter_append, filter_filter_of_accepted hpicks, hrest, List.nil_append]

/-- Messages on one topic leave in their order, where a topic is accepted or not as a whole. -/
theorem onTopic_eq {matching : String → Bool}
    (h : Takes (fun m => matching m.topic) batches taken left) (topic : String) :
    onTopic topic taken ++ onTopic topic left.flatten = onTopic topic batches.flatten := by
  cases hmatch : matching topic with
  | true =>
    exact h.filter_of_accepted fun m hm => by rw [of_decide_eq_true hm, hmatch]
  | false =>
    have hrefused : ∀ m : Message, decide (m.topic = topic) = true → matching m.topic = false :=
      fun m hm => by rw [of_decide_eq_true hm, hmatch]
    obtain ⟨htaken, hleft⟩ := h.filter_of_refused hrefused
    unfold onTopic
    rw [htaken, hleft, List.nil_append]

theorem exists_batch (h : Takes accepts batches taken left) (hany : taken ≠ []) :
    ∃ batch ∈ batches, taken = batch.filter accepts := by
  induction h with
  | nil => exact absurd rfl hany
  | skip _ _ ih =>
    obtain ⟨batch, hbatch, htaken⟩ := ih hany
    exact ⟨batch, List.mem_cons_of_mem _ hbatch, htaken⟩
  | found _ _ => exact ⟨_, List.mem_cons_self, rfl⟩

/-- Where nothing is taken nothing is left that could be. -/
theorem refused_of_nil (h : Takes accepts batches taken left) (hnone : taken = []) :
    ∀ batch ∈ left, ∀ m ∈ batch, accepts m = false := by
  induction h with
  | nil => exact nofun
  | @skip _ _ _ batch hskip _ ih =>
    intro waiting hwaiting m hm
    rcases List.mem_append.1 hwaiting with hmem | hmem
    · unfold occupied at hmem
      split_ifs at hmem
      · exact absurd hmem List.not_mem_nil
      · obtain rfl := List.mem_singleton.1 hmem
        simpa using List.filter_eq_nil_iff.1 hskip m hm
    · exact ih hnone waiting hmem m hm
  | found _ hany => exact absurd hnone hany

end Takes

/-! ## Parts of batches -/

/-- Each of the batches is part of another one of those given, in the same order. -/
abbrev PartsOf (parts batches : List (List Message)) : Prop :=
  List.SublistForall₂ List.Sublist parts batches

namespace PartsOf

variable {parts batches later : List (List Message)}

theorem refl (batches : List (List Message)) : PartsOf batches batches :=
  List.sublistForall₂_iff.2 ⟨batches, List.forall₂_same.2 fun _ _ => .refl _, .refl _⟩

theorem append (h : PartsOf parts batches) (later : List (List Message)) :
    PartsOf (parts ++ later) (batches ++ later) := by
  obtain ⟨whole, hparts, hwhole⟩ := List.sublistForall₂_iff.1 h
  exact List.sublistForall₂_iff.2
    ⟨whole ++ later, List.rel_append hparts (List.forall₂_same.2 fun _ _ => .refl _),
      hwhole.append (.refl later)⟩

theorem occupied {part batch : List Message} (h : part.Sublist batch)
    (hlater : PartsOf later batches) :
    PartsOf (Feed.occupied part ++ later) (batch :: batches) := by
  rw [occupied_append]
  split_ifs
  · exact .cons_right hlater
  · exact .cons h hlater

theorem exists_whole (h : PartsOf parts batches) {part : List Message} (hpart : part ∈ parts) :
    ∃ batch ∈ batches, part.Sublist batch := by
  induction h with
  | nil => exact absurd hpart List.not_mem_nil
  | cons hhead _ ih =>
    rcases List.mem_cons.1 hpart with rfl | hmem
    · exact ⟨_, List.mem_cons_self, hhead⟩
    · obtain ⟨batch, hbatch, hsub⟩ := ih hmem
      exact ⟨batch, List.mem_cons_of_mem _ hbatch, hsub⟩
  | cons_right _ ih =>
    obtain ⟨batch, hbatch, hsub⟩ := ih hpart
    exact ⟨batch, List.mem_cons_of_mem _ hbatch, hsub⟩

end PartsOf

theorem Takes.partsOf {accepts : Message → Bool} {batches left : List (List Message)}
    {taken : List Message} (h : Takes accepts batches taken left) : PartsOf left batches := by
  induction h with
  | nil => exact .nil
  | skip _ _ ih => exact .occupied (.refl _) ih
  | found batches _ => exact .occupied List.filter_sublist (.refl batches)

/-! ## Calls -/

namespace Bus

/-- A call is refused, or it does what it is made for. -/
theorem call_cases {α : Type} (c : Call) (messages : α → Nat) (f : Bus → Except Fault α × Bus)
    (b : Bus) :
    (b.refuses c = true ∧ (b.call c messages f).result = .error c.refusal ∧
        (b.call c messages f).bus = b.countCall c) ∨
      (b.refuses c = false ∧ (b.call c messages f).result = (f (b.countCall c)).1 ∧
        (b.call c messages f).bus = (f (b.countCall c)).2) := by
  unfold call
  dsimp only
  cases b.refuses c with
  | true => exact .inl ⟨rfl, rfl, rfl⟩
  | false =>
    refine .inr ⟨rfl, ?_⟩
    obtain ⟨result, after⟩ := f (b.countCall c)
    cases result <;> exact ⟨rfl, rfl⟩

theorem batches_call {α : Type} (c : Call) (messages : α → Nat) {f : Bus → Except Fault α × Bus}
    (hf : ∀ b, (f b).2.batches = b.batches) (b : Bus) :
    (b.call c messages f).bus.batches = b.batches := by
  rcases call_cases c messages f b with ⟨-, -, hbus⟩ | ⟨-, -, hbus⟩
  · rw [hbus]
    rfl
  · rw [hbus, hf]
    rfl

/-- What a poll brings that succeeds: nothing while the bus is paused or has no subscription. -/
theorem deliver_cases (b : Bus) :
    ((b.paused = true ∨ b.subscription = none) ∧ b.deliver.1 = [] ∧
        b.deliver.2.batches = b.batches) ∨
      ∃ p, b.paused = false ∧ b.subscription = some p ∧
        Takes (fun m => p.accepts m.topic) b.batches b.deliver.1 b.deliver.2.batches := by
  unfold deliver
  cases hpaused : b.paused with
  | true => exact .inl ⟨.inl rfl, rfl, rfl⟩
  | false =>
    cases hsubscription : b.subscription with
    | none => exact .inl ⟨.inr rfl, rfl, rfl⟩
    | some p => exact .inr ⟨p, rfl, rfl, takes _ b.batches⟩

theorem deliver_congr (b b' : Bus) (hpaused : b.paused = b'.paused)
    (hsubscription : b.subscription = b'.subscription) (hbatches : b.batches = b'.batches) :
    b.deliver.1 = b'.deliver.1 ∧ b.deliver.2.batches = b'.deliver.2.batches := by
  unfold deliver
  rw [hpaused, hsubscription]
  split
  · rw [hbatches]
    exact ⟨rfl, rfl⟩
  · exact ⟨rfl, hbatches⟩

/-- A poll fails and takes nothing, or it brings what there is to deliver. -/
theorem poll_cases (b : Bus) :
    ((b.closed = true ∨ b.pollFault ≠ none ∨ b.refuses .poll = true) ∧
        ∃ f, b.poll.result = .error f ∧ b.poll.bus.batches = b.batches) ∨
      (b.closed = false ∧ b.poll.result = .ok b.deliver.1 ∧
        b.poll.bus.batches = b.deliver.2.batches) := by
  unfold poll
  rcases call_cases .poll List.length _ b with ⟨hrefused, hresult, hbus⟩ | ⟨-, hresult, hbus⟩
  · exact .inl ⟨.inr (.inr hrefused), _, hresult, by rw [hbus]; rfl⟩
  rw [hresult, hbus]
  split_ifs with hclosed
  · exact .inl ⟨.inl hclosed, _, rfl, rfl⟩
  dsimp only
  split
  · rename_i f hfault
    exact .inl ⟨.inr (.inl (Option.ne_none_iff_exists'.2 ⟨f, hfault⟩)), f, rfl, rfl⟩
  · obtain ⟨htaken, hleft⟩ :=
      deliver_congr { b.countCall .poll with polls := b.polls + 1 } b rfl rfl rfl
    exact .inr ⟨Bool.eq_false_iff.2 hclosed, congrArg Except.ok htaken, hleft⟩

end Bus

/-! ## Histories -/

/-- What is done to a bus, by those who fill it and by its consumer. -/
inductive Deed
  | push (batch : List Message)
  /-- The next poll is made to fail. -/
  | failPoll (f : Fault)
  | subscribe (p : Pattern)
  | poll
  | pause
  | resume
  | heartbeat
  | commit
  | close

namespace Deed

def onBus (b : Bus) : Deed → Bus
  | push batch => b.push batch
  | failPoll f => { b with pollFault := some f }
  | subscribe p => (b.subscribe p).bus
  | poll => b.poll.bus
  | pause => b.pause.bus
  | resume => b.resume.bus
  | heartbeat => b.heartbeat.bus
  | commit => b.commit.bus
  | close => b.close.bus

/-- The batch that it makes available. -/
def pushed? : Deed → Option (List Message)
  | push batch => some batch
  | _ => none

/-- The messages that it brings. -/
def brought (b : Bus) : Deed → List Message
  | poll => b.poll.result.toOption.getD []
  | _ => []

end Deed

def Bus.after (b : Bus) (deeds : List Deed) : Bus := deeds.foldl Deed.onBus b

/-- The batches that were pushed. -/
def pushed (deeds : List Deed) : List (List Message) := deeds.filterMap Deed.pushed?

/-- The messages that polls have brought. -/
def delivered (b : Bus) : List Deed → List Message
  | [] => []
  | d :: deeds => d.brought b ++ delivered (d.onBus b) deeds

theorem pushed_cons (d : Deed) (deeds : List Deed) :
    pushed (d :: deeds) = d.pushed?.toList ++ pushed deeds := by
  unfold pushed
  rw [List.filterMap_cons]
  cases d.pushed? <;> rfl

namespace Deed

variable {b : Bus}

/-- Only pushes and polls change what waits. -/
theorem batches_onBus (d : Deed) (b : Bus) :
    (d = poll ∧ d.pushed? = none) ∨
      (d.brought b = [] ∧ (d.onBus b).batches = b.batches ++ d.pushed?.toList) := by
  cases d with
  | poll => exact .inl ⟨rfl, rfl⟩
  | push batch => exact .inr ⟨rfl, rfl⟩
  | failPoll f => exact .inr ⟨rfl, (List.append_nil _).symm⟩
  | subscribe p =>
    exact .inr ⟨rfl, (Bus.batches_call .subscribe _ (fun b => by split_ifs <;> rfl) b).trans
      (List.append_nil _).symm⟩
  | pause | resume | heartbeat | commit | close =>
    exact .inr ⟨rfl, (Bus.batches_call _ _ (fun _ => rfl) b).trans (List.append_nil _).symm⟩

/-- A poll leaves as much of the batches as it does not bring. -/
theorem poll_takes (b : Bus) :
    (poll.brought b = [] ∧ (poll.onBus b).batches = b.batches) ∨
      ∃ p : Pattern,
        Takes (fun m => p.accepts m.topic) b.batches (poll.brought b) (poll.onBus b).batches := by
  unfold brought onBus
  rcases b.poll_cases with ⟨-, f, hresult, hbatches⟩ | ⟨-, hresult, hbatches⟩
  · rw [hresult]
    exact .inl ⟨rfl, hbatches⟩
  · rw [hresult, hbatches]
    rcases b.deliver_cases with ⟨-, hnone, hsame⟩ | ⟨p, -, -, htakes⟩
    · exact .inl ⟨hnone, hsame⟩
    · exact .inr ⟨p, htakes⟩

theorem onTopic_onBus (d : Deed) (b : Bus) (topic : String) :
    onTopic topic (d.brought b) ++ onTopic topic (d.onBus b).batches.flatten =
      onTopic topic b.batches.flatten ++ onTopic topic d.pushed?.toList.flatten := by
  rcases batches_onBus d b with ⟨rfl, hpushed⟩ | ⟨hbrought, hbatches⟩
  · rw [hpushed]
    have hnil : onTopic topic (none : Option (List Message)).toList.flatten = [] := rfl
    rw [hnil, List.append_nil]
    rcases poll_takes b with ⟨hbrought, hbatches⟩ | ⟨p, htakes⟩
    · rw [hbrought, hbatches]
      rfl
    · exact htakes.onTopic_eq topic
  · rw [hbrought, hbatches, List.flatten_append, onTopic_append]
    rfl

theorem partsOf_onBus (d : Deed) (b : Bus) :
    PartsOf (d.onBus b).batches (b.batches ++ d.pushed?.toList) := by
  rcases batches_onBus d b with ⟨rfl, hpushed⟩ | ⟨-, hbatches⟩
  · rw [hpushed, Option.toList_none, List.append_nil]
    rcases poll_takes b with ⟨-, hbatches⟩ | ⟨p, htakes⟩
    · rw [hbatches]
      exact .refl _
    · exact htakes.partsOf
  · rw [hbatches]
    exact .refl _

end Deed

/-- No message on a topic is lost, brought twice or overtaken by another one on the topic. -/
theorem onTopic_delivered (b : Bus) (deeds : List Deed) (topic : String) :
    onTopic topic (delivered b deeds) ++ onTopic topic (b.after deeds).batches.flatten =
      onTopic topic b.batches.flatten ++ onTopic topic (pushed deeds).flatten := by
  induction deeds generalizing b with
  | nil => exact (List.append_nil _).symm
  | cons d deeds ih =>
    have hrest := ih (d.onBus b)
    have hafter : b.after (d :: deeds) = (d.onBus b).after deeds := rfl
    rw [hafter, pushed_cons, delivered, onTopic_append, List.append_assoc, hrest,
      ← List.append_assoc, d.onTopic_onBus, List.flatten_append, onTopic_append, List.append_assoc]

theorem batches_of_pushed (b : Bus) (deeds : List Deed) :
    PartsOf (b.after deeds).batches (b.batches ++ pushed deeds) := by
  induction deeds generalizing b with
  | nil =>
    change PartsOf b.batches (b.batches ++ [])
    rw [List.append_nil]
    exact .refl _
  | cons d deeds ih =>
    rw [pushed_cons, ← List.append_assoc]
    exact Trans.trans (ih (d.onBus b)) ((d.partsOf_onBus b).append _)

/-- How a bus serves its consumer that was new and empty when these things were done to it. Its
client may refuse calls by a script. -/
structure InOrder (script : List (Call × Nat)) (deeds : List Deed) (b : Bus) : Prop where
  onTopic_eq : ∀ topic,
    onTopic topic (delivered { refusals := script } deeds) ++ onTopic topic b.batches.flatten =
      onTopic topic (pushed deeds).flatten
  /-- What a poll brings is what is accepted of a batch, and never from a bus that is paused or
  closed. -/
  brings : ∀ taken, b.poll.result = .ok taken → taken ≠ [] →
    b.paused = false ∧ b.closed = false ∧
      ∃ p, b.subscription = some p ∧ (∀ m ∈ taken, p.accepts m.topic = true) ∧
        ∃ waiting ∈ b.batches, taken = waiting.filter (fun m => p.accepts m.topic) ∧
          ∃ batch ∈ pushed deeds, waiting.Sublist batch
  /-- A poll that brings nothing leaves nothing that it could bring. -/
  exhausts : b.poll.result = .ok [] → b.paused = false → ∀ p, b.subscription = some p →
    ∀ m ∈ b.poll.bus.batches.flatten, p.accepts m.topic = false
  fails : ∀ f, b.poll.result = .error f → b.poll.bus.batches = b.batches
  /-- A poll fails only where there is a reason for it. -/
  succeeds : b.closed = false → b.pollFault = none → b.refuses .poll = false →
    ∃ taken, b.poll.result = .ok taken

/-- A bus keeps the messages of each topic in their order, whatever is done to it. -/
theorem delivers_in_order (script : List (Call × Nat)) (deeds : List Deed) :
    InOrder script deeds (Bus.after { refusals := script } deeds) := by
  have hparts := batches_of_pushed { refusals := script } deeds
  have htopics := onTopic_delivered { refusals := script } deeds
  generalize Bus.after { refusals := script } deeds = b at hparts htopics
  refine ⟨htopics, ?_, ?_, ?_, ?_⟩
  · intro taken hpoll hany
    rcases b.poll_cases with ⟨-, f, hfails, -⟩ | ⟨hclosed, hresult, -⟩
    · rw [hfails] at hpoll
      exact absurd hpoll nofun
    obtain rfl : taken = b.deliver.1 := Except.ok.inj (hpoll.symm.trans hresult)
    rcases b.deliver_cases with ⟨-, hnone, -⟩ | ⟨p, hpaused, hsubscription, htakes⟩
    · exact absurd hnone hany
    obtain ⟨waiting, hwaiting, htaken⟩ := htakes.exists_batch hany
    refine ⟨hpaused, hclosed, p, hsubscription, fun m hm => ?_, waiting, hwaiting, htaken,
      hparts.exists_whole hwaiting⟩
    rw [htaken] at hm
    exact (List.mem_filter.1 hm).2
  · intro hpoll hpaused p hp m hm
    rcases b.poll_cases with ⟨-, f, hfails, -⟩ | ⟨-, hresult, hbatches⟩
    · rw [hfails] at hpoll
      exact absurd hpoll nofun
    have hnone : b.deliver.1 = [] := Except.ok.inj (hresult.symm.trans hpoll)
    rcases b.deliver_cases with ⟨hidle | hidle, -, -⟩ | ⟨q, -, hq, htakes⟩
    · exact absurd (hpaused.symm.trans hidle) Bool.false_ne_true
    · exact absurd (hp.symm.trans hidle) nofun
    · obtain rfl : p = q := Option.some.inj (hp.symm.trans hq)
      rw [hbatches] at hm
      obtain ⟨waiting, hwaiting, hmem⟩ := List.mem_flatten.1 hm
      exact htakes.refused_of_nil hnone waiting hwaiting m hmem
  · intro f hpoll
    rcases b.poll_cases with ⟨-, -, -, hbatches⟩ | ⟨-, hresult, -⟩
    · exact hbatches
    · exact absurd (hpoll.symm.trans hresult) nofun
  · intro hclosed hfault hwilling
    rcases b.poll_cases with ⟨hclosed' | hfault' | hrefused, -⟩ | ⟨-, hresult, -⟩
    · exact absurd (hclosed.symm.trans hclosed') Bool.false_ne_true
    · exact absurd hfault hfault'
    · exact absurd (hwilling.symm.trans hrefused) Bool.false_ne_true
    · exact ⟨_, hresult⟩

end BmpFeed.Feed
