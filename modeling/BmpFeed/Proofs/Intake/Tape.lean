import BmpFeed.Proofs.Intake.Journal
import BmpFeed.Proofs.Intake.Trace

/-!
# Journals by the clock

A trace of an intake with its journal, which is a journal of a run by `Tape.journal_finish`.
-/

namespace BmpFeed.Intake

/-- The statements that the store ran for an intake and its writers, in order. -/
def runs (log : List Entry) : List String :=
  log.filterMap fun
    | .executed sql | .dispatch (.fleet (.writer _ (.executed sql))) => some sql
    | _ => none

/-- What the next step of a trace adds to the journal. -/
def Trace.entries (x : Trace) : List Entry :=
  if x.stepIntake?.isSome then x.intake.entries x.now x.store
  else
    ((x.intake.dispatch.fleet.writers.find? fun w => (w.step? x.now x.store).isSome).map fun w =>
      writerEntries w x.store).getD []

/-- A step of a trace is one of its intake or of a writer. -/
theorem Trace.cases_of_step {x y : Trace} (h : x.step? = some y) :
    y.now = x.now ∧
      ((∃ turn, x.intake.step? x.now x.intake.bus.batches.isEmpty x.store = some turn ∧
          x.entries = x.intake.entries x.now x.store ∧ y.intake = turn.intake) ∨
        (x.intake.step? x.now x.intake.bus.batches.isEmpty x.store = none ∧
          ∃ w turn, w ∈ x.intake.dispatch.fleet.writers ∧ w.step? x.now x.store = some turn ∧
            x.entries = writerEntries w x.store ∧
            y.intake =
              { x.intake with
                dispatch :=
                  { x.intake.dispatch with
                    fleet := x.intake.dispatch.fleet.replace turn.writer } })) := by
  unfold entries
  rcases Option.or_eq_some_iff.1 h with hy | ⟨hnone, hy⟩
  · rw [hy]
    obtain ⟨turn, hturn, rfl⟩ := Option.map_eq_some_iff.1 hy
    exact ⟨rfl, .inl ⟨turn, hturn, rfl, rfl⟩⟩
  · unfold stepWriter? at hy
    rw [hnone]
    generalize hws : x.intake.dispatch.fleet.writers = ws at hy
    obtain ⟨before, w, after, rfl, hw, hbefore⟩ := List.findSome?_eq_some_iff.1 hy
    obtain ⟨turn, hturn, rfl⟩ := Option.map_eq_some_iff.1 hw
    have hfind : (before ++ w :: after).find? (fun w => (w.step? x.now x.store).isSome) =
        some w := by
      refine List.find?_eq_some_iff_append.2 ⟨by simp [hturn], before, after, rfl, fun v hv => ?_⟩
      simpa using hbefore v hv
    refine ⟨rfl, .inr ⟨Option.map_eq_none_iff.1 hnone, w, turn, by simp, hturn, ?_, rfl⟩⟩
    rw [hfind]
    rfl

structure Tape where
  trace : Trace
  log : List Entry := []

namespace Tape

/-- An intake that has just been opened on a bus. -/
def start (s : Settings) (bus : Feed.Bus) (t : Store) : Tape := { trace := .start s bus t }

instance : Timed Tape where
  now x := x.trace.now
  setNow x t := { x with trace := { x.trace with now := t } }
  step? x := x.trace.step?.map fun trace => ⟨trace, x.log ++ x.trace.entries⟩
  wake? x := x.trace.wake?

/-- Goes on for some steps, until the condition holds. -/
def finish (done : Tape → Bool) (fuel : Nat) (x : Tape) : Tape := Timed.finish done fuel x

variable {s : Settings} {x x' : Tape}

theorem journal_start (s : Settings) (bus : Feed.Bus) (t : Store) :
    Journal s (start s bus t).log (start s bus t).trace.now (start s bus t).trace.intake :=
  .open_ 0 bus 0 t

theorem journal_step (h : Journal s x.log x.trace.now x.trace.intake)
    (hs : Timed.step? x = some x') : Journal s x'.log x'.trace.now x'.trace.intake := by
  obtain ⟨y, hy, rfl⟩ := Option.map_eq_some_iff.1 hs
  obtain ⟨hnow, ⟨turn, hturn, hentries, hi⟩ | ⟨-, w, turn, hw, hturn, hentries, hi⟩⟩ :=
    Trace.cases_of_step hy
  · dsimp only
    rw [hnow, hentries, hi]
    exact h.step hturn
  · dsimp only
    rw [hnow, hentries, hi]
    exact h.write hw hturn

theorem journal_finish (h : Journal s x.log x.trace.now x.trace.intake) (done : Tape → Bool)
    (fuel : Nat) :
    Journal s (finish done fuel x).log (finish done fuel x).trace.now
      (finish done fuel x).trace.intake := by
  exact Timed.finish_induction
    (P := fun x : Tape => Journal s x.log x.trace.now x.trace.intake)
    (fun _ _ h hs => journal_step h hs) (fun _ _ h => h.wait (Nat.le_max_right _ _)) done fuel h

end Tape

/-! ## Samples -/

/-- Peers are written at once, and the routes that they learn are batched. -/
def routeSettings : Settings :=
  { base := { maxWriters := 1 }
    kafka := { patterns := ["t"] }
    tables :=
      [{ kind := .peer, table := "bgp_peers", columns := ["hash_id"], identity := ["hash_id"] },
        { kind := .unicastPrefix, table := "ip_rib", columns := ["prefix", "peer_hash_id"]
          identity := ["prefix"] }] }

/-- A peer changes its state. -/
def peerUp : Feed.Message :=
  { topic := "t", key := "h", tag := some "peer"
    payload := "\x7b\"hash_id\":\"h\",\"timestamp\":\"2024-01-01\"\x7d" }

/-- The peer learns a route to a prefix. -/
def routeOf (p : String) : Feed.Message :=
  { topic := "t", key := "h", tag := some "unicast_prefix"
    payload := "\x7b\"prefix\":\"" ++ p ++ "\",\"peer_hash_id\":\"h\"\x7d" }

/-- An intake that gets a route, a change of its peer, and another route in one batch. -/
def sampleTape : Tape :=
  (Tape.start routeSettings { batches := [[routeOf "a", peerUp, routeOf "b"]] } {}).finish
    (fun x => x.trace.intake.hasEnded) 300

theorem journal_sampleTape :
    Journal routeSettings sampleTape.log sampleTape.trace.now sampleTape.trace.intake := by
  unfold sampleTape
  exact Tape.journal_finish (Tape.journal_start _ _ _) _ 300

end BmpFeed.Intake
