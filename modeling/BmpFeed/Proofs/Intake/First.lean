import BmpFeed.Proofs.Intake.Sources
import BmpFeed.Proofs.Intake.Tape

/-!
# Statements of messages that are written at once come first

`Journal.inline_first` is about every run of an intake, whatever its writers and the store do, and
also about runs that a statement has ended. The statements of a message end before those of a later
one begin, in the intake's own session, and a row that came with a message gets into a query of a
writer only when all statements of the messages before it have ended.
-/

namespace BmpFeed.Intake

variable {s : Settings} {log : List Entry} {now : Nat} {i : Intake}

/-- The order of statements, by the journal of an intake. -/
structure InlineFirst (s : Settings) (log : List Entry) : Prop where
  /-- Messages are taken up in the order in which polls brought them. -/
  in_order : received (shown log) <+: polled (shown log)
  /-- When a message is taken up, all statements that those before it call for have ended. What it
  calls for itself is its insert and then its corrections. -/
  taken : ∀ past m due later, log = past ++ .taken m due :: later →
    ended past = dues past ∧
      ∃ now i rest, Journal s past now i ∧ i.tasks = .handle m :: rest ∧ due = i.due m
  /-- A query in the intake's session is for a statement of the last message that was taken up, and
  all statements before it have ended. -/
  own : ∀ past sql n later, log = past ++ .asked sql n :: later →
    ∃ earlier m before after, takings past = earlier ++ [(m, before ++ sql :: after)] ∧
      ended past = earlier.flatMap Prod.snd ++ before
  /-- The queries that have ended are the first of those that began. -/
  issued : ended log <+: asked log
  /-- A query ends when it has succeeded or its attempts are spent. -/
  budget : ∀ sql ok n, .ended sql ok n ∈ log → ok = true ∨ n = s.postgres.retries
  /-- The store has run the statements of the queries that have succeeded. -/
  success : succeeded log <+: executed log
  /-- A query of a writer is for a statement whose rows came with messages that were taken up. For
  each of these messages, all statements of those before it have ended. -/
  others : ∀ past id sql n later,
    log = past ++ .dispatch (.fleet (.writer id (.queried sql n))) :: later →
      ∃ st, Writer.asks? (Fleet.of id (fleetEvents (shown past))) = some st ∧ st.sql = sql ∧
        (∀ row ∈ st.rows, ∃ m ∈ (polled (shown log)).take (takings past).length,
          row.2 ∈ fragments s.tables st.template row.1 m) ∧
        ∀ j < (takings past).length, ((takings past).take j).flatMap Prod.snd <+: ended past

/-- Statements of messages that are written at once come first. -/
theorem Journal.inline_first (h : Journal s log now i) : InlineFirst s log where
  in_order := h.run.received_in_order
  taken past m due later hlog := (h.noted hlog).taken
  own past sql n later hlog := (h.noted hlog).asked
  issued := by
    obtain ⟨_, _, _, haccount⟩ := h.exists_account
    exact ⟨_, haccount.asked_eq.symm⟩
  budget sql ok n hmem := by
    obtain ⟨past, later, hlog⟩ := List.append_of_mem hmem
    exact (h.noted hlog).ended
  success := by
    obtain ⟨_, _, _, haccount⟩ := h.exists_account
    exact ⟨_, haccount.executed_eq.symm⟩
  others past id sql n later hlog := by
    obtain ⟨⟨now', i', hpast⟩, st, hasks, hsql, hrows⟩ := (h.noted hlog).queried
    refine ⟨st, hasks, hsql, fun row hrow => ?_, fun j hj => ?_⟩
    · rw [← h.received_eq_take hlog]
      exact hrows row hrow
    · have hsplit : takings past =
          (takings past).take j ++ (takings past)[j] :: (takings past).drop (j + 1) := by
        rw [← List.drop_eq_getElem_cons hj, List.take_append_drop]
      exact hpast.ended_before hsplit

/-- The store runs the statements for the peer first, though the peer came second. -/
theorem inline_first_sample :
    ∃ log now i, Journal routeSettings log now i ∧ i.outcome = some .stopped ∧
      received (shown log) = [routeOf "a", peerUp, routeOf "b"] ∧
      runs log =
        ["INSERT INTO bgp_peers (hash_id) VALUES ('h')",
          "DELETE FROM ip_rib WHERE peer_hash_id = 'h' AND timestamp < '2024-01-01'",
          "INSERT INTO ip_rib (prefix,peer_hash_id) VALUES ('a','h'),('b','h')"] ∧
      InlineFirst routeSettings log :=
  ⟨_, _, _, journal_sampleTape, by decide +kernel, by decide +kernel, by decide +kernel,
    journal_sampleTape.inline_first⟩

end BmpFeed.Intake
