import BmpFeed.Sql.Literal
import BmpFeed.Text.Case

/-!
# Corrective statements

A collector that started or stopped has no live routers, and a peer that changed its state has
learned nothing yet. The statements that say so run right after the event's own insert.
-/

namespace BmpFeed.Correction

/-- The field with the hash of a collector, router or peer. -/
def hashField : String := "hash_id"

def actionField : String := "action"

def timestampField : String := "timestamp"

def collectorRestarts (r : Record) : Bool :=
  match r.text? actionField with
  | some a => Text.equalsIgnoringCase a "started" || Text.equalsIgnoringCase a "stopped"
  | none => false

/-- Marks the routers of a collector down. -/
def routersDown (hash : String) : String :=
  "UPDATE routers SET state = 'down' WHERE collector_hash_id = " ++ Sql.quote hash

/-- Removes what a peer learned before the time of its event. -/
def ribDelete (hash timestamp : String) : String :=
  "DELETE FROM ip_rib WHERE peer_hash_id = " ++ Sql.quote hash ++
    " AND timestamp < " ++ Sql.quote timestamp

/-- Marks the peers of a router down as of the time of its event. -/
def peersDown (hash timestamp : String) : String :=
  "UPDATE bgp_peers SET state = 'down' WHERE router_hash_id = " ++ Sql.quote hash ++
    " AND timestamp < " ++ Sql.quote timestamp

def ofCollectors (rows : List Record) : List String :=
  (rows.filter collectorRestarts).filterMap fun r => (r.text? hashField).map routersDown

def ofPeers (rows : List Record) : List String :=
  rows.filterMap fun r =>
    (r.text? hashField).bind fun hash =>
      (r.text? timestampField).map fun timestamp => ribDelete hash timestamp

end BmpFeed.Correction
