import BmpFeed.Intake

/-!
# Descriptions

One-line descriptions of the parts of a run.
-/

namespace BmpFeed

/-- A name and some fields in braces. -/
def braced (name : String) (fields : List (String × String)) (isWhole : Bool) : String :=
  let shown := fields.map fun f => f.1 ++ ": " ++ f.2
  name ++ " \x7b " ++ ", ".intercalate (if isWhole then shown else shown ++ [".."]) ++ " \x7d"

/-- The word for a truth value. -/
def word (b : Bool) : String := if b then "true" else "false"

def Store.Session.describe (s : Store.Session) : String :=
  braced "StorageHandler" [("connected", word s.connected)] false

def Store.describe (t : Store) : String :=
  braced "MemoryStore"
    [("executed", toString t.executed.length), ("connects", toString t.connects)] true

def Feed.Bus.describe (b : Feed.Bus) : String :=
  braced "MemoryBus" [("batches", toString b.batches.length), ("paused", word b.paused)] true

def Writer.describe (w : Writer) : String :=
  braced "WriterHandle" [("id", toString w.id), ("depth", toString w.depth)] true

def Fleet.describe (f : Fleet) : String :=
  braced "WriterPool" (Category.all.map fun c => (c.name, toString (f.crew c).size)) true

def Intake.describe (i : Intake) : String :=
  braced "IngestLoop"
    [("id", toString i.id), ("pool", i.dispatch.fleet.describe),
     ("handoff", toString i.dispatch.backlog.size), ("subscribed", toString i.subscription.count)]
    false

/-- The supervisor of these settings as it is before its start. -/
def Settings.describe (s : Settings) : String :=
  braced "ConsumerApp" [("instances", toString s.base.intakes), ("shutdown", word false)] false

end BmpFeed
