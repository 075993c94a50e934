import BmpFeed.Feed.Call
import BmpFeed.Log.Line
import BmpFeed.Routers
import BmpFeed.Sql.Request
import BmpFeed.Text.Quoted

/-!
# Notes

Everything a run says about itself, one constructor per kind of event. `Note.line?` is the log line
of a note. Notes without a line record what passes between the parts of a run: the calls on the bus
and the requests that change hands.
-/

namespace BmpFeed

inductive Note
  -- sessions of the store
  | connected
  | connectFailed (fault : Store.Fault)
  | executing (session attempt : Nat) (sql : String)
  /-- The last attempt at a statement failed. -/
  | statementFailed (attempt : Nat) (fault : Store.Fault)
  | connectionLost (fault : Store.Fault)
  | retriesExhausted (retries : Nat)
  | statementDropped (sql : String)
  | selectFailed (fault : Store.Fault) (sql : String)
  -- writers
  | writerStarted (writer : Nat)
  /-- A writer took a request from its queue. -/
  | requestTaken (writer : Nat) (request : Request)
  | fragmentOversized (writer : Nat)
  | batchFlushed (writer records : Nat)
  | writerStopped (writer : Nat)
  | writerJoined (writer : Nat)
  | writerFailed (writer : Nat)
  -- fleets
  /-- A request went into the queue of a writer. -/
  | requestDelivered (writer : Nat) (request : Request)
  | writerLoad (category : Category) (place keys depth above running : Nat)
  | watermarkAdding (category : Category) (place depth writers : Nat)
  | watermarkAtMost (category : Category) (place depth writers : Nat)
  | watermarkOver (category : Category) (place depth above : Nat)
  | rebalancing (category : Category) (writers : Nat)
  | writerReplaced (category : Category) (writer replacement : Nat)
  | writerResetting (category : Category) (writer depth : Nat)
  | stillDraining (category : Category) (depth : Nat)
  | drainingAll (category : Category)
  | writerAdding (category : Category)
  | writerAdded (category : Category) (writers : Nat)
  | writerRemoving (category : Category)
  | writerRemoved (category : Category) (writers : Nat)
  | writersDismissed (category : Category)
  -- the bus
  /-- A call on the bus and its fault; a poll also says how many messages it brought. -/
  | busCalled (call : Feed.Call) (messages : Nat) (fault : Option Feed.Fault)
  | heartbeatFailed (fault : Feed.Fault)
  | subscribed (topic : String)
  | subscription (pattern : String)
  -- intakes
  | intakeStarted (intake : Nat)
  | storeUnreachable (intake : Nat)
  | busFailed (intake : Nat) (fault : Feed.Fault)
  | intakeStopped (intake : Nat)
  | messageUnknown (topic : String) (tag : Option String)
  | payloadRefused (kind : Kind) (key : String) (error : PayloadError)
  | routerRefreshed (router : Routers.Stored)
  | routerEvent (event : Routers.Event)
  | peersMarkedDown (sql : String)
  | kindUnmapped (kind : Kind)
  | pauseFailed (fault : Feed.Fault)
  | backlogDraining (intake remaining : Nat)
  -- the supervisor
  | intakeNotStarted (intake : Nat) (reason : String)
  | intakesStarted (count : Nat)
  | allStopping
  | intakeFailed (reason : String)
  | statistics (text : String)

namespace Note

open Log

/-- A number as the value of a field. -/
def num (name : String) (n : Nat) : String × String := (name, toString n)

def ofCategory (c : Category) : String × String := ("category", c.name)

def error (text : String) : String × String := ("error", text)

def trace (message : String) (fields : List (String × String)) : Option Line :=
  some ⟨.trace, message, fields⟩

def debug (message : String) (fields : List (String × String)) : Option Line :=
  some ⟨.debug, message, fields⟩

def info (message : String) (fields : List (String × String)) : Option Line :=
  some ⟨.info, message, fields⟩

def warn (message : String) (fields : List (String × String)) : Option Line :=
  some ⟨.warn, message, fields⟩

def fail (message : String) (fields : List (String × String)) : Option Line :=
  some ⟨.error, message, fields⟩

/-- A tag that may be missing. -/
def tagText : Option String → String
  | some t => "Some(" ++ Text.quoted t ++ ")"
  | none => "None"

/-- The log line of a note. -/
def line? : Note → Option Line
  | connected => info "Connected to storage" []
  | connectFailed f => warn "Failed to connect to storage" [error f.message]
  | executing _ attempt sql =>
    trace "Executing statement" [num "attempt" attempt, ("sql", sql)]
  | statementFailed attempt f =>
    info "Statement failed" [num "attempt" attempt, ("code", f.code?.getD "-"), error f.message]
  | connectionLost f => fail "Not connected to storage" [error f.message]
  | retriesExhausted n =>
    warn ("Failed to insert/update after " ++ toString n ++ " max retries") []
  | statementDropped sql => debug "Dropped statement" [("sql", sql)]
  | selectFailed f sql => warn "Select failed" [error f.message, ("sql", sql)]
  | writerStarted w => debug "Writer started" [num "writer" w]
  | requestTaken _ _ => none
  | fragmentOversized w => debug "Oversized value, flushing early" [num "writer" w]
  | batchFlushed w records => debug "Flushed batch" [num "writer" w, num "records" records]
  | writerStopped w => debug "Writer stopped" [num "writer" w]
  | writerJoined w => info "Writer shut down" [num "writer" w]
  | writerFailed w => warn "Writer task failed" [num "writer" w, error "panic"]
  | requestDelivered _ _ => none
  | writerLoad c place keys depth above running =>
    debug "Writer load"
      [ofCategory c, num "writer" place, num "assigned" keys, num "depth" depth,
       num "over_count" above, num "messages" running]
  | watermarkAdding c place depth writers =>
    info "Writer over high watermark, adding writer"
      [ofCategory c, num "writer" place, num "depth" depth, num "workers" writers]
  | watermarkAtMost c place depth writers =>
    info "Writer over high watermark, running max writers"
      [ofCategory c, num "writer" place, num "depth" depth, num "workers" writers]
  | watermarkOver c place depth above =>
    info "Writer over high watermark"
      [ofCategory c, num "writer" place, num "depth" depth, num "over_count" above]
  | rebalancing c writers => info "Rebalancing writers" [ofCategory c, num "workers" writers]
  | writerReplaced c w replacement =>
    warn "Writer task exited, replacing"
      [ofCategory c, num "writer" w, num "replacement" replacement]
  | writerResetting c w depth =>
    info "Resetting writer, draining queue" [ofCategory c, num "writer" w, num "depth" depth]
  | stillDraining c depth => info "... draining writer queue" [ofCategory c, num "depth" depth]
  | drainingAll c => info "Draining queues to reset writers" [ofCategory c]
  | writerAdding c => info "Adding writer" [ofCategory c]
  | writerAdded c writers => info "Added writer" [ofCategory c, num "workers" writers]
  | writerRemoving c => info "Removing writer" [ofCategory c]
  | writerRemoved c writers => info "Removed writer" [ofCategory c, num "workers" writers]
  | writersDismissed c => info "Shutting down writers" [ofCategory c]
  | busCalled _ _ _ => none
  | heartbeatFailed f => warn "Bus heartbeat failed" [error f.message]
  | subscribed topic => info "Subscribed to topic" [("topic", topic)]
  | subscription pattern => debug "Topics regex pattern" [("pattern", pattern)]
  | intakeStarted i => info "Consumer started" [num "instance" i]
  | storeUnreachable i =>
    warn "Storage not reachable yet, will retry on first write" [num "instance" i]
  | busFailed i f => fail "Consumer stopped on bus error" [num "instance" i, error f.message]
  | intakeStopped i => info "Consumer stopped" [num "instance" i]
  | messageUnknown topic tag =>
    debug "Skipping record of unknown type" [("topic", topic), ("content_type", tagText tag)]
  | payloadRefused k key e =>
    warn "Failed to decode record, skipping" [("kind", k.name), ("key", key), error e.message]
  | routerRefreshed r =>
    info "Updating router state" [("router", r.name), ("hash", r.hash), ("state", r.state)]
  | routerEvent e =>
    debug "Router event"
      [("router", e.hash), ("action", e.action), num "connections" e.connections]
  | peersMarkedDown sql => debug "Marking peers down for reconnected router" [("sql", sql)]
  | kindUnmapped k => debug "No table mapped, skipping record" [("kind", k.name)]
  | pauseFailed f => debug "Pause before shutdown failed" [error f.message]
  | backlogDraining i remaining =>
    info "Draining consumer queue" [num "instance" i, num "remaining" remaining]
  | intakeNotStarted i reason =>
    fail "Failed to start consumer, stopping started ones" [num "instance" i, error reason]
  | intakesStarted n => info "Consumers started" [num "instances" n]
  | allStopping => info "Consumer stopped, shutting down all consumers" []
  | intakeFailed reason => fail "Consumer failed" [error reason]
  | statistics text => info text []

end Note

end BmpFeed
