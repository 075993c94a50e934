import BmpFeed.Feed.Fault

/-!
# Bus calls

The calls that a consumer makes on the message bus.
-/

namespace BmpFeed.Feed

inductive Call
  | subscribe
  | poll
  | pause
  | resume
  | heartbeat
  | commit
  | close
  deriving DecidableEq, Repr, Inhabited

namespace Call

def all : List Call := [subscribe, poll, pause, resume, heartbeat, commit, close]

def name : Call → String
  | subscribe => "subscribe"
  | poll => "poll"
  | pause => "pause"
  | resume => "resume"
  | heartbeat => "heartbeat"
  | commit => "commit"
  | close => "close"

/-- What a client that refuses the call answers. -/
def refusal (c : Call) : Fault := .client (c.name ++ " refused")

end Call

end BmpFeed.Feed
