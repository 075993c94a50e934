/-!
# Feed faults

What can go wrong on the message bus.
-/

namespace BmpFeed.Feed

inductive Fault
  | client (reason : String)
  /-- The topic pattern was not accepted. -/
  | subscribe (reason : String)
  | closed
  deriving DecidableEq, Repr, Inhabited

def Fault.message : Fault → String
  | client reason => "bus client error: " ++ reason
  | subscribe reason => "subscription failed: " ++ reason
  | closed => "bus consumer is closed"

end BmpFeed.Feed
