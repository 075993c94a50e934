import BmpFeed.Feed.Kind
import BmpFeed.FirstSeen

/-!
# Counters of an intake

What one intake has read and how much is waiting, and the lines that report it.
-/

namespace BmpFeed

structure Stats where
  messages : Nat := 0
  kinds : FirstSeen Kind Nat := {}
  backlogDepth : Nat := 0
  writerDepth : Nat := 0
  running : Bool := false
  deriving Repr, DecidableEq, Inhabited

namespace Stats

def countMessage (s : Stats) : Stats := { s with messages := s.messages + 1 }

def kindCount (s : Stats) (k : Kind) : Nat := (s.kinds.get? k).getD 0

/-- Counts one message of a kind, however many rows it carries. -/
def countKind (s : Stats) (k : Kind) : Stats :=
  { s with kinds := s.kinds.put k (s.kindCount k + 1) }

def setDepths (s : Stats) (backlog writers : Nat) : Stats :=
  { s with backlogDepth := backlog, writerDepth := writers }

/-- A collector message was counted. -/
def collectorSeen (s : Stats) : Bool := s.kindCount .collector ≠ 0

/-- The text, filled up with blanks to a width. -/
def padded (width : Nat) (s : String) : String :=
  s ++ String.ofList (List.replicate (width - s.toList.length) ' ')

def lines (s : Stats) (instanceId : Nat) : List String :=
  ("-- STATS --   thread: " ++ toString instanceId ++
    "  read: " ++ padded 10 (toString s.messages) ++
    "  consumer_queue: " ++ padded 10 (toString s.backlogDepth) ++
    " writer_queues: " ++ padded 10 (toString s.writerDepth)) ::
  Kind.all.map fun k => "        " ++ padded 16 k.name ++ " : " ++ toString (s.kindCount k)

end Stats

end BmpFeed
