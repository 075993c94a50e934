import BmpFeed.Text.Case
import BmpFeed.Text.Cut

/-!
# Record kinds

The kinds of records on the feed, the names they go by in tags and topics, and the work category
whose writers receive them. A record's tag decides its kind; the topic is asked only when the tag
names none (`Kind.classify`).
-/

namespace BmpFeed

/-- A class of work with writers of its own. -/
inductive Category
  /-- Everything that is not attribute data. -/
  | general
  /-- Path attributes, the bulk of a busy feed. -/
  | bulk
  deriving DecidableEq, Repr, Inhabited

namespace Category

/-- The categories in the order in which their writers are started. -/
def all : List Category := [general, bulk]

def name : Category → String
  | general => "default"
  | bulk => "attribute"

end Category

/-- What a record on the feed describes. -/
inductive Kind
  | collector
  | router
  | peer
  | baseAttribute
  | unicastPrefix
  | l3vpn
  | bmpStat
  | lsNode
  | lsLink
  | lsPrefix
  deriving DecidableEq, Repr, Inhabited

namespace Kind

def all : List Kind :=
  [collector, router, peer, baseAttribute, unicastPrefix, l3vpn, bmpStat, lsNode, lsLink, lsPrefix]

/-- The name in tags, in topics and in the configuration. -/
def name : Kind → String
  | collector => "collector"
  | router => "router"
  | peer => "peer"
  | baseAttribute => "base_attribute"
  | unicastPrefix => "unicast_prefix"
  | l3vpn => "l3vpn"
  | bmpStat => "bmp_stat"
  | lsNode => "ls_node"
  | lsLink => "ls_link"
  | lsPrefix => "ls_prefix"

/-- The place of a kind in `Kind.all`. -/
def index (k : Kind) : Nat := all.idxOf k

def ofName? (s : String) : Option Kind := all.find? fun k => k.name == s

/-- The kind a tag names, in any letter case. -/
def ofTag? (tag : String) : Option Kind := all.find? fun k => Text.equalsIgnoringCase k.name tag

/-- What every topic of the parsed feed begins with. -/
def topicPrefix : String := "openbmp.parsed."

/-- The kind whose topic this is, to the letter. -/
def ofTopic? (topic : String) : Option Kind :=
  (Text.dropPrefix? topic topicPrefix).bind ofName?

/-- The tag wins, the topic is the fallback. -/
def classify (tag : Option String) (topic : String) : Option Kind :=
  (tag.bind ofTag?).or (ofTopic? topic)

def category : Kind → Category
  | baseAttribute => .bulk
  | _ => .general

/-- Kinds that are written at once, before any later record, and not batched. -/
def isSynchronous : Kind → Bool
  | collector | router | peer => true
  | _ => false

end Kind

end BmpFeed
