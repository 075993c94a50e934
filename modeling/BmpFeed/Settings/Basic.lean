import BmpFeed.Sql.Mapping

/-!
# Settings

Everything the configuration file can set, with the values that hold when it does not.
-/

namespace BmpFeed

namespace Settings

/-- Sizes of the pipeline and the policy for its writers. -/
structure Base where
  /-- Seconds between two reports, 0 for none. -/
  statsInterval : Nat := 300
  /-- How many intakes run side by side. -/
  intakes : Nat := 1
  /-- The most writers of one category. -/
  maxWriters : Nat := 3
  /-- Checks in a row above the high watermark that are tolerated. -/
  allowedOver : Nat := 2
  /-- Seconds between two changes of the number of writers. -/
  scaleBackSeconds : Nat := 1200
  /-- Seconds between two rebalances. -/
  rebalanceSeconds : Nat := 1800
  /-- Seconds between two health checks. -/
  checkSeconds : Nat := 10
  /-- Requests that fit into the queue of one writer. -/
  writerQueue : Nat := 20000
  /-- Requests that fit into the backlog of one intake. -/
  backlog : Nat := 80000
  deriving DecidableEq, Repr, Inhabited

/-- The connection to the store, batching and retries. -/
structure Postgres where
  /-- `host` or `host:port`. -/
  host : String := "localhost:5432"
  database : String := "openbmp"
  user : String := "openbmp"
  password : String := "openbmp"
  sslEnable : Bool := true
  /-- Heeded only while `sslEnable` is set. -/
  sslMode : String := "require"
  /-- Distinct records that make a batch full. -/
  batchRecords : Nat := 200
  /-- Milliseconds a record may wait in a batch. -/
  batchMillis : Nat := 75
  /-- Attempts at one statement. -/
  retries : Nat := 10
  deriving DecidableEq, Repr, Inhabited

def defaultPatterns : List String :=
  ["openbmp\\.parsed\\.collector",
   "openbmp\\.parsed\\.router",
   "openbmp\\.parsed\\.peer",
   "openbmp\\.parsed\\.(base_attribute|unicast_prefix|l3vpn|bmp_stat|ls_node|ls_link|ls_prefix)"]

/-- The subscription and the properties of the bus client. -/
structure Kafka where
  /-- Milliseconds between two stages of the subscription. -/
  subscribeDelay : Nat := 10000
  /-- The topic patterns, subscribed one after another. -/
  patterns : List String := defaultPatterns
  /-- Client properties that replace or join the default ones. -/
  properties : List (String × String) := []
  deriving DecidableEq, Repr, Inhabited

/-- The client properties that hold unless the file sets them. -/
def Kafka.defaultProperties : List (String × String) :=
  [("bootstrap.servers", "localhost:9092"), ("group.id", "openbmp-psql-consumer"),
   ("client.id", "openbmp-psql-consumer"), ("enable.auto.commit", "true"),
   ("auto.commit.interval.ms", "1000"), ("session.timeout.ms", "16000"),
   ("max.poll.interval.ms", "120000"), ("heartbeat.interval.ms", "5000"),
   ("max.partition.fetch.bytes", "2000000"), ("fetch.wait.max.ms", "50"),
   ("auto.offset.reset", "earliest")]

/-- The client properties in force. -/
def Kafka.clientProperties (k : Kafka) : FirstSeen String String :=
  (FirstSeen.ofList defaultProperties).putAll k.properties

end Settings

structure Settings where
  base : Settings.Base := {}
  postgres : Settings.Postgres := {}
  kafka : Settings.Kafka := {}
  tables : List Sql.Mapping := []
  deriving DecidableEq, Repr, Inhabited

end BmpFeed
