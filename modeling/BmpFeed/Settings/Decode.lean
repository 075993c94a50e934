import BmpFeed.Settings.Check
import BmpFeed.Toml.Document

/-!
# Reading settings

`Settings.ofText` reads the text of a configuration file. The fields of a section are given by name
or, when an array stands for the section, by their order. Fields of other names are ignored, missing
ones have their defaults, and a value of another type than its field is refused.
-/

namespace BmpFeed

namespace Settings

/-- The field of a name that stands at a place of its section. -/
def field? (section_ : Toml) (place : Nat) (name : String) : Option Toml :=
  match section_ with
  | .table entries => entries.lookup name
  | .array items => items[place]?
  | _ => none

/-- Values that can stand for a section; a moment does so with no field. -/
def isSection : Toml → Bool
  | .table _ | .array _ | .moment _ => true
  | _ => false

/-- A way to read a value. -/
abbrev Reading (α : Type) := Toml → Option α

def text : Reading String
  | .text s => some s
  | _ => none

def flag : Reading Bool
  | .boolean b => some b
  | _ => none

/-- A whole number from 0 to the limit. -/
def natural (limit : Nat) : Reading Nat
  | .integer n => if 0 ≤ n ∧ n.toNat ≤ limit then some n.toNat else none
  | _ => none

/-- A number of up to 64 bits. -/
def size : Reading Nat := natural (Nat.pow 2 64 - 1)

/-- A number of up to 32 bits. -/
def count : Reading Nat := natural (Nat.pow 2 32 - 1)

def list {α : Type} (r : Reading α) : Reading (List α)
  | .array items => items.mapM r
  | _ => none

/-- The name under which a moment stands where names and texts are expected. -/
def momentName : String := "$__toml_private_datetime"

/-- Names with texts. -/
def texts : Reading (List (String × String))
  | .table entries => entries.mapM fun e => (text e.2).map fun s => (e.1, s)
  | .moment s => some [(momentName, s)]
  | _ => none

/-- The name of a kind, alone or with nothing assigned to it. -/
def kind : Reading Kind
  | .text s => Kind.ofName? s
  | .table [(s, .table [])] | .table [(s, .array [])] => Kind.ofName? s
  | _ => none

/-- The value of a field, or its default when it is missing. -/
def orElse {α : Type} (default : α) (r : Reading α) : Option Toml → Option α
  | none => some default
  | some v => r v

def Base.ofToml (t : Toml) : Option Base :=
  if isSection t then do
    let d : Base := {}
    some
      { statsInterval := ← orElse d.statsInterval size (field? t 0 "stats_interval")
        intakes := ← orElse d.intakes size (field? t 1 "consumer_threads")
        maxWriters := ← orElse d.maxWriters size (field? t 2 "writer_max_threads_per_type")
        allowedOver :=
          ← orElse d.allowedOver count (field? t 3 "writer_allowed_over_queue_times")
        scaleBackSeconds :=
          ← orElse d.scaleBackSeconds size (field? t 4 "writer_seconds_thread_scale_back")
        rebalanceSeconds :=
          ← orElse d.rebalanceSeconds size (field? t 5 "writer_rebalance_seconds")
        checkSeconds := ← orElse d.checkSeconds size (field? t 6 "writer_check_interval_secs")
        writerQueue := ← orElse d.writerQueue size (field? t 7 "writer_queue_size")
        backlog := ← orElse d.backlog size (field? t 8 "consumer_queue_size") }
  else none

def Postgres.ofToml (t : Toml) : Option Postgres :=
  if isSection t then do
    let d : Postgres := {}
    some
      { host := ← orElse d.host text (field? t 0 "host")
        database := ← orElse d.database text (field? t 1 "db_name")
        user := ← orElse d.user text (field? t 2 "username")
        password := ← orElse d.password text (field? t 3 "password")
        sslEnable := ← orElse d.sslEnable flag (field? t 4 "ssl_enable")
        sslMode := ← orElse d.sslMode text (field? t 5 "ssl_mode")
        batchRecords := ← orElse d.batchRecords size (field? t 6 "batch_records")
        batchMillis := ← orElse d.batchMillis size (field? t 7 "batch_time_millis")
        retries := ← orElse d.retries count (field? t 8 "retries") }
  else none

def Kafka.ofToml (t : Toml) : Option Kafka :=
  if isSection t then do
    let d : Kafka := {}
    some
      { subscribeDelay :=
          ← orElse d.subscribeDelay size (field? t 0 "topic_subscribe_delay_millis")
        patterns := ← orElse d.patterns (list text) (field? t 1 "subscribe_topic_patterns")
        properties := ← orElse d.properties texts (field? t 2 "consumer_config") }
  else none

/-- A table mapping; its kind, its table and its columns have no defaults. -/
def mapping (t : Toml) : Option Sql.Mapping := do
  some
    { kind := ← (field? t 0 "kind").bind kind
      table := ← (field? t 1 "table").bind text
      opening := ← orElse none (fun v => (text v).map some) (field? t 2 "prefix")
      closing := ← orElse "" text (field? t 3 "suffix")
      columns := ← (field? t 4 "columns").bind (list text)
      identity := ← orElse [] (list text) (field? t 5 "identity") }

/-- Settings from the table of a document. -/
def ofToml (t : Toml) : Option Settings := do
  some
    { base := ← orElse {} Base.ofToml (field? t 0 "base")
      postgres := ← orElse {} Postgres.ofToml (field? t 1 "postgres")
      kafka := ← orElse {} Kafka.ofToml (field? t 2 "kafka")
      tables := ← orElse [] (list mapping) (field? t 3 "tables") }

/-- Settings from the text of a file. -/
def ofText (s : String) : Except Error Settings :=
  match (Toml.parse? s).bind ofToml with
  | none => .error .malformed
  | some settings =>
    match settings.defect? with
    | some d => .error (.invalid d)
    | none => .ok settings

end Settings

end BmpFeed
