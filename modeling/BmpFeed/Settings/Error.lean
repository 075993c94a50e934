import BmpFeed.Feed.Kind
import BmpFeed.Text.Quoted

/-!
# Settings errors

Why settings are refused: the file cannot be read, its text does not have the form of settings, or
the settings have a defect. `Settings.Error.message` is the wording.
-/

namespace BmpFeed.Settings

/-- What can be wrong with settings of the right form. -/
inductive Defect
  | noIntakes
  | noWriters
  | noQueueRoom
  | noRetries
  | noBatchRecords
  | noHost
  | noPatterns
  | badPattern (pattern : String)
  | repeatedKind (kind : Kind)
  | unnamedTable (kind : Kind)
  | noColumns (kind : Kind)
  /-- An identity column that the table's mapping does not have. -/
  | unknownIdentity (column table : String)
  | badPort (host : String)
  | unknownSslMode (mode : String)
  deriving DecidableEq, Repr

def Defect.message : Defect → String
  | noIntakes => "base.consumer_threads must be at least 1"
  | noWriters => "base.writer_max_threads_per_type must be at least 1"
  | noQueueRoom => "queue sizes must be at least 1"
  | noRetries => "postgres.retries must be at least 1"
  | noBatchRecords => "postgres.batch_records must be at least 1"
  | noHost => "postgres.host is required"
  | noPatterns => "kafka.subscribe_topic_patterns must list at least one pattern"
  | badPattern p => "invalid topic pattern '" ++ p ++ "'"
  | repeatedKind k => "duplicate table mapping for " ++ k.name
  | unnamedTable k => "table mapping for " ++ k.name ++ " has no table name"
  | noColumns k => "table mapping for " ++ k.name ++ " has no columns"
  | unknownIdentity c t => "identity column '" ++ c ++ "' is not a column of " ++ t
  | badPort h => "postgres.host has invalid port: " ++ h
  | unknownSslMode m =>
    "postgres.ssl_mode '" ++ m ++ "': error with configuration: unknown value " ++ Text.quoted m ++
      " for \x60ssl_mode\x60"

inductive Error
  /-- There is no file at the path. -/
  | noFile (path : String)
  | malformed
  | invalid (defect : Defect)
  deriving DecidableEq, Repr

def Error.message : Error → String
  | noFile path =>
    "failed to read config file " ++ path ++ ": No such file or directory (os error 2)"
  | malformed => "failed to parse config"
  | invalid d => "invalid config: " ++ d.message

end BmpFeed.Settings
