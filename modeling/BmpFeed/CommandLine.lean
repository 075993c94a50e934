import BmpFeed.Log.Filter
import BmpFeed.Settings.Decode

/-!
# The command line

Reading the arguments, and what the program does with them: it loads the settings and reports why it
cannot go on. There is no bus to read from in a build without a client for one, so every run ends
with that report at the latest. `CommandLine.run` is the whole program but for reading files and
writing text.
-/

namespace BmpFeed.CommandLine

def programName : String := "bmpsink"

def version : String := "0.1.0"

def defaultConfig : String := "/etc/bmpsink/bmpsink.toml"

/-- The variables that are looked at. -/
structure Environment where
  /-- The path of the configuration file. -/
  config : Option String := none
  /-- The log filter. -/
  logFilter : Option String := none
  deriving Repr, DecidableEq

/-- Options that take a value. -/
inductive Setting
  | config
  | statsInterval
  | logLevel
  deriving DecidableEq, Repr

structure Options where
  config : Option String := none
  statsInterval : Option Nat := none
  logLevel : Option String := none
  deriving DecidableEq, Repr

inductive UsageError
  | unexpected (argument : String)
  | missingValue (setting : Setting)
  | repeated (setting : Setting)
  /-- A value that is no whole number of up to 64 bits. -/
  | badNumber (value : String)
  /-- A value for an option that takes none. -/
  | needlessValue (argument : String)
  deriving DecidableEq, Repr

/-- What the arguments ask for. -/
inductive Request
  | start (options : Options)
  | help
  | version
  deriving DecidableEq, Repr

def Setting.usage : Setting → String
  | config => "--config <CONFIG>"
  | statsInterval => "--stats-interval <STATS_INTERVAL>"
  | logLevel => "--log-level <LOG_LEVEL>"

def UsageError.message : UsageError → String
  | unexpected a => "unexpected argument '" ++ a ++ "' found"
  | missingValue s => "a value is required for '" ++ s.usage ++ "' but none was supplied"
  | repeated s => "the argument '" ++ s.usage ++ "' cannot be used multiple times"
  | badNumber v => "invalid value '" ++ v ++ "' for '" ++ Setting.statsInterval.usage ++ "'"
  | needlessValue a => "unexpected value for '" ++ a ++ "' found; no more were expected"

/-- Sets an option to a value; each can be set once. -/
def Options.set (o : Options) (s : Setting) (value : String) : Except UsageError Options :=
  match s with
  | .config =>
    if o.config.isSome then .error (.repeated s) else .ok { o with config := some value }
  | .logLevel =>
    if o.logLevel.isSome then .error (.repeated s) else .ok { o with logLevel := some value }
  | .statsInterval =>
    match Settings.number? (Nat.pow 2 64 - 1) value with
    | none => .error (.badNumber value)
    | some n =>
      if o.statsInterval.isSome then .error (.repeated s)
      else .ok { o with statsInterval := some n }

def settingOfName? (name : String) : Option Setting :=
  match name with
  | "config" => some .config
  | "stats-interval" => some .statsInterval
  | "log-level" => some .logLevel
  | _ => none

/-- What one argument comes to. -/
inductive Reading
  | value (s : Setting) (value : String)
  /-- The value is the next argument. -/
  | pending (s : Setting)
  | asks (r : Request)
  | wrong (e : UsageError)

/-- An argument after two dashes. -/
def readLong (argument : String) (body : List Char) : Reading :=
  let (name, rest) := body.span (· ≠ '=')
  let name := String.ofList name
  match settingOfName? name, rest with
  | some s, [] => .pending s
  | some s, _ :: value => .value s (String.ofList value)
  | none, _ =>
    if name = "help" then if rest.isEmpty then .asks .help else .wrong (.needlessValue argument)
    else if name = "version" then
      if rest.isEmpty then .asks .version else .wrong (.needlessValue argument)
    else .wrong (.unexpected argument)

/-- An argument after one dash. -/
def readShort (argument : String) : List Char → Reading
  | 'h' :: _ => .asks .help
  | 'V' :: _ => .asks .version
  | ['c'] => .pending .config
  | 'c' :: '=' :: value => .value .config (String.ofList value)
  | 'c' :: value => .value .config (String.ofList value)
  | _ => .wrong (.unexpected argument)

/-- The argument cannot be a value of its own. -/
def isOption (argument : String) : Bool :=
  match argument.toList with
  | '-' :: _ :: _ => true
  | _ => false

/-- Reads the arguments from left to right; the first error or request for help or version
counts. -/
def read (o : Options) : List String → Except UsageError Request
  | [] => .ok (.start o)
  | ["--"] => .ok (.start o)
  | "--" :: a :: _ => .error (.unexpected a)
  | a :: rest =>
    let reading := match a.toList with
      | '-' :: '-' :: body => readLong a body
      | '-' :: c :: body => readShort a (c :: body)
      | _ => .wrong (.unexpected a)
    match reading, rest with
    | .wrong e, _ => .error e
    | .asks r, _ => .ok r
    | .value s v, rest =>
      match o.set s v with
      | .error e => .error e
      | .ok o => read o rest
    | .pending s, v :: rest =>
      if isOption v then .error (.missingValue s)
      else
        match o.set s v with
        | .error e => .error e
        | .ok o => read o rest
    | .pending s, [] => .error (.missingValue s)

def help (env : Environment) : List String :=
  ["Consume parsed BMP records from Kafka and store them in PostgreSQL",
   "",
   "Usage: " ++ programName ++ " [OPTIONS]",
   "",
   "Options:",
   "  -c, --config <CONFIG>",
   "          Configuration file path [env: BMPSINK_CONFIG=" ++ env.config.getD "" ++
     "] [default: " ++ defaultConfig ++ "]",
   "      --stats-interval <STATS_INTERVAL>",
   "          Seconds between stats lines, 0 disables (overrides the config file)",
   "      --log-level <LOG_LEVEL>",
   "          Log level, used when RUST_LOG is not set [default: info]",
   "  -h, --help",
   "          Print help",
   "  -V, --version",
   "          Print version"]

/-- What the program came to. -/
structure Report where
  exitCode : Nat
  output : List String := []
  /-- What is written to the error output. -/
  complaints : List String := []
  deriving DecidableEq, Repr

/-- The log filter in force, and whether parts of the level given as an option were ignored. -/
def filterOf (o : Options) (env : Environment) : Log.Filter × Bool :=
  match env.logFilter.bind Log.Filter.ofText? with
  | some f => (f, false)
  | none => Log.Filter.ofTextLossy (o.logLevel.getD "info")

def noClient : String :=
  "bmpsink was built without the `kafka` cargo feature and cannot read from Kafka; rebuild with " ++
    "`cargo build --release --features kafka`"

/-- The log of a start, up to the report that ends it. -/
def startLog (path : String) (load : String → Except Settings.Error Settings) : List Log.Line :=
  let head : List Log.Line :=
    [⟨.info, "Starting " ++ programName, []⟩, ⟨.info, "Config file: " ++ path, []⟩]
  match load path with
  | .error e => head ++ [⟨.error, "Failed to load configuration: " ++ e.message, []⟩]
  | .ok settings =>
    let counted : List Log.Line :=
      if settings.tables.isEmpty then
        [⟨.warn, "No [[tables]] configured, records will only be counted", []⟩]
      else []
    head ++ counted ++ [⟨.error, noClient, []⟩]

/-- A line of the log with the name of the program. -/
def logText (l : Log.Line) : String := l.level.name ++ " " ++ programName ++ ": " ++ l.message

/-- What the program does, given how settings are loaded from a path. -/
def run (arguments : List String) (env : Environment)
    (load : String → Except Settings.Error Settings) : Report :=
  match read {} arguments with
  | .error e => { exitCode := 2, complaints := ["error: " ++ e.message] }
  | .ok .help => { exitCode := 0, output := help env }
  | .ok .version => { exitCode := 0, output := [programName ++ " " ++ version] }
  | .ok (.start o) =>
    let path := (o.config.or env.config).getD defaultConfig
    let (filter, ignored) := filterOf o env
    let shown := (startLog path load).filter fun l => filter.shows programName l.level
    { exitCode := 1, output := shown.map logText
      complaints := if ignored then ["ignoring parts of the log level"] else [] }

end BmpFeed.CommandLine
