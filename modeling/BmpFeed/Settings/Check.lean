import BmpFeed.Feed.Pattern
import BmpFeed.Settings.Basic
import BmpFeed.Settings.Error

/-!
# Checking settings

`Settings.defect?` is the first defect of settings in a fixed order: the sizes, the store, the
patterns, and then the table mappings one after another.
-/

namespace BmpFeed

namespace Settings

/-- The first of the conditions that holds names the defect. -/
def firstDefect (checks : List (Bool × Defect)) : Option Defect :=
  (checks.find? Prod.fst).map Prod.snd

def Base.defect? (b : Base) : Option Defect :=
  firstDefect
    [(b.intakes == 0, .noIntakes), (b.maxWriters == 0, .noWriters),
     (b.writerQueue == 0 || b.backlog == 0, .noQueueRoom)]

def Postgres.defect? (p : Postgres) : Option Defect :=
  firstDefect
    [(p.retries == 0, .noRetries), (p.batchRecords == 0, .noBatchRecords),
     (p.host.isEmpty, .noHost)]

def Kafka.defect? (k : Kafka) : Option Defect :=
  if k.patterns.isEmpty then some .noPatterns
  else (k.patterns.find? fun p => (Feed.Pattern.ofText? p).isNone).map .badPattern

/-- The patterns that are well formed; all of them when `defect?` finds nothing. -/
def Kafka.compiled (k : Kafka) : List Feed.Pattern := k.patterns.filterMap Feed.Pattern.ofText?

def mappingDefect? (m : Sql.Mapping) : Option Defect :=
  if m.table.isEmpty then some (.unnamedTable m.kind)
  else if m.columns.isEmpty then some (.noColumns m.kind)
  else
    let names := m.columnSpecs.map Sql.Column.name
    (m.identity.find? fun c => !names.contains c).map fun c => .unknownIdentity c m.table

/-- The first defect of the mappings, when mappings of these kinds came before. -/
def mappingsDefect? (seen : List Kind) : List Sql.Mapping → Option Defect
  | [] => none
  | m :: ms =>
    if m.kind ∈ seen then some (.repeatedKind m.kind)
    else (mappingDefect? m).or (mappingsDefect? (m.kind :: seen) ms)

end Settings

def Settings.defect? (s : Settings) : Option Settings.Defect :=
  s.base.defect?.or (s.postgres.defect?.or (s.kafka.defect?.or (mappingsDefect? [] s.tables)))

end BmpFeed
