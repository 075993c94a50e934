import BmpFeed.Settings.Basic
import BmpFeed.Settings.Error
import BmpFeed.Settings.Number
import BmpFeed.Text.Case
import BmpFeed.Text.Cut

/-!
# Hosts

The address of the store: `Postgres.address` takes a host apart into name and port, and
`Postgres.checkClient` says whether a client can be made from the settings.
-/

namespace BmpFeed.Settings

def Postgres.defaultPort : Nat := 5432

/-- The name and the port of the host; the port follows the last colon. -/
def Postgres.address (p : Postgres) : Except Error (String × Nat) :=
  match Text.splitLast? p.host ':' with
  | none => .ok (p.host, defaultPort)
  | some (name, port) =>
    match number? 65535 port with
    | some n => .ok (name, n)
    | none => .error (.invalid (.badPort p.host))

/-- The modes of transport security, in any letter case. -/
def Postgres.sslModes : List String :=
  ["disable", "allow", "prefer", "require", "verify-ca", "verify-full"]

/-- The settings can be used for a client: the port is one, and so is the mode, if it matters. -/
def Postgres.checkClient (p : Postgres) : Except Error Unit := do
  let _ ← p.address
  if p.sslEnable ∧ !sslModes.any (Text.equalsIgnoringCase p.sslMode) then
    .error (.invalid (.unknownSslMode p.sslMode))

end BmpFeed.Settings
