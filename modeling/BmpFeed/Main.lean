import BmpFeed.CommandLine

/-!
# The program
-/

namespace BmpFeed

/-- The settings in the file at a path. -/
def loadSettings (contents : Option String) (path : String) : Except Settings.Error Settings :=
  match contents with
  | some s => Settings.ofText s
  | none => .error (.noFile path)

end BmpFeed

open BmpFeed in
/-- Runs the command line with the files and the variables of the process. -/
def main (arguments : List String) : IO UInt32 := do
  let env : CommandLine.Environment :=
    { config := ← IO.getEnv "BMPSINK_CONFIG", logFilter := ← IO.getEnv "RUST_LOG" }
  let path := match CommandLine.read {} arguments with
    | .ok (.start o) => (o.config.or env.config).getD CommandLine.defaultConfig
    | _ => CommandLine.defaultConfig
  let contents ← try some <$> IO.FS.readFile path catch _ => pure none
  let report := CommandLine.run arguments env (loadSettings contents)
  for line in report.output do IO.println line
  for line in report.complaints do IO.eprintln line
  return report.exitCode.toUInt32
