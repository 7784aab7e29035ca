import WireSchema.Checker

/-!
The command line: `[--verbose | -v] [--quiet | -q] [--summary | -s] [file ...]`. Files are loaded
in order; without any, the standard input is loaded.
-/

namespace WireSchema.Checker

def readSource (path : String) : IO (Option String) := do
  try
    return some (← IO.FS.readFile path)
  catch e =>
    IO.eprintln s!"{path}: {e}"
    return none

def readSources (paths : List String) : IO (Except String (List Source)) := do
  if paths.isEmpty then
    let text ← (← IO.getStdin).readToEnd
    return .ok [⟨standardInput, text⟩]
  else gather readSource paths

def run (arguments : List String) : IO UInt32 := do
  let options := Options.ofArguments arguments
  match ← readSources options.paths with
  | .error _ => return 1
  | .ok sources => do
      let report := check options sources
      report.lines.forM (IO.println ·)
      match report.totals? with
      | some line => IO.eprintln line
      | none => pure ()
      return report.exitCode

end WireSchema.Checker

def main (arguments : List String) : IO UInt32 := WireSchema.Checker.run arguments
