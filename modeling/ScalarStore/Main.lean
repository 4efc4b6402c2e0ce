import ScalarStore.CommandLine.Run

/-! # The program

Reads the environment, the data file and the clock, runs the command line, prints what comes of
it and writes the file that it changes. -/

open ScalarStore CommandLine

/-- The names of the environment variables that the program knows. -/
def knownVariables : List String :=
  ["SCALARQ_DATA", "SCALARQ_LOG_LEVEL", "SCALARQ_DEFAULT_PARTITION", "SCALARQ_MAX_FILTER_LENGTH",
    "SCALARQ_MAX_RESULT_WINDOW", "SCALARQ_MAX_EXPRESSION_DEPTH"]

/-- The seconds that the clock shows. Only its differences count. -/
def clockReading : IO Binary64 := do
  return .ofDecimal false (← IO.monoMsNow) (-3)

/-- The text of a file, if it can be read. -/
def fileText? (path : String) : IO (Option String) := do
  try return some (← IO.FS.readFile path)
  catch _ => return none

def main (words : List String) : IO UInt32 := do
  let values ← knownVariables.mapM fun name => do return (name, ← IO.getEnv name)
  let environment (name : String) : Option String := (values.lookup name).join
  let loadedAt ← clockReading
  let path := (dataPath? environment words).map DataFile.normal
  let text ← match path with
    | some path => fileText? path
    | none => pure none
  let files (name : String) : Option String := if some name = path then text else none
  let outcome := run ⟨environment, files, loadedAt, ← clockReading⟩ words
  IO.print outcome.output
  IO.eprint outcome.complaint
  if let some fault := outcome.fault? then IO.eprintln fault.message
  if let some (file, content) := outcome.written then IO.FS.writeFile file content
  return outcome.status.exitCode.toUInt32
