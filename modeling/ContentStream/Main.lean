import ContentStream.CommandLine.Dump

/-!
# The command line

Reads the files that the arguments name, runs the tool on them, and writes what it says.
-/

namespace ContentStream.CommandLine

/-- The files among `names` that can be read. Paths are taken as they are. -/
def readFiles (names : List String) : IO Directory := do
  let found ← names.filterMapM fun (name : String) => do
    let data ← (IO.FS.readBinFile name).toBaseIO
    return data.toOption.map fun bytes => (name, bytes.toList)
  return { files := found, place := .entry }

/-- Writes the file that the arguments ask for. -/
def writeOutput (args : Arguments) (report : Dump.Report) : IO Unit :=
  match report.directory.read args.outfile with
  | .ok data =>
    if args.outfile = "-" then pure () else IO.FS.writeBinFile args.outfile data.toByteArray
  | .error _ => pure ()

/-- Runs the tool on files. -/
def runOn (args : Arguments) (words : List String) : IO Dump.Report := do
  let report := Dump.run words (← readFiles (args.resources.toList ++ args.files))
  if report.exitCode ≠ 0 then return report
  match ← (writeOutput args report).toBaseIO with
  | .ok _ => return report
  | .error _ => return .ofFailure (.unusable .absent) report.directory

end ContentStream.CommandLine

open ContentStream

def main (words : List String) : IO UInt32 := do
  let report ← match Arguments.read words with
    | .ok args => CommandLine.runOn args words
    | .error stop => pure (.ofStop stop { files := [] })
  IO.eprint report.stderr
  IO.print report.stdout
  return report.exitCode.toUInt32
