import ContentStream.CommandLine.Directory
import ContentStream.CommandLine.Help
import ContentStream.Output.EventLines
import ContentStream.Output.Tags
import ContentStream.Text.Utf8

/-!
# The dump tool

Runs files of content and writes what happened, as lines of JSON or as tagged text. The tool is a
function of its arguments and the files at hand.
-/

namespace ContentStream

namespace Dump

inductive Failure where
  | usage
  | cannotOpen (name : String) (error : PathError)
  | notFound (name : String)
  | notDictionary (name : String) (pos : Nat)
  | malformed (name : String) (error : Error)
  /-- The program broke down over inline data. -/
  | breakdown
  | unusable (error : PathError)

def Failure.message : Failure → String
  | usage => Help.usage
  | cannotOpen name error =>
    "Error: cannot open " ++ name ++ "\n\nCaused by:\n    " ++ error.message
  | notFound name => "Error: File not found: " ++ name
  | notDictionary name pos => "Error: " ++ name ++ ": expected a dictionary at " ++ toString pos
  | malformed name error => "Error: " ++ name ++ ": " ++ error.message
  | breakdown => Error.missingSegment.message
  | unusable error => "Error: " ++ error.message

def Failure.exitCode : Failure → Nat
  | usage => 2
  | breakdown => 101
  | _ => 1

/-- What the tool leaves: its exit code, its output and the directory. -/
structure Report where
  exitCode : Nat
  stdout : String := ""
  stderr : String := ""
  directory : Directory

def Report.ofFailure (failure : Failure) (dir : Directory) : Report :=
  { exitCode := failure.exitCode, stderr := failure.message ++ "\n", directory := dir }

/-- What is said instead of a run. -/
def Report.ofStop (stop : Arguments.Stop) (dir : Directory) : Report :=
  match stop with
  | .misuse => .ofFailure .usage dir
  | .help full => { exitCode := 0, stdout := if full then Help.full else Help.brief, directory := dir }
  | .version => { exitCode := 0, stdout := Help.version, directory := dir }

/-- The bytes of a file. A directory can be opened, but has no bytes. -/
def readFile (dir : Directory) (name : String) : Except Failure (List UInt8) :=
  match dir.read name with
  | .ok data => .ok data
  | .error .noDevice => .error (.unusable .noDevice)
  | .error e => .error (.cannotOpen name e)

/-- The resources in a file. Only the first object counts, and an empty file has none. -/
def readResources (dir : Directory) (name : String) : Except Failure Dict := do
  let data ← readFile dir name
  match Content.itemsOf data with
  | [] => .ok []
  | (_, .ok (.operand (.dict d))) :: _ => .ok d
  | (pos, .ok _) :: _ => .error (.notDictionary name pos)
  | (_, .error .missingSegment) :: _ => .error .breakdown
  | (_, .error e) :: _ => .error (.malformed name e)

def readContent (dir : Directory) (name : String) : Except Failure (List UInt8) :=
  if dir.leads name then readFile dir name else .error (.notFound name)

/-- The pages that the arguments ask for. -/
def readPages (args : Arguments) (dir : Directory) : Except Failure (List Page) := do
  let resources ← match args.resources with
    | some name => readResources dir name
    | none => .ok []
  let contents ← args.files.mapM (readContent dir)
  return if args.concat then [⟨contents, resources⟩]
    else contents.map fun content => ⟨[content], resources⟩

def setting (args : Arguments) : Setting :=
  { config :=
      { maxDepth := args.maxDepth, maxOperators := args.maxOperators, runGlyphs := args.runGlyphs } }

/-- Text as lines, each with its end. -/
def lines (all : List String) : String := String.join (all.map (· ++ "\n"))

/-- What is written for pages, and what is told besides. -/
def render (format : OutputFormat) (recordings : List Recording) : String × String :=
  match format with
  | .json => (lines (recordings.zipIdx.flatMap fun (r, n) => EventLines.page n r), "")
  | .tags =>
    ((TagWriter.writePages {} recordings).output,
      lines (recordings.flatMap fun r => r.outcome.diagnostics.map Diagnostic.text))

def perform (args : Arguments) (dir : Directory) : Except Failure Report := do
  let pages ← readPages args dir
  let recordings := (Page.recordAll (setting args) pages).filterMap Except.toOption
  if recordings.any fun r => r.outcome.status = .broken then
    throw .breakdown
  let (output, told) := render args.format recordings
  if args.outfile = "-" then
    return { exitCode := 0, stdout := output, stderr := told, directory := dir }
  else
    match dir.create args.outfile (Utf8.encode output) with
    | .ok dir => return { exitCode := 0, stderr := told, directory := dir }
    | .error e => .error (.unusable e)

/-- Runs the tool with the words of a command line. -/
def run (words : List String) (dir : Directory) : Report :=
  match Arguments.read words with
  | .error stop => .ofStop stop dir
  | .ok args =>
    match perform args dir with
    | .ok report => report
    | .error failure => .ofFailure failure dir

end Dump

end ContentStream
