import ContentStream.Decimal.Basic

/-!
# Arguments

What the words of a command line ask for. Options may stand anywhere among the files; behind `--`
there are files only. Short options can be joined, and an option's value may be joined to it or
follow as the next word. No option may be given twice. Words are taken in order, and the first one
that makes no sense or asks for help or the version decides.
-/

namespace ContentStream

inductive OutputFormat where
  | json
  | tags
deriving DecidableEq

structure Arguments where
  files : List String
  /-- Whether the files are parts of one page. -/
  concat : Bool := false
  /-- The file with the resources. -/
  resources : Option String := none
  format : OutputFormat := .json
  maxDepth : Nat := 32
  maxOperators : Option Nat := none
  runGlyphs : Bool := true
  /-- The file to write, or `-` for the standard output. -/
  outfile : String := "-"

namespace Arguments

inductive Switch where
  | concat
  | resources
  | format
  | maxDepth
  | maxOperators
  | noGlyphs
  | outfile
  | help
  | version

def Switch.takesValue : Switch → Bool
  | concat | noGlyphs | help | version => false
  | _ => true

def longSwitches : List (String × Switch) :=
  [("concat", .concat), ("resources", .resources), ("format", .format), ("max-depth", .maxDepth),
    ("max-operators", .maxOperators), ("no-type3", .noGlyphs), ("outfile", .outfile),
    ("help", .help), ("version", .version)]

def shortSwitches : List (Char × Switch) :=
  [('c', .concat), ('R', .resources), ('f', .format), ('o', .outfile), ('h', .help), ('V', .version)]

/-- Why reading stops at a word: it makes no sense, or it asks what the tool is. -/
inductive Stop where
  | misuse
  | help (full : Bool)
  | version

/-- What was given so far. -/
structure Given where
  /-- The files, last first. -/
  files : List String := []
  concat : Bool := false
  noGlyphs : Bool := false
  resources : Option String := none
  format : Option OutputFormat := none
  maxDepth : Option Nat := none
  maxOperators : Option Nat := none
  outfile : Option String := none

/-- A natural number of 64 bits, with or without a plus sign. -/
def natural? (text : String) : Option Nat :=
  let digits := match text.toList with
    | '+' :: rest => rest
    | all => all
  if digits.isEmpty || digits.any fun c => !c.isDigit then none
  else
    let n := digits.foldl (fun n c => 10 * n + (c.toNat - '0'.toNat)) 0
    if n < wordBound then some n else none

/-- A name of a file is not empty. -/
def fileName? (text : String) : Option String := if text.isEmpty then none else some text

def format? : String → Option OutputFormat
  | "json" => some .json
  | "tags" => some .tags
  | _ => none

namespace Given

def file? (g : Given) (name : String) : Option Given := do
  return { g with files := (← fileName? name) :: g.files }

def files? (g : Given) : List String → Option Given
  | [] => some g
  | name :: rest => do files? (← g.file? name) rest

/-- Sets a switch to a value. -/
def set? (g : Given) (value : String) : Switch → Option Given
  | .resources => do
    let name ← fileName? value
    if g.resources.isSome then none else some { g with resources := some name }
  | .format => do
    let format ← format? value
    if g.format.isSome then none else some { g with format := some format }
  | .maxDepth => do
    let n ← natural? value
    if g.maxDepth.isSome then none else some { g with maxDepth := some n }
  | .maxOperators => do
    let n ← natural? value
    if g.maxOperators.isSome then none else some { g with maxOperators := some n }
  | .outfile => if g.outfile.isSome then none else some { g with outfile := some value }
  | _ => none

/-- Takes what a word gave, if it made sense. -/
def orMisuse {α : Type} : Option α → Except Stop α
  | some a => .ok a
  | none => .error .misuse

/-- Sets a switch that takes no value. `full` tells the long form of an option from the short one. -/
def flag (g : Given) (full : Bool) : Switch → Except Stop Given
  | .concat => orMisuse (if g.concat then none else some { g with concat := true })
  | .noGlyphs => orMisuse (if g.noGlyphs then none else some { g with noGlyphs := true })
  | .help => .error (.help full)
  | .version => .error .version
  | _ => .error .misuse

/-- Takes a long option. The result also says which switch still waits for its value. -/
def long (g : Given) (text : List Char) : Except Stop (Given × Option Switch) := do
  let name := text.takeWhile (· != '=')
  let switch ← orMisuse (longSwitches.lookup (String.ofList name))
  match text.drop name.length, switch.takesValue with
  | [], true => return (g, some switch)
  | [], false => return (← g.flag true switch, none)
  | _ :: value, true => return (← orMisuse (g.set? (String.ofList value) switch), none)
  | _ :: _, false => .error .misuse

/-- Takes short options that are joined, the last of them perhaps with its value. -/
def short (g : Given) : List Char → Except Stop (Given × Option Switch)
  | [] => .ok (g, none)
  | c :: rest => do
    let switch ← orMisuse (shortSwitches.lookup c)
    if switch.takesValue then
      match rest with
      | [] => return (g, some switch)
      | '=' :: value => return (← orMisuse (g.set? (String.ofList value) switch), none)
      | value => return (← orMisuse (g.set? (String.ofList value) switch), none)
    else short (← g.flag false switch) rest

/-- Takes a word that is no value. -/
def word (g : Given) (text : String) : Except Stop (Given × Option Switch) :=
  match text.toList with
  | '-' :: '-' :: rest => g.long rest
  | '-' :: c :: rest => g.short (c :: rest)
  | _ => orMisuse ((g.file? text).map fun g => (g, none))

/-- Takes words one after the other. `waiting` is a switch whose value comes next. -/
def words (g : Given) (waiting : Option Switch) : List String → Except Stop Given
  | [] => if waiting.isNone then .ok g else .error .misuse
  | text :: rest =>
    match waiting with
    | some switch =>
      if text.startsWith "-" && text != "-" then .error .misuse
      else do words (← orMisuse (g.set? text switch)) none rest
    | none =>
      if text = "--" then orMisuse (g.files? rest)
      else do
        let (g, waiting) ← g.word text
        words g waiting rest

end Given

/-- The arguments that were given, with defaults for the others. -/
def Given.arguments (g : Given) : Arguments :=
  { files := g.files.reverse
    concat := g.concat
    resources := g.resources
    format := g.format.getD .json
    maxDepth := g.maxDepth.getD 32
    maxOperators := g.maxOperators
    runGlyphs := !g.noGlyphs
    outfile := g.outfile.getD "-" }

/-- Reads the words of a command line. There is at least one file. -/
def read (words : List String) : Except Stop Arguments := do
  let g ← Given.words {} none words
  if g.files.isEmpty then .error .misuse else .ok g.arguments

end Arguments

end ContentStream
