import ContentStream.CommandLine.Arguments

/-!
# Help on the command line

What the tool says about itself: its version, and two texts about its arguments. The brief one gives
each option a line, the long one a paragraph.
-/

namespace ContentStream.Help

def version : String := "dumpops 0.3.0\n"

def usage : String := "Usage: dumpops [OPTIONS] <FILES>..."

/-- What there is to say about an option. -/
structure Entry where
  short : Option Char := none
  long : String
  value : Option String := none
  about : String
  standard : Option String := none
  /-- The values to choose from, each with its meaning. -/
  choices : List (String × String) := []

/-- The entries in the order of the texts. The help option itself points to the other text. -/
def entries (other : String) : List Entry :=
  [{ short := some 'c', long := "concat", about := "Treat all files as segments of a single page" },
    { short := some 'R', long := "resources", value := some "RESOURCES",
      about := "File holding the page resource dictionary in PDF syntax (<< ... >>)" },
    { short := some 'f', long := "format", value := some "FORMAT", about := "Output format",
      standard := some "json",
      choices := [("json", "One JSON object per line"),
        ("tags", "Marked-content structure with the shown text")] },
    { long := "max-depth", value := some "MAX_DEPTH",
      about := "Nested form / Type 3 glyph depth limit", standard := some "32" },
    { long := "max-operators", value := some "MAX_OPERATORS",
      about := "Abort a page after this many operators" },
    { long := "no-type3", about := "Do not run Type 3 glyph procedures" },
    { short := some 'o', long := "outfile", value := some "OUTFILE",
      about := "Path to file where output is written, or \"-\" for stdout", standard := some "-" },
    { short := some 'h', long := "help", about := "Print help (see " ++ other ++ ")" },
    { short := some 'V', long := "version", about := "Print version" }]

def Entry.label (e : Entry) : String :=
  let short := match e.short with
    | some c => "-" ++ c.toString ++ ", "
    | none => "    "
  let value := match e.value with
    | some name => " <" ++ name ++ ">"
    | none => ""
  "  " ++ short ++ "--" ++ e.long ++ value

/-- The indent of what is said under a label. -/
def indent : String := "\n          "

/-- The default value in brackets. -/
def Entry.standardText (e : Entry) : Option String := e.standard.map fun s => "[default: " ++ s ++ "]"

def Entry.brief (e : Entry) : String :=
  let choices := if e.choices.isEmpty then []
    else ["[possible values: " ++ ", ".intercalate (e.choices.map Prod.fst) ++ "]"]
  e.label ++ indent ++ " ".intercalate ([e.about] ++ e.standardText.toList ++ choices) ++ "\n"

def Entry.full (e : Entry) : String :=
  let standard := match e.standardText with
    | some text => indent ++ indent ++ text
    | none => ""
  let choices := if e.choices.isEmpty then ""
    else "\n" ++ indent ++ "Possible values:" ++
      String.join (e.choices.map fun c => indent ++ "- " ++ c.1 ++ ": " ++ c.2)
  e.label ++ indent ++ e.about ++ standard ++ choices ++ "\n"

def opening : String := "Dump content stream events\n\n" ++ usage ++ "\n\nArguments:\n  <FILES>..."

def filesText : String := "Decoded content stream files, one page each\n\nOptions:\n"

def brief : String :=
  opening ++ "  " ++ filesText ++ String.join ((entries "more with '--help'").map Entry.brief)

def full : String :=
  opening ++ indent ++ filesText ++ "\n".intercalate ((entries "a summary with '-h'").map Entry.full)

end ContentStream.Help
