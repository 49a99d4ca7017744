import ContentStream.Font.Basic
import ContentStream.Font.CidWidths
import ContentStream.Font.ToUnicode

/-!
# Fonts from dictionaries

A font is built from the dictionary that describes it, whose entries may be references. A run may be
given any `FontLoader` for this. With the one here, `Font.load`, most of what is missing or of the wrong
kind is taken as not said; a few entries must be right if they are there.
-/

namespace ContentStream

/-- A way to build a font from the dictionary that describes it, under the name of a resource. -/
abbrev FontLoader := (table : ObjectTable) → (name : String) → (spec : Dict) → Except Error Font

namespace Font

/-- The direct array under a key, as numbers. -/
def numbers (table : ObjectTable) (o : Object) : Except Error (List Decimal) := do
  let items ← (table.resolve o).asArray
  items.mapM fun item => (table.resolve item).asNumber

/-- The name under a key. -/
def name? (table : ObjectTable) (d : Dict) (key : String) : Option String :=
  (table.entry? d key).bind fun o => o.asName.toOption

/-- The widths of consecutive codes that a font gives. -/
def widthRun (table : ObjectTable) (spec : Dict) : Except Error WidthRun := do
  let first ← match table.entry? spec "FirstChar" with
    | some o => o.asNumber >>= Decimal.toCode
    | none => .ok 0
  let widths ← match Dict.find? spec "Widths" with
    | some o => numbers table o
    | none => .ok []
  return { first, widths := widths.toArray }

/-! ## The three kinds -/

def loadSimple (table : ObjectTable) (subtype : String) (spec : Dict) : Except Error SimpleFont := do
  let widths ← widthRun table spec
  let missing := do
    let descriptor ← table.entry? spec "FontDescriptor"
    let entries ← descriptor.asDict.toOption
    let width ← table.entry? entries "MissingWidth"
    width.asNumber.toOption
  return { subtype, baseFont := name? table spec "BaseFont", widths, missingWidth := missing.getD 0 }

/-- The dictionary of the font that a composite font is built on. -/
def descendant (table : ObjectTable) (spec : Dict) : Dict :=
  match table.entry? spec "DescendantFonts" with
  | some (.array (first :: _)) => ((table.resolve first).asDict.toOption).getD []
  | _ => []

def loadComposite (table : ObjectTable) (spec : Dict) : Except Error CompositeFont := do
  let base := descendant table spec
  let widths := match table.entry? base "W" with
    | some (.array items) => CidWidths.read table items
    | _ => ∅
  let defaultWidth ← match table.entry? base "DW" with
    | some o => o.asNumber
    | none => .ok 1000
  return { baseFont := name? table spec "BaseFont", widths, defaultWidth }

/-- Reads names of glyphs, each for the code after the last one. A number sets the code. -/
def readDifferences (map : CodeMap String) (code : Nat) : List Object → Except Error (CodeMap String)
  | [] => .ok map
  | .number n :: rest => do readDifferences map (← n.toCode) rest
  | .name glyph :: rest => readDifferences (map.insert code glyph) (min (code + 1) maxCode) rest
  | _ :: rest => readDifferences map code rest

def encoding (table : ObjectTable) (spec : Dict) : Except Error (CodeMap String) :=
  match table.entry? spec "Encoding" with
  | some (.dict entries) =>
    match table.entry? entries "Differences" with
    | some (.array items) => readDifferences ∅ 0 items
    | _ => .ok ∅
  | _ => .ok ∅

def procedures (table : ObjectTable) (spec : Dict) : List (String × Stream) :=
  match table.entry? spec "CharProcs" with
  | some (.dict entries) =>
    entries.filterMap fun (glyph, o) => (table.resolve o).asStream.toOption.map (glyph, ·)
  | _ => []

def loadType3 (table : ObjectTable) (name : String) (spec : Dict) : Except Error Type3Font := do
  let matrix ← match Dict.find? spec "FontMatrix" with
    | some o =>
      match ← numbers table o with
      | [a, b, c, d, e, f] => .ok ⟨a, b, c, d, e, f⟩
      | _ => .error (.invalidValue .fontMatrix)
    | none => .ok defaultMatrix
  let widths ← widthRun table spec
  let encoding ← encoding table spec
  let resources := (table.entry? spec "Resources").bind fun o => o.asDict.toOption
  return { name, matrix, widths, encoding, procs := procedures table spec, resources }

/-! ## Any font -/

/-- The texts of codes that a font brings along. -/
def unicodeMap (table : ObjectTable) (spec : Dict) : CodeMap String :=
  match table.entry? spec "ToUnicode" with
  | some (.stream _ data _) => ToUnicode.read data
  | _ => ∅

/-- Builds the font that a dictionary describes. A Type 3 font takes its name from the resource that
named it. -/
def load (table : ObjectTable) (name : String) (spec : Dict) : Except Error Font := do
  let subtype := (name? table spec "Subtype").getD "Type1"
  let program ← match subtype with
    | "Type0" => FontProgram.composite <$> loadComposite table spec
    | "Type3" => FontProgram.type3 <$> loadType3 table name spec
    | _ => FontProgram.simple <$> loadSimple table subtype spec
  return { program, toUnicode := unicodeMap table spec }

end Font

end ContentStream
