import ContentStream.Error

/-!
# Operators

The closed set of operators, each with the word that stands for it in content and the number of its
operands.
-/

namespace ContentStream

inductive Operator where
  | lineWidth
  | lineCap
  | lineJoin
  | miterLimit
  | dash
  | renderingIntent
  | flatness
  | stateDict
  | save
  | restore
  | concat
  | moveTo
  | lineTo
  | curveTo
  | curveFromCurrent
  | curveToFinal
  | closePath
  | rectangle
  | stroke
  | closeStroke
  | fill
  | fillOld
  | fillEvenOdd
  | fillStroke
  | fillStrokeEvenOdd
  | closeFillStroke
  | closeFillStrokeEvenOdd
  | endPath
  | clip
  | clipEvenOdd
  | beginText
  | endText
  | charSpace
  | wordSpace
  | horizontalScale
  | leading
  | font
  | renderingMode
  | rise
  | moveText
  | moveTextLeading
  | textMatrix
  | nextLine
  | showText
  | showAdjusted
  | nextLineShow
  | nextLineShowSpaced
  | glyphWidth
  | glyphWidthBox
  | strokeSpace
  | fillSpace
  | strokeColor
  | strokeColorNamed
  | fillColor
  | fillColorNamed
  | strokeGray
  | fillGray
  | strokeRgb
  | fillRgb
  | strokeCmyk
  | fillCmyk
  | shading
  | beginImage
  | imageData
  | endImage
  | xobject
  | markPoint
  | markPointProperties
  | beginMarked
  | beginMarkedProperties
  | endMarked
  | beginCompatibility
  | endCompatibility
deriving DecidableEq

namespace Operator

/-- The word for each operator and the number of its operands. -/
def table : List (String × Operator × Arity) :=
  [("w", lineWidth, .exact 1), ("J", lineCap, .exact 1), ("j", lineJoin, .exact 1),
    ("M", miterLimit, .exact 1), ("d", dash, .exact 2), ("ri", renderingIntent, .exact 1),
    ("i", flatness, .exact 1), ("gs", stateDict, .exact 1), ("q", save, .exact 0),
    ("Q", restore, .exact 0), ("cm", concat, .exact 6), ("m", moveTo, .exact 2),
    ("l", lineTo, .exact 2), ("c", curveTo, .exact 6), ("v", curveFromCurrent, .exact 4),
    ("y", curveToFinal, .exact 4), ("h", closePath, .exact 0), ("re", rectangle, .exact 4),
    ("S", stroke, .exact 0), ("s", closeStroke, .exact 0), ("f", fill, .exact 0),
    ("F", fillOld, .exact 0), ("f*", fillEvenOdd, .exact 0), ("B", fillStroke, .exact 0),
    ("B*", fillStrokeEvenOdd, .exact 0), ("b", closeFillStroke, .exact 0),
    ("b*", closeFillStrokeEvenOdd, .exact 0), ("n", endPath, .exact 0), ("W", clip, .exact 0),
    ("W*", clipEvenOdd, .exact 0), ("BT", beginText, .exact 0), ("ET", endText, .exact 0),
    ("Tc", charSpace, .exact 1), ("Tw", wordSpace, .exact 1), ("Tz", horizontalScale, .exact 1),
    ("TL", leading, .exact 1), ("Tf", font, .exact 2), ("Tr", renderingMode, .exact 1),
    ("Ts", rise, .exact 1), ("Td", moveText, .exact 2), ("TD", moveTextLeading, .exact 2),
    ("Tm", textMatrix, .exact 6), ("T*", nextLine, .exact 0), ("Tj", showText, .exact 1),
    ("TJ", showAdjusted, .exact 1), ("'", nextLineShow, .exact 1),
    ("\"", nextLineShowSpaced, .exact 3), ("d0", glyphWidth, .exact 2),
    ("d1", glyphWidthBox, .exact 6), ("CS", strokeSpace, .exact 1), ("cs", fillSpace, .exact 1),
    ("SC", strokeColor, .any), ("SCN", strokeColorNamed, .any), ("sc", fillColor, .any),
    ("scn", fillColorNamed, .any), ("G", strokeGray, .exact 1), ("g", fillGray, .exact 1),
    ("RG", strokeRgb, .exact 3), ("rg", fillRgb, .exact 3), ("K", strokeCmyk, .exact 4),
    ("k", fillCmyk, .exact 4), ("sh", shading, .exact 1), ("BI", beginImage, .exact 0),
    ("ID", imageData, .exact 0), ("EI", endImage, .exact 1), ("Do", xobject, .exact 1),
    ("MP", markPoint, .exact 1), ("DP", markPointProperties, .exact 2),
    ("BMC", beginMarked, .exact 1), ("BDC", beginMarkedProperties, .exact 2),
    ("EMC", endMarked, .exact 0), ("BX", beginCompatibility, .exact 0),
    ("EX", endCompatibility, .exact 0)]

/-- The operator that a word stands for, with the number of its operands. -/
def find? (word : String) : Option (Operator × Arity) := table.lookup word

theorem mem_table_of_find? {word : String} {op : Operator} {arity : Arity}
    (h : find? word = some (op, arity)) : (word, op, arity) ∈ table := by
  unfold find? at h
  obtain ⟨before, after, htable, -⟩ := List.lookup_eq_some_iff.1 h
  rw [htable]
  exact List.mem_append_right _ List.mem_cons_self

/-- The words of all operators, in order. -/
def words : List String := (table.map Prod.fst).mergeSort

end Operator

end ContentStream
