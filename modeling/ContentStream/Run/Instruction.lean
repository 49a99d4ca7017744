import ContentStream.Operator
import ContentStream.Run.Processor
import ContentStream.Run.StateChange

/-!
# Instructions

An operator whose operands have been read and found to be of the right kinds. What remains to be done
is told by the instruction alone.
-/

namespace ContentStream

/-- What a painting operator does with the path. -/
structure PaintStyle where
  close : Bool := false
  stroke : Bool := false
  fill : Option FillRule := none

inductive TextItem where
  /-- Moves back by thousandths of the font size. -/
  | shift (amount : Decimal)
  | string (bytes : List UInt8)

/-- Text to show, and what comes before it. -/
structure Showing where
  operator : String
  /-- Word space and character space to set first. -/
  spacing : Option (Decimal × Decimal) := none
  newLine : Bool := false
  items : List TextItem

inductive Instruction where
  | nothing
  | state (change : StateChange)
  | save
  | restore
  | stateDict (name : String)
  | path (step : PathStep)
  | paint (style : PaintStyle)
  | clip (rule : FillRule)
  | font (name : String) (size : Decimal)
  | show (text : Showing)
  | glyphMetrics (operator : String) (metrics : GlyphMetrics)
  | colorSpace (side : Side) (name : String)
  | shading (name : String)
  | xobject (name : String)
  | inlineImage (stream : Stream)
  /-- A part of an inline image where none is. -/
  | strayImage (fault : ValueFault)
  | markPoint (tag : String) (props : Option Object)
  | beginSection (tag : String) (props : Option Object)
  | endSection
  | beginCompat
  | endCompat

/-- An item of an array of text to show. -/
def TextItem.ofObject (operator : String) : Object → Except Error TextItem
  | .number n => .ok (.shift n)
  | .string s => .ok (.string s.bytes)
  | o => .error (.operandShape operator 0 .textArray o.shape)

namespace Operands

/-- A colour in one of the device spaces, with as many operands as the space has components. -/
def deviceColor (args : Operands) (side : Side) (space : ColorSpace) : Except Error Instruction := do
  let values ← (List.range space.ncomponents).mapM args.number
  return .state (.deviceColor side space (space.colorOf values))

end Operands

namespace Operator

/-- Reads the operands, in the order of their places. -/
def read (op : Operator) (args : Operands) : Except Error Instruction :=
  match op with
  | lineWidth => do return .state (.lineWidth (← args.number 0))
  | lineCap => do return .state (.lineCap (← args.int 0))
  | lineJoin => do return .state (.lineJoin (← args.int 0))
  | miterLimit => do return .state (.miterLimit (← args.number 0))
  | dash => do return .state (.dash (← args.array 0) (← args.number 1))
  | renderingIntent => do return .state (.renderingIntent (← args.name 0))
  | flatness => do return .state (.flatness (← args.number 0))
  | stateDict => do return .stateDict (← args.name 0)
  | save => .ok .save
  | restore => .ok .restore
  | concat => do return .state (.concat (← args.matrix 0))
  | moveTo => do return .path (.moveTo (← args.point 0))
  | lineTo => do return .path (.lineTo (← args.point 0))
  | curveTo => do return .path (.curveTo (← args.point 0) (← args.point 2) (← args.point 4))
  | curveFromCurrent => do return .path (.curveFromCurrent (← args.point 0) (← args.point 2))
  | curveToFinal => do return .path (.curveToFinal (← args.point 0) (← args.point 2))
  | closePath => .ok (.path .close)
  | rectangle => do return .path (.rectangle (← args.point 0) (← args.point 2))
  | stroke => .ok (.paint { stroke := true })
  | closeStroke => .ok (.paint { close := true, stroke := true })
  | fill | fillOld => .ok (.paint { fill := some .nonzero })
  | fillEvenOdd => .ok (.paint { fill := some .evenOdd })
  | fillStroke => .ok (.paint { stroke := true, fill := some .nonzero })
  | fillStrokeEvenOdd => .ok (.paint { stroke := true, fill := some .evenOdd })
  | closeFillStroke => .ok (.paint { close := true, stroke := true, fill := some .nonzero })
  | closeFillStrokeEvenOdd => .ok (.paint { close := true, stroke := true, fill := some .evenOdd })
  | endPath => .ok (.paint {})
  | clip => .ok (.clip .nonzero)
  | clipEvenOdd => .ok (.clip .evenOdd)
  | beginText => .ok (.state .resetText)
  | endText => .ok .nothing
  | charSpace => do return .state (.charSpace (← args.number 0))
  | wordSpace => do return .state (.wordSpace (← args.number 0))
  | horizontalScale => do return .state (.scaling (← args.number 0))
  | leading => do return .state (.leading (← args.number 0))
  | font => do return .font (← args.name 0) (← args.number 1)
  | renderingMode => do return .state (.renderingMode (← args.int 0))
  | rise => do return .state (.rise (← args.number 0))
  | moveText => do return .state (.moveText (← args.point 0))
  | moveTextLeading => do return .state (.moveTextLeading (← args.point 0))
  | textMatrix => do return .state (.textMatrix (← args.matrix 0))
  | nextLine => .ok (.state .nextLine)
  | showText => do
    let text ← args.string 0
    return .show { operator := args.operator, items := [.string text.bytes] }
  | showAdjusted => do
    let items ← args.array 0
    return .show
      { operator := args.operator, items := ← items.mapM (TextItem.ofObject args.operator) }
  | nextLineShow => do
    let text ← args.string 0
    return .show { operator := args.operator, newLine := true, items := [.string text.bytes] }
  | nextLineShowSpaced => do
    let word ← args.number 0
    let char ← args.number 1
    let text ← args.string 2
    return .show
      { operator := args.operator, spacing := some (word, char), newLine := true,
        items := [.string text.bytes] }
  | glyphWidth => do return .glyphMetrics args.operator ⟨← args.point 0, none⟩
  | glyphWidthBox => do
    let width ← args.point 0
    let low ← args.point 2
    let high ← args.point 4
    return .glyphMetrics args.operator ⟨width, some ⟨low.x, low.y, high.x, high.y⟩⟩
  | strokeSpace => do return .colorSpace .stroke (← args.name 0)
  | fillSpace => do return .colorSpace .fill (← args.name 0)
  | strokeColor | strokeColorNamed => .ok (.state (.color .stroke args))
  | fillColor | fillColorNamed => .ok (.state (.color .fill args))
  | strokeGray => args.deviceColor .stroke .deviceGray
  | fillGray => args.deviceColor .fill .deviceGray
  | strokeRgb => args.deviceColor .stroke .deviceRgb
  | fillRgb => args.deviceColor .fill .deviceRgb
  | strokeCmyk => args.deviceColor .stroke .deviceCmyk
  | fillCmyk => args.deviceColor .fill .deviceCmyk
  | shading => do return .shading (← args.name 0)
  | beginImage => .ok (.strayImage .imageWithoutData)
  | imageData => .ok (.strayImage .dataWithoutImage)
  | endImage => do return .inlineImage (← args.stream 0)
  | xobject => do return .xobject (← args.name 0)
  | markPoint => do return .markPoint (← args.name 0) none
  | markPointProperties => do return .markPoint (← args.name 0) (some (← args.get 1))
  | beginMarked => do return .beginSection (← args.name 0) none
  | beginMarkedProperties => do return .beginSection (← args.name 0) (some (← args.get 1))
  | endMarked => .ok .endSection
  | beginCompatibility => .ok .beginCompat
  | endCompatibility => .ok .endCompat

end Operator

end ContentStream
