import ContentStream.Graphics.State
import ContentStream.Resource.ColorSpaces

/-!
# Changes of the graphics state

The operators that do nothing but change the graphics state. Each change is computed as a whole: it
gives the new state or an error, and never half of it.
-/

namespace ContentStream

inductive StateChange where
  | lineWidth (width : Decimal)
  | lineCap (style : Int)
  | lineJoin (style : Int)
  | miterLimit (limit : Decimal)
  | dash (lengths : List Object) (phase : Decimal)
  | renderingIntent (name : String)
  | flatness (tolerance : Decimal)
  | concat (m : Matrix)
  | deviceColor (side : Side) (space : ColorSpace) (color : Color)
  | color (side : Side) (args : Operands)
  | resetText
  | charSpace (space : Decimal)
  | wordSpace (space : Decimal)
  | scaling (percent : Decimal)
  | leading (leading : Decimal)
  | renderingMode (mode : Int)
  | rise (rise : Decimal)
  | moveText (offset : Point)
  | moveTextLeading (offset : Point)
  | textMatrix (m : Matrix)
  | nextLine

namespace GraphicsState

/-- A style given by a number from 0 to `last`. -/
def styleCode (operator : String) (value : Int) (last : Nat) : Except Error Nat :=
  if 0 ≤ value ∧ value ≤ last then .ok value.toNat
  else .error (.invalidValue (.outOfRange operator value last))

/-- A dash pattern, whose lengths are numbers without a minus sign. -/
def dashPattern (operator : String) (lengths : List Object) (phase : Decimal) :
    Except Error DashPattern := do
  let lengths ← (lengths.mapM Object.asNumber).mapError (Error.forOperand operator 0)
  if lengths.any Decimal.hasMinus then .error (.invalidValue (.negativeDash operator))
  else return { lengths, phase }

/-- Starts a new line of text, moved by an offset from the start of the line before. -/
def moveText (g : GraphicsState) (offset : Point) : Except Error GraphicsState := do
  let m ← orOverflow (g.text.lineMatrix.translate? offset)
  return { g with text := { g.text with matrix := m, lineMatrix := m } }

/-- Starts a new line of text at the distance of the leading. -/
def nextLine (g : GraphicsState) : Except Error GraphicsState := g.moveText ⟨0, -g.text.leading⟩

/-- Moves the text position along the line. -/
def advanceText (g : GraphicsState) (distance : Decimal) : Except Error GraphicsState := do
  let m ← orOverflow (g.text.matrix.translate? ⟨distance, 0⟩)
  return { g with text := { g.text with matrix := m } }

def apply (g : GraphicsState) : StateChange → Except Error GraphicsState
  | .lineWidth width => .ok { g with lineWidth := width }
  | .lineCap style => do return { g with lineCap := ← styleCode "J" style 2 }
  | .lineJoin style => do return { g with lineJoin := ← styleCode "j" style 2 }
  | .miterLimit limit => .ok { g with miterLimit := limit }
  | .dash lengths phase => do return { g with dash := ← dashPattern "d" lengths phase }
  | .renderingIntent name => .ok { g with renderingIntent := name }
  | .flatness tolerance => .ok { g with flatness := tolerance }
  | .concat m => do return { g with ctm := ← orOverflow (m.mul? g.ctm) }
  | .deviceColor side space color => .ok (g.setSpace space color side)
  | .color side args => do return g.setColor (← (g.space side).colorOfOperands args) side
  | .resetText => .ok { g with text := { g.text with matrix := .identity, lineMatrix := .identity } }
  | .charSpace space => .ok { g with text := { g.text with charSpace := space } }
  | .wordSpace space => .ok { g with text := { g.text with wordSpace := space } }
  | .scaling percent => .ok { g with text := { g.text with scaling := percent } }
  | .leading leading => .ok { g with text := { g.text with leading := leading } }
  | .renderingMode mode =>
    if 0 ≤ mode ∧ mode ≤ 7 then .ok { g with text := { g.text with renderingMode := mode.toNat } }
    else .error (.invalidValue (.renderingMode mode))
  | .rise rise => .ok { g with text := { g.text with rise := rise } }
  | .moveText offset => g.moveText offset
  | .moveTextLeading offset => do
    let g ← g.moveText offset
    return { g with text := { g.text with leading := -offset.y } }
  | .textMatrix m => .ok { g with text := { g.text with matrix := m, lineMatrix := m } }
  | .nextLine => g.nextLine

end GraphicsState

end ContentStream
