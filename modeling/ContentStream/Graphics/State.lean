import ContentStream.Font.Basic
import ContentStream.Graphics.Clip
import ContentStream.Graphics.Color

/-!
# The graphics state

Everything that decides how the next mark on the page will look. It is a plain value: saving it,
restoring it and taking a snapshot for an event are all the same thing.
-/

namespace ContentStream

/-- A font in use: the name by which it was selected, and the number of the load that built it. Two
selections are of the same font when their loads are the same. -/
structure SelectedFont where
  name : String
  load : Nat
  font : Font

structure TextState where
  font : Option SelectedFont := none
  fontSize : Decimal := 0
  charSpace : Decimal := 0
  wordSpace : Decimal := 0
  /-- Horizontal scaling, in hundredths. -/
  scaling : Decimal := 100
  leading : Decimal := 0
  renderingMode : Nat := 0
  rise : Decimal := 0
  knockout : Bool := true
  matrix : Matrix := .identity
  lineMatrix : Matrix := .identity

/-- The factor by which text is scaled horizontally. -/
def TextState.horizontalScale (t : TextState) : Decimal := (t.scaling.div? 100).getD 0

structure DashPattern where
  lengths : List Decimal := []
  phase : Decimal := 0

structure GraphicsState where
  ctm : Matrix := .identity
  clip : Clip := {}
  lineWidth : Decimal := 1
  lineCap : Nat := 0
  lineJoin : Nat := 0
  miterLimit : Decimal := 10
  dash : DashPattern := {}
  renderingIntent : String := "RelativeColorimetric"
  flatness : Decimal := 1
  strokeAdjust : Bool := false
  strokeColor : Color := .gray 0
  strokeSpace : ColorSpace := .deviceGray
  fillColor : Color := .gray 0
  fillSpace : ColorSpace := .deviceGray
  blendMode : String := "Normal"
  softMask : Option Object := none
  strokeAlpha : Decimal := 1
  fillAlpha : Decimal := 1
  overprintStroke : Bool := false
  overprintFill : Bool := false
  overprintMode : Nat := 0
  text : TextState := {}

/-- Which of the two colours an operator is about. -/
inductive Side where
  | stroke
  | fill
deriving DecidableEq

namespace GraphicsState

def space (g : GraphicsState) : Side → ColorSpace
  | .stroke => g.strokeSpace
  | .fill => g.fillSpace

def setColor (g : GraphicsState) (color : Color) : Side → GraphicsState
  | .stroke => { g with strokeColor := color }
  | .fill => { g with fillColor := color }

def setSpace (g : GraphicsState) (space : ColorSpace) (color : Color) : Side → GraphicsState
  | .stroke => { g with strokeSpace := space, strokeColor := color }
  | .fill => { g with fillSpace := space, fillColor := color }

end GraphicsState

end ContentStream
