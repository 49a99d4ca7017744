import ContentStream.Graphics.State

/-!
# Events

What a run tells its listeners: one event for each mark on the page and for each bracket around
marks, with the graphics state of that moment.
-/

namespace ContentStream

structure GlyphInfo where
  code : Nat
  text : Option String
  /-- The name by which the font was selected. -/
  font : String
  fontSize : Decimal
  /-- The map from glyph space to device space. -/
  renderingMatrix : Matrix
  /-- How far the text position moves on, in text space. -/
  advance : Decimal

/-- A painted path, in device space. -/
structure PathInfo where
  path : Path
  stroke : Bool
  fill : Option FillRule
  bbox : Option Rect

structure ImageInfo where
  name : String
  inline : Bool
  stream : Stream

/-- The label of a section or a point of marked content. -/
structure MarkedContent where
  tag : String
  props : Option Dict

structure FormInfo where
  name : String
  matrix : Matrix
  bbox : Option Rect

inductive EventPayload where
  | glyph (info : GlyphInfo)
  | path (info : PathInfo)
  | image (info : ImageInfo)
  | shading (name : String) (shading : Object)
  | clip (rule : FillRule) (bounds : Option Rect) (empty : Bool)
  | sectionBegin (label : MarkedContent)
  | sectionEnd (label : MarkedContent)
  | sectionPoint (label : MarkedContent)
  | formBegin (info : FormInfo)
  | formEnd (info : FormInfo)

/-- The word for the kind of an event. -/
def EventPayload.kind : EventPayload → String
  | glyph _ => "glyph"
  | path _ => "path"
  | image _ => "image"
  | shading .. => "shading"
  | clip .. => "clip"
  | sectionBegin _ => "mc-begin"
  | sectionEnd _ => "mc-end"
  | sectionPoint _ => "mc-point"
  | formBegin _ => "form-begin"
  | formEnd _ => "form-end"

structure Event where
  depth : Nat
  state : GraphicsState
  payload : EventPayload

/-- What a listener is told, in order. -/
inductive LogEntry where
  | event (e : Event)
  | diagnostic (d : Diagnostic)
  /-- The program breaks down here. Nobody hears of what stands behind. -/
  | breakdown

namespace LogEntry

def event? : LogEntry → Option Event
  | event e => some e
  | _ => none

def diagnostic? : LogEntry → Option Diagnostic
  | diagnostic d => some d
  | _ => none

def isBreakdown : LogEntry → Bool
  | breakdown => true
  | _ => false

end LogEntry

/-- The text of all glyphs, in order. -/
def Event.shownText (events : List Event) : String :=
  String.join (events.filterMap fun e =>
    match e.payload with
    | .glyph info => info.text
    | _ => none)

end ContentStream
