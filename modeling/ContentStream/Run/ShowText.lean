import ContentStream.Run.Instruction
import ContentStream.Run.Nested

/-!
# Showing text

Glyphs are placed one after the other, each at the text position, which then moves on by the width of
the glyph and the spaces after it. A glyph that is drawn by a procedure runs it in its place.
-/

namespace ContentStream

namespace GraphicsState

/-- The map from glyph space, in units of the font size, to device space. -/
def renderingMatrix? (g : GraphicsState) : Option Matrix := do
  let width ← g.text.fontSize.mul? g.text.horizontalScale
  let size : Matrix := ⟨width, 0, 0, g.text.fontSize, 0, g.text.rise⟩
  (← size.mul? g.text.matrix).mul? g.ctm

/-- How far a glyph moves the text position. -/
def advance? (g : GraphicsState) (font : Font) (c : CharCode) : Option Decimal := do
  let width ← (font.width c.code).mul? g.text.fontSize
  let spaced ← width.add? g.text.charSpace
  let spaced ← if c.isWordSpace then spaced.add? g.text.wordSpace else some spaced
  spaced.mul? g.text.horizontalScale

/-- Moves the text position back by thousandths of the font size. -/
def shiftText (g : GraphicsState) (amount : Decimal) : Except Error GraphicsState := do
  let size ← orOverflow (amount.mul? g.text.fontSize)
  let scaled ← orOverflow (size.mul? g.text.horizontalScale)
  g.advanceText (-(← orOverflow (scaled.div? 1000)))

end GraphicsState

namespace Processor

/-- Runs the procedure of a glyph, if it has one. A procedure that cannot be run is reported, and the
glyph counts as shown. -/
def runGlyph (s : Setting) (nested : NestedRunner) (operator : String) (font : SelectedFont)
    (renderingMatrix : Matrix) (code : Nat) (p : Processor) : Reply :=
  if !s.config.runGlyphs then .done p
  else
    match font.font.procedure? code with
    | none => .done p
    | some procedure =>
      match font.font.matrix.mul? renderingMatrix with
      | none => .failed p .overflow
      | some ctm =>
        let run : NestedRun :=
          { source := .glyph font.load procedure.serial
            data := procedure.data
            resources := font.font.resources?.getD []
            ctm }
        match nested run p with
        | .done p => .done p
        | .failed p e => .done (p.report (some operator) e)

def showGlyph (s : Setting) (nested : NestedRunner) (operator : String) (font : SelectedFont)
    (c : CharCode) (p : Processor) : Reply :=
  match p.gstate.renderingMatrix?, p.gstate.advance? font.font c with
  | some renderingMatrix, some advance =>
    let shown := p.emit s (.glyph
      { code := c.code
        text := font.font.text? c.code
        font := font.name
        fontSize := p.gstate.text.fontSize
        renderingMatrix
        advance })
    (shown.runGlyph s nested operator font renderingMatrix c.code).andThen fun p =>
      p.adjust fun g => g.advanceText advance
  | _, _ => .failed p .overflow

def showCodes (s : Setting) (nested : NestedRunner) (operator : String) (font : SelectedFont) :
    List CharCode → Processor → Reply
  | [], p => .done p
  | c :: rest, p =>
    (showGlyph s nested operator font c p).andThen (showCodes s nested operator font rest)

def showItems (s : Setting) (nested : NestedRunner) (operator : String) (font : SelectedFont) :
    List TextItem → Processor → Reply
  | [], p => .done p
  | .shift amount :: rest, p =>
    (p.adjust fun g => g.shiftText amount).andThen (showItems s nested operator font rest)
  | .string bytes :: rest, p =>
    (showCodes s nested operator font (font.font.decode bytes) p).andThen
      (showItems s nested operator font rest)

def setSpacing (p : Processor) : Option (Decimal × Decimal) → Processor
  | some (word, char) => { p with gstate.text.wordSpace := word, gstate.text.charSpace := char }
  | none => p

/-- Shows text in the selected font. -/
def showText (s : Setting) (nested : NestedRunner) (p : Processor) (text : Showing) : Reply :=
  match p.gstate.text.font with
  | none => .failed p (.invalidValue .noFont)
  | some font =>
    let p := p.setSpacing text.spacing
    let line := if text.newLine then p.adjust GraphicsState.nextLine else .done p
    line.andThen (showItems s nested text.operator font text.items)

end Processor

end ContentStream
