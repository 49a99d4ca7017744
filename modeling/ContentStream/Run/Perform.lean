import ContentStream.Run.ExternalObjects
import ContentStream.Run.Painting
import ContentStream.Run.Sections
import ContentStream.Run.ShowText
import ContentStream.Run.StateDict

/-!
# Performing instructions

What each instruction does to the processor. Most are all or nothing; the few that are not say so
where they are defined.
-/

namespace ContentStream.Processor

def save (p : Processor) : Processor := { p with gstack := p.gstate :: p.gstack }

/-- Restores the state that the running stream saved last. -/
def restore (p : Processor) : Reply :=
  if p.gstack.length ≤ p.gstackFloor then .failed p .unmatchedRestore
  else
    match p.gstack with
    | [] => .done p
    | g :: rest => .done { p with gstate := g, gstack := rest }

/-- Selects a colour space, and its initial colour. -/
def selectColorSpace (s : Setting) (p : Processor) (side : Side) (name : String) :
    Except Error Processor := do
  let space ← ColorSpace.ofName s.table p.resources name
  return { p with gstate := p.gstate.setSpace space space.initialColor side }

/-- Declares the metrics of the glyph whose procedure is running. -/
def declareMetrics (p : Processor) (operator : String) (metrics : GlyphMetrics) :
    Except Error Processor :=
  if p.scopes.head? = some .glyph then .ok { p with glyphMetrics := some metrics }
  else .error (.invalidValue (.outsideGlyph operator))

def perform (s : Setting) (nested : NestedRunner) (p : Processor) : Instruction → Reply
  | .nothing => .done p
  | .state change => p.adjust fun g => g.apply change
  | .save => .done p.save
  | .restore => p.restore
  | .stateDict name => p.applyStateDict s name
  | .path step => .commit p ((p.path.step step).map fun path => { p with path := path })
  | .paint style => p.paint s style
  | .clip rule => .done { p with pendingClip := some rule }
  | .font name size => .commit p (p.selectFont s name size)
  | .show text => p.showText s nested text
  | .glyphMetrics operator metrics => .commit p (p.declareMetrics operator metrics)
  | .colorSpace side name => .commit p (p.selectColorSpace s side name)
  | .shading name => .commit p (p.showShading s name)
  | .xobject name => p.showExternal s nested name
  | .inlineImage image => .done (p.showInline s image)
  | .strayImage fault => .failed p (.invalidValue fault)
  | .markPoint tag props => .commit p (p.markPoint s tag props)
  | .beginSection tag props => p.beginSection s tag props
  | .endSection => p.endSection s
  | .beginCompat => .done { p with compatDepth := p.compatDepth + 1 }
  | .endCompat => .done { p with compatDepth := p.compatDepth - 1 }

end ContentStream.Processor
