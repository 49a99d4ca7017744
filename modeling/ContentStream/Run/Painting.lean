import ContentStream.Run.Instruction

/-!
# Painting paths

A painting operator uses up the path, and with it the clip that was announced before. The path takes
its place in device space there and then: what comes later does not move it.
-/

namespace ContentStream.Processor

/-- Narrows the clip by a path in device space. -/
def applyClip (s : Setting) (p : Processor) (device : Path) (rule : FillRule) : Processor :=
  let p := { p with gstate.clip := p.gstate.clip.intersect device rule }
  p.emit s (.clip rule p.gstate.clip.bounds p.gstate.clip.empty)

/-- Paints a path in device space, if there is anything to paint and any way to paint it. -/
def paintDevice (s : Setting) (p : Processor) (style : PaintStyle) (device : Path) : Processor :=
  if !device.isEmpty && (style.stroke || style.fill.isSome) then
    p.emit s (.path ⟨device, style.stroke, style.fill, Path.bbox? device⟩)
  else p

def paint (s : Setting) (p : Processor) (style : PaintStyle) : Reply :=
  let rest := { p with path := {}, pendingClip := none }
  match Path.transform? p.gstate.ctm (p.path.finished style.close) with
  | none => .failed rest .overflow
  | some device =>
    let painted := rest.paintDevice s style device
    match p.pendingClip with
    | some rule => .done (painted.applyClip s device rule)
    | none => .done painted

end ContentStream.Processor
