import ContentStream.Error
import ContentStream.Graphics.Path

/-!
# Building paths

A path grows segment by segment until it is painted. Lines and curves start where the last segment
ended; there is such a point as soon as the path has been started.
-/

namespace ContentStream

structure PathBuilder where
  /-- The segments so far, last first. -/
  segments : List Segment := []
  current : Option Point := none
  /-- Where the subpath started, and where closing it leads back to. -/
  start : Option Point := none

/-- The ways in which a path grows. -/
inductive PathStep where
  | moveTo (p : Point)
  | lineTo (p : Point)
  | curveTo (p q r : Point)
  /-- The first control point is the current point. -/
  | curveFromCurrent (q r : Point)
  /-- The second control point is the end point. -/
  | curveToFinal (p r : Point)
  | close
  | rectangle (origin size : Point)

namespace PathBuilder

def path (b : PathBuilder) : Path := b.segments.reverse

/-- The point from which `operator` goes on. -/
def currentFor (b : PathBuilder) (operator : String) : Except Error Point :=
  match b.current with
  | some p => .ok p
  | none => .error (.invalidValue (.noCurrentPoint operator))

/-- Adds a segment that ends at `p`. -/
def push (b : PathBuilder) (s : Segment) (p : Point) : PathBuilder :=
  { b with segments := s :: b.segments, current := some p }

/-- Adds a rectangle, which leaves its first corner as current point. -/
def pushRectangle (b : PathBuilder) (r : Rect) : PathBuilder :=
  { segments := (Path.rectangle r).reverse ++ b.segments
    current := some ⟨r.x0, r.y0⟩
    start := some ⟨r.x0, r.y0⟩ }

def step (b : PathBuilder) : PathStep → Except Error PathBuilder
  | .moveTo p => .ok { b.push (.moveTo p) p with start := some p }
  | .lineTo p => do
    let _ ← b.currentFor "l"
    return b.push (.lineTo p) p
  | .curveTo p q r => do
    let _ ← b.currentFor "c"
    return b.push (.curveTo p q r) r
  | .curveFromCurrent q r => do
    let p ← b.currentFor "v"
    return b.push (.curveTo p q r) r
  | .curveToFinal p r => do
    let _ ← b.currentFor "y"
    return b.push (.curveTo p r r) r
  | .close =>
    if b.current.isSome then .ok { b with segments := .close :: b.segments, current := b.start }
    else .ok b
  | .rectangle origin size => do
    let x1 ← orOverflow (origin.x.add? size.x)
    let y1 ← orOverflow (origin.y.add? size.y)
    return b.pushRectangle ⟨origin.x, origin.y, x1, y1⟩

/-- The path that is painted, closed first if asked and needed. -/
def finished (b : PathBuilder) (close : Bool) : Path :=
  match b.segments with
  | [] => []
  | s :: rest => if close && !s.isClose then (.close :: s :: rest).reverse else (s :: rest).reverse

end PathBuilder

end ContentStream
