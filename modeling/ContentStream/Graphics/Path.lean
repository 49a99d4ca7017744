import ContentStream.Graphics.Geometry

/-!
# Paths

A path is a list of segments. It is built in user space and painted or clipped with in device space.
-/

namespace ContentStream

/-- One step of a path. -/
inductive Segment where
  | moveTo (p : Point)
  | lineTo (p : Point)
  | curveTo (p q r : Point)
  | close

/-- Which points count as inside a path. -/
inductive FillRule where
  | nonzero
  | evenOdd
deriving DecidableEq

def FillRule.label : FillRule → String
  | .nonzero => "nonzero"
  | .evenOdd => "evenodd"

namespace Segment

/-- The points that a segment names, control points included. -/
def points : Segment → List Point
  | moveTo p => [p]
  | lineTo p => [p]
  | curveTo p q r => [p, q, r]
  | close => []

def transform? (m : Matrix) : Segment → Option Segment
  | moveTo p => moveTo <$> m.image? p
  | lineTo p => lineTo <$> m.image? p
  | curveTo p q r => do
    let p ← m.image? p
    let q ← m.image? q
    let r ← m.image? r
    return curveTo p q r
  | close => some close

def isClose : Segment → Bool
  | close => true
  | _ => false

end Segment

abbrev Path := List Segment

namespace Path

def points (path : Path) : List Point := List.flatMap Segment.points path

/-- The smallest rectangle around all points of the path. -/
def bbox? (path : Path) : Option Rect := Rect.bound? (points path)

def transform? (m : Matrix) (path : Path) : Option Path := List.mapM (Segment.transform? m) path

/-- The closed outline of a rectangle. -/
def rectangle (r : Rect) : Path :=
  [.moveTo ⟨r.x0, r.y0⟩, .lineTo ⟨r.x1, r.y0⟩, .lineTo ⟨r.x1, r.y1⟩, .lineTo ⟨r.x0, r.y1⟩, .close]

end Path

end ContentStream
