import ContentStream.Graphics.Path

/-!
# The clip

What is painted shows only inside the clip. It starts out unbounded, and every clipping path can
only narrow it. The clip keeps the paths it was made of, in order, and beside them a rectangle that
holds their common part.
-/

namespace ContentStream

/-- A path that was clipped with, in device space. -/
structure ClipRegion where
  path : Path
  rule : FillRule
  bbox : Rect

structure Clip where
  regions : List ClipRegion := []
  bounds : Option Rect := none
  empty : Bool := false

namespace Clip

/-- Narrows the rectangle around the clip. Rectangles that do not meet leave an empty clip. -/
def narrow (clip : Clip) (bbox : Rect) : Clip :=
  match clip.bounds with
  | some r =>
    match r.intersect? bbox with
    | some r => { clip with bounds := some r }
    | none => { clip with empty := true }
  | none => if clip.empty then clip else { clip with bounds := some bbox }

/-- Narrows the clip to the inside of a path. A path without points has no inside. -/
def intersect (clip : Clip) (path : Path) (rule : FillRule) : Clip :=
  match path.bbox? with
  | none => { clip with empty := true }
  | some bbox =>
    let narrowed := clip.narrow bbox
    { narrowed with regions := narrowed.regions ++ [⟨path, rule, bbox⟩] }

def isUnbounded (clip : Clip) : Bool := clip.regions.isEmpty && !clip.empty

end Clip

end ContentStream
