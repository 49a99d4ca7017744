import ContentStream.Run.Processor

/-!
# Streams inside streams

A form or the procedure of a glyph runs inside the stream that asked for it. It starts from a copy of
the graphics state, with a scope of resources of its own, and leaves nothing behind but what it told
the listeners. A stream does not run inside itself.
-/

namespace ContentStream

/-- What runs inside another stream. -/
inductive NestedSource where
  | form (info : FormInfo) (ref : Option ObjectRef)
  /-- The procedure of a glyph, known by the load of its font and the number of its stream. -/
  | glyph (font procedure : Nat)

structure NestedRun where
  source : NestedSource
  data : List UInt8
  /-- The stream's own resources. -/
  resources : Dict := []
  /-- The map from the stream's space to device space. -/
  ctm : Matrix

/-- A way to run streams inside others. -/
abbrev NestedRunner := NestedRun → Processor → Reply

/-- What the box of a form cuts off, as a path in device space. -/
def NestedRun.clipPath (run : NestedRun) : Except Error (Option Path) :=
  match run.source with
  | .form { bbox := some box, .. } _ =>
    (orOverflow (Path.transform? run.ctm (Path.rectangle box))).map some
  | _ => .ok none

namespace Processor

/-- Whether a stream is running already. A font that is showing a glyph runs no other glyph. -/
def isActive (p : Processor) : NestedSource → Bool
  | .form _ ref => ref.any fun r => p.activeForms.contains r
  | .glyph font procedure => p.activeGlyphs.any fun g => g.1 == font || g.2 == procedure

/-- Starts a form, which is clipped by its box. -/
def enterForm (s : Setting) (p : Processor) (info : FormInfo) (ref : Option ObjectRef)
    (clip : Option Path) : Processor :=
  let p := { p with scopes := .form :: p.scopes, activeForms := ref.toList ++ p.activeForms }
  let p := match clip with
    | some path => { p with gstate.clip := p.gstate.clip.intersect path .nonzero }
    | none => p
  p.emit s (.formBegin info)

/-- Starts the procedure of a glyph, which has not declared its metrics yet. -/
def enterGlyph (p : Processor) (font procedure : Nat) : Processor :=
  { p with
    scopes := .glyph :: p.scopes
    activeGlyphs := (font, procedure) :: p.activeGlyphs
    glyphMetrics := none }

def enter (s : Setting) (p : Processor) (run : NestedRun) (clip : Option Path) : Processor :=
  let inner :=
    { p with
      gstate.ctm := run.ctm
      gstack := p.gstate :: p.gstack
      gstackFloor := p.gstack.length + 1
      path := {}
      pendingClip := none
      resources := p.resources.push run.resources
      compatDepth := 0
      depth := p.depth + 1 }
  match run.source with
  | .form info ref => inner.enterForm s info ref clip
  | .glyph font procedure => inner.enterGlyph font procedure

/-- A nested stream that breaks off ends itself only. -/
def noteTruncation (p : Processor) : Processor :=
  match p.abort with
  | some (.truncated pos) => { p with abort := none, pos := pos }.report none .truncated
  | _ => p

/-- Drops the latest elements of a stack above a height. -/
def cutTo {α : Type} (height : Nat) (stack : List α) : List α := stack.drop (stack.length - height)

/-- Ends a form or the procedure of a glyph. -/
def endSource (s : Setting) (p : Processor) : NestedSource → Processor
  | .form info ref =>
    let p := p.emit s (.formEnd info)
    { p with activeForms := p.activeForms.drop ref.toList.length }
  | .glyph .. => { p with activeGlyphs := p.activeGlyphs.tail }

/-- Goes back to the stream around, which is as it was at the start of the nested one. -/
def leave (s : Setting) (p outer : Processor) (source : NestedSource) : Processor :=
  let p := p.endSource s source
  { p with
    gstate := outer.gstate
    gstack := cutTo outer.gstack.length p.gstack
    gstackFloor := outer.gstackFloor
    path := outer.path
    pendingClip := outer.pendingClip
    resources := p.resources.pop
    compatDepth := outer.compatDepth
    depth := p.depth - 1
    scopes := p.scopes.tail
    pos := outer.pos }

end Processor

end ContentStream
