import ContentStream.Run.Processor

/-!
# Selecting fonts

Fonts are built when they are selected. One that was reached by a reference is kept for the rest of
the run, so that selecting it again gives the same font.
-/

namespace ContentStream.Processor

/-- The font that an object describes, and the processor that remembers it. -/
def loadFont (s : Setting) (p : Processor) (name : String) (ref : Option ObjectRef) (spec : Object) :
    Except Error (SelectedFont × Processor) :=
  match ref.bind fun r => p.fontCache.lookup r with
  | some (load, font) => .ok (⟨name, load, font⟩, p)
  | none => do
    let font ← s.load s.table name (← (s.table.resolve spec).asDict)
    let cache := match ref with
      | some r => (r, p.fontLoads, font) :: p.fontCache
      | none => p.fontCache
    return (⟨name, p.fontLoads, font⟩, { p with fontCache := cache, fontLoads := p.fontLoads + 1 })

/-- Selects a font from the resources. -/
def selectFont (s : Setting) (p : Processor) (name : String) (size : Decimal) :
    Except Error Processor := do
  let found ← p.lookup s "Font" name
  let (font, p) ← p.loadFont s name found.ref found.object
  return { p with gstate.text.font := some font, gstate.text.fontSize := size }

end ContentStream.Processor
