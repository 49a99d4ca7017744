import ContentStream.Run.Nested

/-!
# Forms, images and shadings

Objects from outside the stream that an operator puts on the page, and images within the stream.
-/

namespace ContentStream

namespace FormInfo

/-- The matrix of a form, the identity if it has none. -/
def matrixOf (table : ObjectTable) (attrs : Dict) : Except Error Matrix :=
  match table.entry? attrs "Matrix" with
  | none => .ok .identity
  | some o => do
    match ← o.asNumbers with
    | [a, b, c, d, e, f] => return ⟨a, b, c, d, e, f⟩
    | numbers => .error (.invalidValue (.formMatrix numbers.length))

/-- The box of a form, given by two opposite corners. -/
def boxOf (table : ObjectTable) (attrs : Dict) : Except Error (Option Rect) :=
  match table.entry? attrs "BBox" with
  | none => .ok none
  | some o => do
    match ← o.asNumbers with
    | [x0, y0, x1, y1] => return some (Rect.sorted ⟨x0, y0, x1, y1⟩)
    | numbers => .error (.invalidValue (.formBox numbers.length))

def read (table : ObjectTable) (name : String) (attrs : Dict) : Except Error FormInfo := do
  let matrix ← matrixOf table attrs
  let bbox ← boxOf table attrs
  return { name, matrix, bbox }

end FormInfo

/-- The resources that a form brings along. -/
def formResources (table : ObjectTable) (attrs : Dict) : Dict :=
  match table.entry? attrs "Resources" with
  | some (.dict d) => d
  | _ => []

/-- The kind of an external object. -/
def externalKind (table : ObjectTable) (attrs : Dict) : String :=
  match table.entry? attrs "Subtype" with
  | some (.name kind) => kind
  | _ => ""

namespace Processor

/-- How a form is run from where the processor stands. -/
def formRun (s : Setting) (p : Processor) (name : String) (ref : Option ObjectRef) (form : Stream) :
    Except Error NestedRun := do
  let info ← FormInfo.read s.table name form.attrs
  let ctm ← orOverflow (info.matrix.mul? p.gstate.ctm)
  return { source := .form info ref, data := form.data, resources := formResources s.table form.attrs,
           ctm }

/-- The stream under a name, with the reference that led to it. -/
def externalObject (s : Setting) (p : Processor) (name : String) :
    Except Error (Option ObjectRef × Stream) := do
  let found ← p.lookup s "XObject" name
  return (found.ref, ← found.object.asStream)

/-- Runs a form or shows an image. Other objects are passed over. -/
def showExternal (s : Setting) (nested : NestedRunner) (p : Processor) (name : String) : Reply :=
  .attempt p (p.externalObject s name) fun (ref, object) =>
    match externalKind s.table object.attrs with
    | "Form" => .attempt p (p.formRun s name ref object) fun run => nested run p
    | "Image" => .done (p.emit s (.image ⟨name, false, object⟩))
    | _ => .done p

/-- Shows an image that stands in the stream. Such images are numbered. -/
def showInline (s : Setting) (p : Processor) (image : Stream) : Processor :=
  { p with inlineImages := p.inlineImages + 1 }.emit s
    (.image ⟨"inline" ++ toString p.inlineImages, true, image⟩)

def showShading (s : Setting) (p : Processor) (name : String) : Except Error Processor := do
  let found ← p.lookup s "Shading" name
  return p.emit s (.shading name found.object)

end Processor

end ContentStream
