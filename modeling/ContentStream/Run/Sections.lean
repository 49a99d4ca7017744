import ContentStream.Run.Processor

/-!
# Marked content

Sections of marked content nest. Each stream closes its own sections only, and those that it leaves
open are closed for it.
-/

namespace ContentStream.Processor

/-- The properties of marked content: a dictionary, or the name of one in the resources. -/
def propertyList (s : Setting) (p : Processor) (props : Object) : Except Error Dict := do
  let found ← match props with
    | .name name => (p.lookup s "Properties" name).map Resource.object
    | o => .ok (s.table.resolve o)
  match found with
  | .dict d => return d
  | o => o.mismatch .propertyList

def markPoint (s : Setting) (p : Processor) (tag : String) (props : Option Object) :
    Except Error Processor := do
  let props ← props.mapM (p.propertyList s)
  return p.emit s (.sectionPoint ⟨tag, props⟩)

def openSection (s : Setting) (p : Processor) (label : MarkedContent) : Processor :=
  { p with sections := label :: p.sections }.emit s (.sectionBegin label)

/-- Opens a section. With bad properties it is opened all the same, without any. -/
def beginSection (s : Setting) (p : Processor) (tag : String) (props : Option Object) : Reply :=
  match props.mapM (p.propertyList s) with
  | .ok props => .done (p.openSection s ⟨tag, props⟩)
  | .error e => .failed (p.openSection s ⟨tag, none⟩) e

/-- Closes the latest sections, `n` of them. -/
def closeLatest (s : Setting) : (n : Nat) → Processor → Processor
  | 0, p => p
  | n + 1, p =>
    match p.sections with
    | [] => p
    | label :: rest => closeLatest s n ({ p with sections := rest }.emit s (.sectionEnd label))

/-- How many sections the running stream has open. -/
def openSections (p : Processor) : Nat := p.sections.length - p.sectionFloor

def endSection (s : Setting) (p : Processor) : Reply :=
  if p.openSections = 0 then .failed p (.markedContent .notOpen) else .done (closeLatest s 1 p)

/-- Closes the sections that the running stream left open, and complains about them. -/
def closeSections (s : Setting) (p : Processor) : Processor :=
  if p.openSections = 0 then p
  else
    let tags := (p.sections.take p.openSections).reverse.map MarkedContent.tag
    closeLatest s p.openSections (p.report none (.markedContent (.unclosed tags)))

end ContentStream.Processor
