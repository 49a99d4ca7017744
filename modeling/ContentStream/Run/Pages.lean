import ContentStream.Run.Outcome

/-!
# Pages

Pages are independent of each other: each is run by a processor of its own.
-/

namespace ContentStream

structure Page where
  /-- The parts of the content, which are read as one. -/
  segments : List (List UInt8)
  resources : Dict := []

/-- Everything that the run of a page gave. -/
structure Recording where
  events : List Event
  diagnostics : List Diagnostic
  outcome : Outcome

namespace Page

def record (s : Setting) (page : Page) : Except Error Recording := do
  let (outcome, p) ← (Processor.start s).process s page.segments page.resources
  return { events := p.events, diagnostics := p.diagnostics, outcome }

def recordAll (s : Setting) (pages : List Page) : List (Except Error Recording) :=
  pages.map (record s)

end Page

end ContentStream
