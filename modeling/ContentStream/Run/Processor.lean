import ContentStream.Font.Load
import ContentStream.Resource.Chain
import ContentStream.Run.Event
import ContentStream.Run.PathBuilder

/-!
# The processor

The state of a run over content. A page may run other streams inside its own, forms and the
procedures of glyphs, and those may run others again. Some of the state belongs to the stream that is
running, and some to the whole run.

**Stacks with floors.** The saved graphics states and the open sections of all streams lie on one
stack each. The floor is the height at which the running stream found the stack: it never takes away
what lies below.

**The log** holds what listeners are told, the latest first.
-/

namespace ContentStream

structure Config where
  /-- How deeply streams may run inside each other. -/
  maxDepth : Nat := 32
  /-- How many operators a run may execute. -/
  maxOperators : Option Nat := none
  /-- Whether the procedures of glyphs are run. -/
  runGlyphs : Bool := true
  /-- The map from page space to device space. -/
  ctm : Matrix := .identity

/-- What a run is given and does not change. -/
structure Setting where
  config : Config := {}
  table : ObjectTable := []
  /-- How fonts are built. -/
  load : FontLoader := Font.load
  /-- Whether anyone listens. Without listeners there are no events. -/
  listening : Bool := true
  /-- Whether the run has been cancelled from outside when it looks for the `n`-th time. -/
  cancelled : (n : Nat) → Bool := fun _ => false

/-- Why a run ends before its content does. -/
inductive AbortReason where
  | truncated (pos : Nat)
  | cancelled
  | operatorLimit (limit : Nat)
  /-- The program broke down. Such a run has no outcome. -/
  | breakdown
deriving DecidableEq

/-- What kind of stream is running. -/
inductive Scope where
  | page
  | form
  | glyph
deriving DecidableEq

/-- The width that a glyph procedure declares, and the box if it declares one. -/
structure GlyphMetrics where
  width : Point
  bbox : Option Rect

structure Processor where
  stage : Stage := .ready
  gstate : GraphicsState := {}
  /-- The saved graphics states, latest first. -/
  gstack : List GraphicsState := []
  gstackFloor : Nat := 0
  path : PathBuilder := {}
  /-- The rule of a clip that the next painting operator will apply. -/
  pendingClip : Option FillRule := none
  resources : ResourceChain := {}
  /-- The open sections of marked content, latest first. -/
  sections : List MarkedContent := []
  sectionFloor : Nat := 0
  /-- How many compatibility sections are open. -/
  compatDepth : Nat := 0
  /-- How many streams lie around the running one. -/
  depth : Nat := 0
  /-- The kinds of the running streams, innermost first. -/
  scopes : List Scope := [.page]
  /-- The running forms that were reached by a reference. -/
  activeForms : List ObjectRef := []
  /-- The fonts and procedures of the running glyphs. -/
  activeGlyphs : List (Nat × Nat) := []
  glyphMetrics : Option GlyphMetrics := none
  /-- How many inline images there were. -/
  inlineImages : Nat := 0
  /-- The fonts that were reached by a reference. -/
  fontCache : List (ObjectRef × Nat × Font) := []
  /-- How many fonts were built. -/
  fontLoads : Nat := 0
  /-- The offset of the token at hand, in the running stream. -/
  pos : Nat := 0
  log : List LogEntry := []
  executed : Nat := 0
  abort : Option AbortReason := none
  /-- The number of events after which the run is cancelled. -/
  cancelIn : Option Nat := none
  /-- How often the run has looked whether it was cancelled. -/
  looks : Nat := 0

namespace Processor

/-- Everything that listeners were told, in order. -/
def entries (p : Processor) : List LogEntry := p.log.reverse

def events (p : Processor) : List Event := p.entries.filterMap LogEntry.event?

def diagnostics (p : Processor) : List Diagnostic := p.entries.filterMap LogEntry.diagnostic?

/-- Tells of a mark, with the graphics state at hand. -/
def emit (s : Setting) (p : Processor) (payload : EventPayload) : Processor :=
  if s.listening then
    { p with
      log := .event ⟨p.depth, p.gstate, payload⟩ :: p.log
      cancelIn := p.cancelIn.map (· - 1) }
  else p

@[simp] theorem emit_gstack (s : Setting) (p : Processor) (payload : EventPayload) :
    (p.emit s payload).gstack = p.gstack := by
  unfold emit
  split <;> rfl

@[simp] theorem emit_sections (s : Setting) (p : Processor) (payload : EventPayload) :
    (p.emit s payload).sections = p.sections := by
  unfold emit
  split <;> rfl

@[simp] theorem emit_sectionFloor (s : Setting) (p : Processor) (payload : EventPayload) :
    (p.emit s payload).sectionFloor = p.sectionFloor := by
  unfold emit
  split <;> rfl

theorem events_emit (s : Setting) (p : Processor) (payload : EventPayload) :
    (p.emit s payload).events =
      p.events ++ if s.listening then [⟨p.depth, p.gstate, payload⟩] else [] := by
  unfold emit
  split <;> simp [events, entries, LogEntry.event?]

@[simp] theorem diagnostics_emit (s : Setting) (p : Processor) (payload : EventPayload) :
    (p.emit s payload).diagnostics = p.diagnostics := by
  unfold emit
  split <;> simp [diagnostics, entries, LogEntry.diagnostic?]

/-- Tells of a problem at the place at hand. -/
def report (p : Processor) (operator : Option String) (error : Error) : Processor :=
  { p with log := .diagnostic ⟨p.pos, p.depth, operator, error⟩ :: p.log }

@[simp] theorem events_report (p : Processor) (operator : Option String) (e : Error) :
    (p.report operator e).events = p.events := by
  simp [report, events, entries, LogEntry.event?]

theorem diagnostics_report (p : Processor) (operator : Option String) (e : Error) :
    (p.report operator e).diagnostics = p.diagnostics ++ [⟨p.pos, p.depth, operator, e⟩] := by
  simp [report, diagnostics, entries, LogEntry.diagnostic?]

/-- The program breaks down, whatever else was about to end the run. Nobody hears of what the
processor does behind. -/
def breakDown (p : Processor) : Processor :=
  { p with log := .breakdown :: p.log, abort := some .breakdown }

@[simp] theorem events_breakDown (p : Processor) : p.breakDown.events = p.events := by
  simp [breakDown, events, entries, LogEntry.event?]

@[simp] theorem diagnostics_breakDown (p : Processor) :
    p.breakDown.diagnostics = p.diagnostics := by
  simp [breakDown, diagnostics, entries, LogEntry.diagnostic?]

/-- Looks whether the run was cancelled. A run that has ended looks no more. -/
def poll (s : Setting) (p : Processor) : Processor :=
  if p.abort.isSome then p
  else
    { p with
      looks := p.looks + 1
      abort := if p.cancelIn == some 0 || s.cancelled p.looks then some .cancelled else none }

/-- All that a look changes is what it finds and how often the run has looked. -/
theorem poll_eq (s : Setting) (p : Processor) :
    p.poll s = { p with looks := (p.poll s).looks, abort := (p.poll s).abort } := by
  unfold poll
  split <;> rfl

def lookup (s : Setting) (p : Processor) (category name : String) : Except Error Resource :=
  p.resources.lookup s.table category name

end Processor

/-- How an operator ends: done, or failed with an error after what it did before failing. -/
inductive Reply where
  | done (p : Processor)
  | failed (p : Processor) (error : Error)

namespace Reply

/-- Goes on after an operator's part that did not fail. -/
def andThen (r : Reply) (next : Processor → Reply) : Reply :=
  match r with
  | done p => next p
  | failed p e => failed p e

/-- Goes on with what was found. If nothing was, the processor is as it was. -/
def attempt {α : Type} (p : Processor) (found : Except Error α) (next : α → Reply) : Reply :=
  match found with
  | .ok a => next a
  | .error e => failed p e

/-- All or nothing: a failure leaves the processor as it was. -/
def commit (p : Processor) (result : Except Error Processor) : Reply := attempt p result done

end Reply

namespace Processor

/-- Changes the graphics state, all or nothing. -/
def adjust (p : Processor) (change : GraphicsState → Except Error GraphicsState) : Reply :=
  Reply.commit p ((change p.gstate).map fun g => { p with gstate := g })

end Processor

end ContentStream
