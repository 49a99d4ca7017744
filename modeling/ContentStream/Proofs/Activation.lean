import ContentStream.Proofs.Confinement
import ContentStream.Proofs.PatternSpaces
import ContentStream.Proofs.Segments

/-!
# Streams step by step

The interpreter as a machine that reads no further than it must, and that has no budget for streams
inside streams: whether one may start is tested when it is asked for.

* `Activation`: a stream that is executing, with what it has read and not done yet.
* `Activation.next`: one round of the loop over the content, or of the loop over the codes of a text,
  up to the start of a stream inside.
* `Activation.Evaluates`: a course of such rounds that comes to an end. A stream inside is evaluated
  by a course of its own, in front of the round that goes on with what it left.
* `Activation.result`: what the interpreter makes of an activation.

An operator or a glyph asks for one stream at most (`executeWord_of_asked`, `showGlyph_of_asked`). So
a round can stop there, have that stream run, and do the rest with the answer.
-/

namespace ContentStream

/-! ## Reading on -/

/-- The reader of a stream and what it has open, or nothing if the stream has been read. -/
abbrev Reader := Option (Cursor × Builder)

/-- The items that are still to be read. -/
def Reader.items : Reader → List ItemAt
  | none => []
  | some (c, b) => c.items b

/-- The bytes that are still to be read, and the end of the stream. -/
def Reader.unread : Reader → Nat
  | none => 0
  | some (c, _) => c.rest.length + 1

/-- Reads one token, or the end: the items that come of it, and the reader behind it. -/
def Cursor.readOn (c : Cursor) (b : Builder) : List ItemAt × Reader :=
  match c.token? with
  | (none, _) => (b.finish, none)
  | (some (_, .error .truncated), c') => ([(c'.offset, .error .truncated)], none)
  | (some (pos, .error (.malformed fault)), c') =>
    ([(pos, .error (.malformedToken pos fault))], some (c', b))
  | (some (pos, .ok token), c') =>
    match b.imageData? token with
    | none => ((b.token pos token).2, some (c', (b.token pos token).1))
    | some image =>
      match c'.imageData image with
      | (.error fault, _) => ([(image.start, .error fault.error)], none)
      | (.ok data, c'') => ([(image.start, .ok (.image ⟨image.attrs, data, 0⟩))], some (c'', {}))

namespace Cursor

variable {c c' : Cursor} {b : Builder}

/-- Reading token by token gives all the items, and each time fewer bytes are left. -/
theorem readOn_spec (c : Cursor) (b : Builder) :
    c.items b = (c.readOn b).1 ++ (c.readOn b).2.items ∧
      (c.readOn b).2.unread < c.rest.length + 1 := by
  fun_cases Cursor.readOn c b with
  | case1 c' ht => exact ⟨by simp [items_end ht, Reader.items], Nat.succ_pos _⟩
  | case2 pos c' ht => exact ⟨by simp [items_truncated ht, Reader.items], Nat.succ_pos _⟩
  | case3 pos fault c' ht =>
    exact ⟨by simp [items_malformed ht, Reader.items], Nat.succ_lt_succ (token?_progress ht)⟩
  | case4 pos token c' ht hdata =>
    exact ⟨by simp [items_token ht hdata, Reader.items], Nat.succ_lt_succ (token?_progress ht)⟩
  | case5 pos token c' ht image hdata fault c'' hd =>
    exact ⟨by simp [items_image_cut ht hdata hd, Reader.items], Nat.succ_pos _⟩
  | case6 pos token c' ht image hdata data c'' hd =>
    refine ⟨by simp [items_image ht hdata hd, Reader.items], Nat.succ_lt_succ ?_⟩
    exact Nat.lt_of_le_of_lt (imageData_length hd) (token?_progress ht)

end Cursor

/-! ## Streams that are asked for -/

/-- The instruction that a word stands for with its operands, unless something is wrong with them. -/
def Operator.instruction? (word : String) (args : List Object) : Option Instruction :=
  match Operator.find? word with
  | none => none
  | some (op, arity) => if arity.accepts args.length then (op.read ⟨word, args⟩).toOption else none

namespace Processor

/-- A way to run streams for whatever runs none. -/
def idle : NestedRunner := fun _ p => .done p

/-- The form that a name asks for. -/
def formAsked? (s : Setting) (p : Processor) (name : String) : Option NestedRun :=
  match p.externalObject s name with
  | .error _ => none
  | .ok (ref, object) =>
    if externalKind s.table object.attrs = "Form" then (p.formRun s name ref object).toOption
    else none

/-- The stream that an operator asks for, other than by showing text. -/
def wordAsked? (s : Setting) (p : Processor) (word : String) (args : List Object) :
    Option (NestedRun × Processor) :=
  match Operator.instruction? word args with
  | some (.xobject name) => (p.formAsked? s name).map fun run => (run, p)
  | _ => none

/-- The procedure that a glyph asks for once it has been told of. -/
def glyphAsked? (s : Setting) (p : Processor) (font : SelectedFont) (c : CharCode) :
    Option (NestedRun × Processor) := do
  let renderingMatrix ← p.gstate.renderingMatrix?
  let advance ← p.gstate.advance? font.font c
  let procedure ← if s.config.runGlyphs then font.font.procedure? c.code else none
  let ctm ← font.font.matrix.mul? renderingMatrix
  let run : NestedRun :=
    { source := .glyph font.load procedure.serial
      data := procedure.data
      resources := font.font.resources?.getD []
      ctm }
  some (run, p.emit s (.glyph
    { code := c.code
      text := font.font.text? c.code
      font := font.name
      fontSize := p.gstate.text.fontSize
      renderingMatrix
      advance }))

/-- Whether a stream may run inside the one at hand, and if so, what its box cuts off. -/
def permit (s : Setting) (p : Processor) (run : NestedRun) : Except Error (Option Path) :=
  if s.config.maxDepth < p.depth + 1 ∨ p.isActive run.source = true then
    .error (.nesting (p.depth + 1) s.config.maxDepth)
  else run.clipPath

/-- The description that the name of a colour space leads to. -/
def describedSpace? (s : Setting) (p : Processor) (name : String) : Option Object :=
  match ColorSpace.predefined? name with
  | some _ => none
  | none => (p.lookup s "ColorSpace" name).toOption.map fun found => found.object

/-- What comes in front of a text: the spaces and the new line of its operator. -/
def startLine (p : Processor) (text : Showing) : Reply :=
  let p := p.setSpacing text.spacing
  if text.newLine then p.adjust GraphicsState.nextLine else .done p

end Processor

/-! ## Activations -/

/-- A text that is being shown by an operator at `pos`: the codes at hand, and the items behind. -/
structure ShownText where
  word : String
  pos : Nat
  operator : String
  font : SelectedFont
  codes : List CharCode := []
  items : List TextItem

/-- A stream that is executing. -/
structure Activation where
  reader : Reader
  /-- The items that have been read and not been handled. -/
  pending : List ItemAt := []
  /-- The operands that wait for an operator, latest first. -/
  operands : List Object := []
  text : Option ShownText := none
  processor : Processor

namespace Activation

open Processor (idle settle)

/-- What a stream comes to by one round. -/
inductive Next where
  | done (p : Processor)
  | goOn (a : Activation)
  /-- Runs another stream, and goes on with what that one leaves behind. -/
  | call (inner : Activation) (resume : Processor → Activation)

/-- The start of a stream. -/
def ofSegments (segments : List (List UInt8)) (p : Processor) : Activation :=
  { reader := some (Cursor.ofSegments segments, {}), processor := p }

/-- Does something that asks for at most one stream. If it asks for one, that one is run first, and
then it is done with the answer. -/
def doWith (s : Setting) (asked : Option (NestedRun × Processor))
    (next : NestedRunner → Activation) : Next :=
  match asked with
  | none => .goOn (next idle)
  | some (run, p) =>
    match p.permit s run with
    | .error e => .goOn (next fun _ _ => .failed p e)
    | .ok clip =>
      .call (ofSegments [run.data] (p.beginNested s run clip)) fun inner =>
        next fun _ _ => .done (p.endNested s run inner)

/-- Goes on with a text after a part of it. A part that failed ends it. -/
def afterPart (a : Activation) (t : ShownText) : Reply → Activation
  | .done p => { a with text := some t, processor := p }
  | .failed p e => { a with text := none, processor := settle t.pos t.word (.failed p e) }

def startText (a : Activation) (word : String) (p : Processor) (text : Showing) : Activation :=
  match p.gstate.text.font with
  | none => { a with processor := settle p.pos word (.failed p (.invalidValue .noFont)) }
  | some font => a.afterPart ⟨word, p.pos, text.operator, font, [], text.items⟩ (p.startLine text)

/-- A round of the loop over a text: one code, or one item if there is no code at hand. -/
def showNext (s : Setting) (a : Activation) (t : ShownText) : Next :=
  match t.codes, t.items with
  | c :: codes, _ =>
    doWith s (a.processor.glyphAsked? s t.font c) fun nested =>
      a.afterPart { t with codes } (a.processor.showGlyph s nested t.operator t.font c)
  | [], .string bytes :: items =>
    .goOn { a with text := some { t with codes := t.font.font.decode bytes, items } }
  | [], .shift amount :: items =>
    .goOn (a.afterPart { t with items } (a.processor.adjust fun g => g.shiftText amount))
  | [], [] => .goOn { a with text := none }

def takeOperator (s : Setting) (a : Activation) (word : String) (args : List Object) : Next :=
  if a.processor.exhausted s then
    .goOn { a with processor := a.processor.dispatch s idle word args }
  else
    let p := { a.processor with executed := a.processor.executed + 1 }
    match Operator.instruction? word args with
    | some (.show text) => .goOn (a.startText word p text)
    | _ =>
      doWith s (p.wordAsked? s word args) fun nested =>
        { a with processor := p.executeWord s nested word args }

/-- A round of the loop over the content, for an item that has been read. -/
def takeItem (s : Setting) (a : Activation) (pos : Nat) (item : Except Error Item) : Next :=
  if ItemAt.breaksDown (pos, item) then .done (a.processor.breakDown.closeSections s)
  else
    let p := a.processor.poll s
    if p.abort.isSome then .done (p.closeSections s)
    else
      let p := { p with pos := pos }
      match item with
      | .ok (.operand o) => .goOn { a with operands := o :: a.operands, processor := p }
      | .ok (.operator word) =>
        { a with operands := [], processor := p }.takeOperator s word a.operands.reverse
      | .ok (.image image) =>
        .goOn { a with operands := [], processor := p.dispatchImage s idle image a.operands.reverse }
      | .error .truncated => .done ({ p with abort := some (.truncated pos) }.closeSections s)
      | .error e => .goOn { a with processor := p.report none e }

/-- One round: the text that is being shown comes first, then what has been read, then reading. -/
def next (s : Setting) (a : Activation) : Next :=
  match a.text, a.pending, a.reader with
  | some t, _, _ => a.showNext s t
  | none, (pos, item) :: rest, _ => { a with pending := rest }.takeItem s pos item
  | none, [], some (c, b) => .goOn { a with reader := (c.readOn b).2, pending := (c.readOn b).1 }
  | none, [], none => .done (a.processor.closeSections s)

/-- The description of a colour space that the round reads. -/
def described? (s : Setting) (a : Activation) : Option Object :=
  match a.text, a.pending with
  | none, (_, .ok (.operator word)) :: _ =>
    match Operator.instruction? word a.operands.reverse with
    | some (.colorSpace _ name) => a.processor.describedSpace? s name
    | _ => none
  | _, _ => none

/-- An activation comes to its end, with the processor as it is then. A round that selects a colour
space waits until its description has been read. -/
inductive Evaluates (s : Setting) : Activation → Processor → Prop
  | done {a : Activation} {p : Processor} : a.next s = .done p → Evaluates s a p
  | goOn {a b : Activation} {p : Processor} : a.next s = .goOn b →
      (∀ o, a.described? s = some o → ColorSpace.Reads s.table o (ColorSpace.read s.table o)) →
      Evaluates s b p → Evaluates s a p
  | call {a inner : Activation} {resume : Processor → Activation} {p q : Processor} :
      a.next s = .call inner resume → Evaluates s inner q → Evaluates s (resume q) p →
      Evaluates s a p

end Activation

theorem Operator.instruction?_eq_some {word : String} {args : List Object} {i : Instruction} :
    Operator.instruction? word args = some i ↔
      ∃ op arity, Operator.find? word = some (op, arity) ∧ arity.accepts args.length = true ∧
        op.read ⟨word, args⟩ = .ok i := by
  unfold Operator.instruction?
  cases hfind : Operator.find? word with
  | none => simp
  | some found =>
    obtain ⟨op, arity⟩ := found
    cases hread : op.read ⟨word, args⟩ <;> simp [hread, Except.toOption]

theorem Reply.andThen_assoc (r : Reply) (f g : Processor → Reply) :
    (r.andThen f).andThen g = r.andThen fun p => (f p).andThen g := by
  cases r with
  | done p => rfl
  | failed p e => rfl

namespace Processor

variable {s : Setting} {p q : Processor} {run : NestedRun} {word : String} {args : List Object}

/-! ## Asking -/

theorem executeWord_of_instruction {i : Instruction} (h : Operator.instruction? word args = some i)
    (nested : NestedRunner) :
    p.executeWord s nested word args = settle p.pos word (p.perform s nested i) := by
  obtain ⟨op, arity, hfind, harity, hread⟩ := Operator.instruction?_eq_some.1 h
  simp only [executeWord, hfind, if_pos harity, operate, hread, Reply.attempt]

theorem executeWord_of_none (h : Operator.instruction? word args = none)
    (nested nested' : NestedRunner) :
    p.executeWord s nested word args = p.executeWord s nested' word args := by
  unfold Operator.instruction? at h
  unfold executeWord
  cases hfind : Operator.find? word with
  | none => rfl
  | some found =>
    obtain ⟨op, arity⟩ := found
    by_cases harity : arity.accepts args.length = true
    · cases hread : op.read ⟨word, args⟩ with
      | error e => simp only [operate, hread, Reply.attempt]
      | ok i => simp [hfind, harity, hread, Except.toOption] at h
    · simp only [if_neg harity]

/-- A name asks for a form, or no stream is run. -/
theorem showExternal_eq (s : Setting) (nested : NestedRunner) (p : Processor) (name : String) :
    p.showExternal s nested name =
      (p.formAsked? s name).elim (p.showExternal s idle name) fun run => nested run p := by
  unfold showExternal formAsked?
  cases p.externalObject s name with
  | error e => rfl
  | ok found =>
    obtain ⟨ref, object⟩ := found
    simp only [Reply.attempt]
    by_cases hform : externalKind s.table object.attrs = "Form"
    · simp only [hform, if_true]
      cases p.formRun s name ref object with
      | error e => rfl
      | ok run => rfl
    · simp only [if_neg hform, Option.elim_none]
      split
      · contradiction
      · rfl
      · rfl

theorem executeWord_of_not_asked (hshow : ∀ text, Operator.instruction? word args ≠ some (.show text))
    (h : p.wordAsked? s word args = none) (nested : NestedRunner) :
    p.executeWord s nested word args = p.executeWord s idle word args := by
  cases hinstruction : Operator.instruction? word args with
  | none => exact executeWord_of_none hinstruction nested idle
  | some i =>
    rw [executeWord_of_instruction hinstruction, executeWord_of_instruction hinstruction]
    refine congrArg (settle p.pos word) ?_
    cases i with
    | «show» text => exact absurd hinstruction (hshow text)
    | xobject name =>
      simp only [wordAsked?, hinstruction, Option.map_eq_none_iff] at h
      simp only [perform, showExternal_eq s nested, h, Option.elim_none]
    | _ => rfl

theorem executeWord_of_asked (h : p.wordAsked? s word args = some (run, q)) :
    q = p ∧ ∀ nested : NestedRunner,
      p.executeWord s nested word args = settle p.pos word (nested run p) := by
  unfold wordAsked? at h
  split at h
  · rename_i name hinstruction
    obtain ⟨asked, hasked, heq⟩ := Option.map_eq_some_iff.1 h
    cases heq
    refine ⟨rfl, fun nested => ?_⟩
    rw [executeWord_of_instruction hinstruction, perform, showExternal_eq, hasked, Option.elim_some]
  · cases h

/-- An image in the stream runs no other stream. -/
theorem dispatchImage_eq_idle (s : Setting) (nested : NestedRunner) (p : Processor) (image : Stream)
    (args : List Object) :
    p.dispatchImage s nested image args = p.dispatchImage s idle image args := by
  have hinstruction : Operator.instruction? "EI" [image.toObject] = some (.inlineImage image) := rfl
  simp only [dispatchImage, dispatch, executeWord_of_instruction hinstruction, perform]

theorem showGlyph_of_not_asked {font : SelectedFont} {c : CharCode}
    (h : p.glyphAsked? s font c = none) (nested : NestedRunner) (operator : String) :
    p.showGlyph s nested operator font c = p.showGlyph s idle operator font c := by
  unfold glyphAsked? at h
  unfold showGlyph
  cases hmatrix : p.gstate.renderingMatrix? with
  | none => rfl
  | some m =>
    cases hadvance : p.gstate.advance? font.font c with
    | none => rfl
    | some advance =>
      refine congrArg (Reply.andThen · _) ?_
      unfold runGlyph
      by_cases hglyphs : s.config.runGlyphs = true
      · cases hprocedure : font.font.procedure? c.code with
        | none => rfl
        | some procedure =>
          cases hctm : font.font.matrix.mul? m with
          | none => rfl
          | some ctm => simp [hmatrix, hadvance, hglyphs, hprocedure, hctm] at h
      · simp [hglyphs]

theorem showGlyph_of_asked {font : SelectedFont} {c : CharCode}
    (h : p.glyphAsked? s font c = some (run, q)) :
    q.depth = p.depth ∧ ∀ (nested : NestedRunner) (operator : String),
      p.showGlyph s nested operator font c = p.showGlyph s (fun _ _ => nested run q) operator font c := by
  unfold glyphAsked? at h
  cases hmatrix : p.gstate.renderingMatrix? with
  | none => simp [hmatrix] at h
  | some m =>
    cases hadvance : p.gstate.advance? font.font c with
    | none => simp [hmatrix, hadvance] at h
    | some advance =>
      by_cases hglyphs : s.config.runGlyphs = true
      · cases hprocedure : font.font.procedure? c.code with
        | none => simp [hmatrix, hadvance, hprocedure] at h
        | some procedure =>
          cases hctm : font.font.matrix.mul? m with
          | none => simp [hmatrix, hadvance, hglyphs, hprocedure, hctm] at h
          | some ctm =>
            simp only [hmatrix, hadvance, hglyphs, hprocedure, hctm, if_true, Option.bind_eq_bind,
              Option.bind_some, Option.some.injEq, Prod.mk.injEq] at h
            obtain ⟨rfl, rfl⟩ := h
            refine ⟨depth_eq (emit_ground ..), fun nested operator => ?_⟩
            simp only [showGlyph, hmatrix, hadvance, runGlyph, hglyphs, hprocedure, hctm]
      · simp [hmatrix, hadvance, hglyphs] at h

/-! ## The depth -/

/-- A way to run streams that comes back to the depth it started from. -/
def KeepsDepth (depth : Nat) (nested : NestedRunner) : Prop :=
  ∀ run q, q.depth = depth → (nested run q).processor.depth = depth

theorem follows_idle (s : Setting) : Follows s 0 idle := fun _ p _ => .refl p

theorem Steps.keeps_depth {n : Nat} {b : Bool} (h : Steps s n b p q) : q.depth = p.depth :=
  depth_eq h.stays.ground

theorem ground_settle (pos : Nat) (word : String) (reply : Reply) :
    (settle pos word reply).ground = reply.processor.ground := by
  cases reply with
  | done q => rfl
  | failed q e => rfl

theorem depth_endNested (s : Setting) (p : Processor) (run : NestedRun) (inner : Processor) :
    (p.endNested s run inner).depth = inner.depth - 1 := by
  let last : Processor := ({ inner with sectionFloor := p.sectionFloor } : Processor).noteTruncation
  have hend : (last.endSource s run.source).depth = last.depth :=
    congrArg Ground.depth (endSource_same s last run.source).2.2
  show (last.endSource s run.source).depth - 1 = inner.depth - 1
  rw [hend, depth_noteTruncation]

theorem depth_lt_of_permit {clip : Option Path} (h : p.permit s run = .ok clip) :
    p.depth < s.config.maxDepth := by
  unfold permit at h
  split at h
  · cases h
  · rename_i hroom
    exact Nat.lt_of_succ_le (Nat.le_of_not_lt fun hfull => hroom (.inl hfull))

/-- A stream that starts is executed from its beginning, over its own floor. -/
theorem execute_enter (s : Setting) (nested : NestedRunner) (p : Processor) (run : NestedRun)
    (clip : Option Path) (items : List ItemAt) :
    (p.enter s run clip).execute s nested items =
      { (executeItems s nested items [] (p.beginNested s run clip)).closeSections s with
        sectionFloor := p.sectionFloor } := by
  have hbegin : p.beginNested s run clip = { p.enter s run clip with
      sectionFloor := (p.enter s run clip).sections.length } :=
    congrArg (fun labels : List MarkedContent =>
      { p.enter s run clip with sectionFloor := labels.length }) (enter_sections ..).symm
  rw [hbegin, ← enter_sectionFloor s p run clip]
  rfl

theorem depth_adjust (p : Processor) (f : GraphicsState → Except Error GraphicsState) :
    (p.adjust f).processor.depth = p.depth := by
  unfold adjust
  cases f p.gstate with
  | ok g => rfl
  | error e => rfl

theorem depth_runGlyph {nested : NestedRunner} (h : KeepsDepth p.depth nested) (operator : String)
    (font : SelectedFont) (m : Matrix) (code : Nat) :
    (p.runGlyph s nested operator font m code).processor.depth = p.depth := by
  unfold runGlyph
  split
  · rfl
  · split
    · rfl
    · split
      · rfl
      · rename_i procedure _ _ ctm _
        have hrun := h ⟨.glyph font.load procedure.serial, procedure.data,
          font.font.resources?.getD [], ctm⟩ p rfl
        revert hrun
        dsimp only
        generalize nested _ p = reply
        intro hrun
        cases reply with
        | done q => exact hrun
        | failed q e => exact hrun

theorem depth_showGlyph {nested : NestedRunner} (h : KeepsDepth p.depth nested) (operator : String)
    (font : SelectedFont) (c : CharCode) :
    (p.showGlyph s nested operator font c).processor.depth = p.depth := by
  unfold showGlyph
  split
  · rename_i m advance _ _
    have hshown : ∀ payload, (p.emit s payload).depth = p.depth := fun payload =>
      depth_eq (emit_ground s p payload)
    dsimp only
    generalize EventPayload.glyph _ = payload
    have hglyph := depth_runGlyph (s := s) ((hshown payload).symm ▸ h) operator font m c.code
    revert hglyph
    cases (p.emit s payload).runGlyph s nested operator font m c.code with
    | done q =>
      intro hglyph
      have hadvanced := depth_adjust q fun g => g.advanceText advance
      exact hadvanced.trans (hglyph.trans (hshown payload))
    | failed q e => exact fun hglyph => hglyph.trans (hshown payload)
  · rfl

theorem depth_executeWord {nested : NestedRunner} (h : KeepsDepth p.depth nested)
    (hshow : ∀ text, Operator.instruction? word args ≠ some (.show text)) :
    (p.executeWord s nested word args).depth = p.depth := by
  cases hasked : p.wordAsked? s word args with
  | none =>
    rw [executeWord_of_not_asked hshow hasked]
    exact (executeWord_steps (b := true) (follows_idle s) p word args
      fun _ _ _ _ _ _ _ => rfl).keeps_depth
  | some asked =>
    rw [(executeWord_of_asked hasked).2 nested, depth_eq (ground_settle ..)]
    exact h _ p rfl

end Processor

/-! ## What the interpreter makes of an activation -/

namespace ShownText

/-- The text that is left, shown from where the processor stands. -/
def rest (s : Setting) (nested : NestedRunner) (t : ShownText) (p : Processor) : Reply :=
  (Processor.showCodes s nested t.operator t.font t.codes p).andThen
    (Processor.showItems s nested t.operator t.font t.items)

end ShownText

namespace Activation

open Processor

variable {s : Setting} {nested : NestedRunner}

/-- The processor behind the text that is being shown. -/
def shown (s : Setting) (nested : NestedRunner) (a : Activation) : Processor :=
  match a.text with
  | none => a.processor
  | some t => settle t.pos t.word (t.rest s nested a.processor)

/-- What comes of the items that are left, from a processor behind the text. -/
def finish (s : Setting) (nested : NestedRunner) (a : Activation) (p : Processor) : Processor :=
  (executeItems s nested (a.pending ++ a.reader.items) a.operands p).closeSections s

/-- The end of an activation, with a way to run the streams inside. -/
def resultWith (s : Setting) (nested : NestedRunner) (a : Activation) : Processor :=
  a.finish s nested (a.shown s nested)

/-- The end of an activation. It may nest as many streams as the limit still allows. -/
def result (s : Setting) (a : Activation) : Processor :=
  a.resultWith s (runner s (s.config.maxDepth - a.processor.depth))

theorem resultWith_afterPart (a : Activation) (t : ShownText) (reply : Reply) :
    (a.afterPart t reply).resultWith s nested =
      a.finish s nested (settle t.pos t.word (reply.andThen (t.rest s nested))) := by
  cases reply with
  | done p => rfl
  | failed p e => rfl

theorem depth_afterPart (a : Activation) (t : ShownText) (reply : Reply) :
    (a.afterPart t reply).processor.depth = reply.processor.depth := by
  cases reply with
  | done p => rfl
  | failed p e => rfl

theorem ground_result (s : Setting) (a : Activation) : (a.result s).ground = a.processor.ground := by
  have hn := runner_steps s (s.config.maxDepth - a.processor.depth)
  unfold result
  generalize runner s (s.config.maxDepth - a.processor.depth) = nested at hn
  have hshown : (a.shown s nested).ground = a.processor.ground := by
    unfold shown
    split
    · rfl
    · rename_i t _
      rw [ground_settle]
      exact (andThen_steps (b := false) (showCodes_steps hn t.operator t.font t.codes a.processor)
        (showItems_steps hn t.operator t.font t.items)).stays.ground
  rw [← hshown]
  exact ((executeItems_steps hn _ a.operands (a.shown s nested)).trans
    (closeSections_steps s _).1).stays.ground

end Activation

end ContentStream
