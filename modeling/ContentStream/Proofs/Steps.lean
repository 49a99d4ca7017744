import ContentStream.Run.Outcome

/-!
# What a run can do

Laws about whole runs hold for every content, whatever operators stand in it and in whatever order.
This file takes the interpreter apart once, so that those laws need not.

* `Step`: what a stream does by itself, one small change of the processor at a time.
* `Steps`: a course of such changes, in which the stream may also save and restore its graphics
  state and run other streams inside itself.

**Theorem (`executeItems_steps`).** Executing any items is a course of steps.

**Theorem (`runner_steps`).** Running a stream inside another is one, too, and on the level of the
stream around it nothing is saved or restored.

What holds along every course of steps is then proved by induction over `Steps`: one case for
each kind of change, and one for a stream inside the stream.
-/

namespace ContentStream

/-- Whether an event stands for itself. The others come in pairs, one at each end of what they tell
of. -/
def EventPayload.isMark : EventPayload → Bool
  | .sectionBegin _ | .sectionEnd _ | .formBegin _ | .formEnd _ => false
  | _ => true

/-- Whether an instruction works on the saved graphics states. -/
def Instruction.saves : Instruction → Bool
  | .save | .restore => true
  | _ => false

/-- The operators that can give a change of the graphics state. -/
def StateChange.operators : StateChange → List Operator
  | .lineWidth _ => [.lineWidth]
  | .lineCap _ => [.lineCap]
  | .lineJoin _ => [.lineJoin]
  | .miterLimit _ => [.miterLimit]
  | .dash .. => [.dash]
  | .renderingIntent _ => [.renderingIntent]
  | .flatness _ => [.flatness]
  | .concat _ => [.concat]
  | .deviceColor .stroke .. => [.strokeGray, .strokeRgb, .strokeCmyk]
  | .deviceColor .fill .. => [.fillGray, .fillRgb, .fillCmyk]
  | .color .stroke _ => [.strokeColor, .strokeColorNamed]
  | .color .fill _ => [.fillColor, .fillColorNamed]
  | .resetText => [.beginText]
  | .charSpace _ => [.charSpace]
  | .wordSpace _ => [.wordSpace]
  | .scaling _ => [.horizontalScale]
  | .leading _ => [.leading]
  | .renderingMode _ => [.renderingMode]
  | .rise _ => [.rise]
  | .moveText _ => [.moveText]
  | .moveTextLeading _ => [.moveTextLeading]
  | .textMatrix _ => [.textMatrix]
  | .nextLine => [.nextLine]

/-- The operators that can give an instruction. -/
def Instruction.operators : Instruction → List Operator
  | .nothing => [.endText]
  | .state change => change.operators
  | .save => [.save]
  | .restore => [.restore]
  | .stateDict _ => [.stateDict]
  | .path _ => [.moveTo, .lineTo, .curveTo, .curveFromCurrent, .curveToFinal, .closePath, .rectangle]
  | .paint _ =>
    [.stroke, .closeStroke, .fill, .fillOld, .fillEvenOdd, .fillStroke, .fillStrokeEvenOdd,
      .closeFillStroke, .closeFillStrokeEvenOdd, .endPath]
  | .clip _ => [.clip, .clipEvenOdd]
  | .font .. => [.font]
  | .show _ => [.showText, .showAdjusted, .nextLineShow, .nextLineShowSpaced]
  | .glyphMetrics .. => [.glyphWidth, .glyphWidthBox]
  | .colorSpace .stroke _ => [.strokeSpace]
  | .colorSpace .fill _ => [.fillSpace]
  | .shading _ => [.shading]
  | .xobject _ => [.xobject]
  | .inlineImage _ => [.endImage]
  | .strayImage _ => [.beginImage, .imageData]
  | .markPoint _ none => [.markPoint]
  | .markPoint _ (some _) => [.markPointProperties]
  | .beginSection _ none => [.beginMarked]
  | .beginSection _ (some _) => [.beginMarkedProperties]
  | .endSection => [.endMarked]
  | .beginCompat => [.beginCompatibility]
  | .endCompat => [.endCompatibility]

theorem Operator.mem_operators_of_read {op : Operator} {args : Operands} {i : Instruction}
    (h : op.read args = .ok i) : op ∈ i.operators := by
  cases op
  all_goals
    simp only [read, Operands.deviceColor, bind, Except.bind, pure, Except.pure] at h
    repeat' split at h
  all_goals cases h
  all_goals simp only [Instruction.operators, StateChange.operators, List.mem_cons, true_or, or_true]

/-- An instruction that some operator gives with some operands. -/
def Instruction.IsRead (i : Instruction) : Prop := ∃ op args, Operator.read op args = .ok i

/-! ## Results -/

theorem exists_of_bind_ok {α β : Type} {x : Except Error α} {f : α → Except Error β} {b : β}
    (h : x >>= f = .ok b) : ∃ a, x = .ok a ∧ f a = .ok b := by
  cases x with
  | ok a => exact ⟨a, rfl, h⟩
  | error e => cases h

theorem exists_of_map_ok {α β : Type} {x : Except Error α} {f : α → β} {b : β}
    (h : x.map f = .ok b) : ∃ a, x = .ok a ∧ f a = b := by
  cases x with
  | ok a => exact ⟨a, rfl, Except.ok.inj h⟩
  | error e => cases h

/-- The processor that an operator leaves behind, failed or not. -/
def Reply.processor : Reply → Processor
  | .done p => p
  | .failed p _ => p

namespace Processor

/-! ## Steps -/

/-- The graphics states that can follow the one at hand, unless it is restored. -/
inductive StateStep (s : Setting) (p : Processor) : GraphicsState → Prop
  | change {c : StateChange} {g : GraphicsState} :
      (Instruction.state c).IsRead → p.gstate.apply c = .ok g → StateStep s p g
  | advance {d : Decimal} {g : GraphicsState} : p.gstate.advanceText d = .ok g → StateStep s p g
  | dict {q : Processor} {d : Dict} {g : GraphicsState} :
      (StateDict.applyEntries s q p.gstate d).1 = .ok g →
      StateStep s p (StateDict.spreadOverprint d g)
  | font (font : SelectedFont) (size : Decimal) :
      StateStep s p
        { p.gstate with text := { p.gstate.text with font := some font, fontSize := size } }
  | space {name : String} {space : ColorSpace} (side : Side) :
      ColorSpace.ofName s.table p.resources name = .ok space →
      StateStep s p (p.gstate.setSpace space space.initialColor side)
  | clip (device : Path) (rule : FillRule) :
      StateStep s p { p.gstate with clip := p.gstate.clip.intersect device rule }

/-- What a stream does by itself. -/
inductive Step (s : Setting) : Processor → Processor → Prop
  | look (p : Processor) : Step s p (p.poll s)
  | place (p : Processor) (pos : Nat) : Step s p { p with pos := pos }
  | count {p : Processor} :
      p.exhausted s = false → Step s p { p with executed := p.executed + 1 }
  | stop (p : Processor) (reason : AbortReason) : Step s p { p with abort := some reason }
  | breakdown (p : Processor) : Step s p p.breakDown
  | report (p : Processor) (operator : Option String) (e : Error) : Step s p (p.report operator e)
  | mark (p : Processor) (payload : EventPayload) :
      payload.isMark = true → Step s p (p.emit s payload)
  | state {p : Processor} {g : GraphicsState} : StateStep s p g → Step s p { p with gstate := g }
  | load {p q : Processor} {name : String} {ref : Option ObjectRef} {spec : Object}
      {font : SelectedFont} : p.loadFont s name ref spec = .ok (font, q) → Step s p q
  | path {p : Processor} {step : PathStep} {path : PathBuilder} :
      p.path.step step = .ok path → Step s p { p with path := path }
  | dropPath (p : Processor) : Step s p { p with path := {}, pendingClip := none }
  | announceClip (p : Processor) (rule : FillRule) : Step s p { p with pendingClip := some rule }
  | metrics {p : Processor} (metrics : GlyphMetrics) :
      p.scopes.head? = some .glyph → Step s p { p with glyphMetrics := some metrics }
  | countImage (p : Processor) : Step s p { p with inlineImages := p.inlineImages + 1 }
  | compat (p : Processor) (n : Nat) : Step s p { p with compatDepth := n }
  | openSection (p : Processor) (label : MarkedContent) : Step s p (p.openSection s label)
  | closeSection {p : Processor} : p.openSections ≠ 0 → Step s p (closeLatest s 1 p)

/-- The streams that can be run inside the stream at hand: forms from where it stands, and the
procedures of glyphs. -/
inductive Asks (s : Setting) (p : Processor) : NestedRun → Prop
  | form {name : String} {ref : Option ObjectRef} {form : Stream} {run : NestedRun} :
      p.formRun s name ref form = .ok run → Asks s p run
  | glyph {run : NestedRun} {font procedure : Nat} :
      run.source = .glyph font procedure → Asks s p run

/-- The start of a stream inside another. Its sections have a floor of their own. -/
def beginNested (s : Setting) (p : Processor) (run : NestedRun) (clip : Option Path) : Processor :=
  { p.enter s run clip with sectionFloor := p.sections.length }

/-- The end of a stream that ran inside another and has come as far as `inner`. -/
def endNested (s : Setting) (p : Processor) (run : NestedRun) (inner : Processor) : Processor :=
  ({ inner with sectionFloor := p.sectionFloor } : Processor).noteTruncation.leave s p run.source

/-- A course of steps, with streams inside each other down to a depth of `budget` further streams.
The flag says whether the stream may save and restore the graphics state on its own level; streams
inside it always may. -/
inductive Steps (s : Setting) : (budget : Nat) → (saving : Bool) → Processor → Processor → Prop
  | refl {n : Nat} {b : Bool} (p : Processor) : Steps s n b p p
  | step {n : Nat} {b : Bool} {p q : Processor} : Step s p q → Steps s n b p q
  | save {n : Nat} (p : Processor) : Steps s n true p p.save
  | restore {n : Nat} {p : Processor} {g : GraphicsState} {rest : List GraphicsState} :
      p.gstackFloor < p.gstack.length → p.gstack = g :: rest →
      Steps s n true p { p with gstate := g, gstack := rest }
  | nested {n : Nat} {b : Bool} {p inner : Processor} {run : NestedRun} {clip : Option Path} :
      p.Asks s run → p.isActive run.source = false → run.clipPath = .ok clip →
      Steps s n true (p.beginNested s run clip) inner → inner.openSections = 0 →
      Steps s (n + 1) b p (p.endNested s run inner)
  | trans {n : Nat} {b : Bool} {p q r : Processor} :
      Steps s n b p q → Steps s n b q r → Steps s n b p r

variable {s : Setting} {n : Nat} {b : Bool} {p q r : Processor} {nested : NestedRunner}

namespace Steps

theorem tail (h : Steps s n b p q) (hs : Step s q r) : Steps s n b p r := h.trans (.step hs)

theorem saving (h : Steps s n b p q) : Steps s n true p q := by
  induction h with
  | refl p => exact .refl p
  | step hs => exact .step hs
  | save p => exact .save p
  | restore hf hg => exact .restore hf hg
  | nested hr ha hc hi ho => exact .nested hr ha hc hi ho
  | trans _ _ ih₁ ih₂ => exact ih₁.trans ih₂

theorem weaken (h : Steps s n false p q) : Steps s n b p q := by
  cases b with
  | false => exact h
  | true => exact h.saving

end Steps

/-! ## Replies -/

theorem attempt_steps {α : Type} {found : Except Error α} {next : α → Reply}
    (h : ∀ a, found = .ok a → Steps s n b p (next a).processor) :
    Steps s n b p (Reply.attempt p found next).processor := by
  cases hf : found with
  | ok a => exact h a hf
  | error e => exact .refl p

theorem commit_steps {result : Except Error Processor}
    (h : ∀ q, result = .ok q → Steps s n b p q) :
    Steps s n b p (Reply.commit p result).processor := attempt_steps h

theorem andThen_steps {reply : Reply} {next : Processor → Reply}
    (h : Steps s n b p reply.processor) (hn : ∀ q, Steps s n b q (next q).processor) :
    Steps s n b p (reply.andThen next).processor := by
  cases reply with
  | done q => exact h.trans (hn q)
  | failed q e => exact h

theorem adjust_steps {f : GraphicsState → Except Error GraphicsState}
    (h : ∀ g, f p.gstate = .ok g → StateStep s p g) : Steps s n b p (p.adjust f).processor := by
  refine commit_steps fun q hq => ?_
  obtain ⟨g, hg, rfl⟩ := exists_of_map_ok hq
  exact .step (.state (h g hg))

/-! ## Fonts and dictionaries of graphics states -/

/-- A processor that differs at most in the fonts it remembers. -/
def SameButFonts (p q : Processor) : Prop :=
  q = { p with fontCache := q.fontCache, fontLoads := q.fontLoads }

theorem loadFont_sameButFonts {name : String} {ref : Option ObjectRef} {spec : Object}
    {font : SelectedFont} (h : p.loadFont s name ref spec = .ok (font, q)) : SameButFonts p q := by
  unfold loadFont at h
  split at h
  · cases h
    rfl
  · obtain ⟨dict, -, h⟩ := exists_of_bind_ok h
    obtain ⟨font, -, h⟩ := exists_of_bind_ok h
    cases h
    rfl

theorem SameButFonts.trans (h₁ : SameButFonts p q) (h₂ : SameButFonts q r) : SameButFonts p r := by
  unfold SameButFonts at *
  rw [h₂, h₁]

theorem SameButFonts.gstate (h : SameButFonts p q) : q.gstate = p.gstate := by
  unfold SameButFonts at h
  rw [h]

theorem applyFont_cases (s : Setting) (p : Processor) (value : Object) (g : GraphicsState) :
    (StateDict.applyFont s p value g).2 = p ∨
      ∃ name ref spec font, p.loadFont s name ref spec =
        .ok (font, (StateDict.applyFont s p value g).2) := by
  unfold StateDict.applyFont
  split
  · exact .inl rfl
  · dsimp only
    split
    · exact .inl rfl
    · exact .inr ⟨_, _, _, _, by assumption⟩
  · exact .inl rfl

/-- Applying entries loads fonts and does nothing else to the processor. -/
theorem applyEntries_steps (d : List (String × Object)) (p : Processor) (g : GraphicsState) :
    Steps s n b p (StateDict.applyEntries s p g d).2 ∧
      SameButFonts p (StateDict.applyEntries s p g d).2 := by
  induction d generalizing p g with
  | nil => exact ⟨.refl p, rfl⟩
  | cons entry rest ih =>
    obtain ⟨key, raw⟩ := entry
    simp only [StateDict.applyEntries]
    generalize hx : (if key = "Font" then StateDict.applyFont s p (s.table.resolve raw) g
      else (StateDict.applyEntry s.table key (s.table.resolve raw) g, p)) = x
    -- The first entry loads a font or leaves the processor alone.
    have hfirst : Steps s n b p x.2 ∧ SameButFonts p x.2 := by
      rw [← hx]
      split
      · rcases applyFont_cases s p (s.table.resolve raw) g with h | ⟨_, _, _, _, h⟩
        · rw [h]
          exact ⟨.refl p, rfl⟩
        · exact ⟨.step (.load h), loadFont_sameButFonts h⟩
      · exact ⟨.refl p, rfl⟩
    obtain ⟨result, q⟩ := x
    cases result with
    | ok g' => exact ⟨hfirst.1.trans (ih q g').1, hfirst.2.trans (ih q g').2⟩
    | error e => exact hfirst

theorem applyStateDict_steps (s : Setting) (p : Processor) (name : String) :
    Steps s n b p (p.applyStateDict s name).processor := by
  unfold applyStateDict
  split
  · exact .refl p
  · rename_i d _
    obtain ⟨hsteps, hsame⟩ := applyEntries_steps (s := s) (n := n) (b := b) d p p.gstate
    split
    · rename_i g p' he
      rw [he] at hsteps hsame
      exact hsteps.tail (.state (.dict (q := p) (by rw [hsame.gstate, he])))
    · rename_i e p' he
      rw [he] at hsteps
      exact hsteps

theorem selectFont_steps {name : String} {size : Decimal} (h : p.selectFont s name size = .ok q) :
    Steps s n b p q := by
  obtain ⟨found, -, h⟩ := exists_of_bind_ok h
  obtain ⟨⟨font, loaded⟩, hl, h⟩ := exists_of_bind_ok h
  cases h
  exact (Steps.step (.load hl)).tail (.state (.font font size))

/-! ## Painting -/

theorem paintDevice_steps (s : Setting) (p : Processor) (style : PaintStyle) (device : Path) :
    Steps s n b p (p.paintDevice s style device) := by
  unfold paintDevice
  split
  · exact .step (.mark p _ rfl)
  · exact .refl p

theorem applyClip_steps (s : Setting) (p : Processor) (device : Path) (rule : FillRule) :
    Steps s n b p (p.applyClip s device rule) :=
  (Steps.step (.state (.clip device rule))).tail (.mark _ _ rfl)

theorem paint_steps (s : Setting) (p : Processor) (style : PaintStyle) :
    Steps s n b p (p.paint s style).processor := by
  unfold paint
  dsimp only
  split
  · exact .step (.dropPath p)
  · rename_i device _
    have hpainted := (Steps.step (n := n) (b := b) (.dropPath p)).trans
      (paintDevice_steps s _ style device)
    split
    · exact hpainted.trans (applyClip_steps s _ device _)
    · exact hpainted

/-! ## Streams inside the stream -/

/-- A way to run streams inside others that does nothing but take steps. -/
def Follows (s : Setting) (n : Nat) (nested : NestedRunner) : Prop :=
  ∀ run p, Asks s p run → Steps s n false p (nested run p).processor

theorem Follows.processor (hn : Follows s n nested) {run : NestedRun} {reply : Reply}
    (hrun : p.Asks s run) (h : nested run p = reply) : Steps s n b p reply.processor :=
  h ▸ (hn run p hrun).weaken

theorem runGlyph_steps (hn : Follows s n nested) (operator : String) (font : SelectedFont)
    (m : Matrix) (code : Nat) (p : Processor) :
    Steps s n b p (p.runGlyph s nested operator font m code).processor := by
  unfold runGlyph
  split
  · exact .refl p
  · split
    · exact .refl p
    · split
      · exact .refl p
      · dsimp only
        split
        · exact hn.processor (.glyph rfl) (by assumption)
        · exact (hn.processor (.glyph rfl) (by assumption)).tail (.report _ _ _)

theorem showGlyph_steps (hn : Follows s n nested) (operator : String) (font : SelectedFont)
    (c : CharCode) (p : Processor) :
    Steps s n b p (p.showGlyph s nested operator font c).processor := by
  unfold showGlyph
  split
  · refine andThen_steps ?_ fun q => adjust_steps fun g hg => .advance hg
    exact (Steps.step (.mark p _ rfl)).trans (runGlyph_steps hn _ _ _ _ _)
  · exact .refl p

theorem showCodes_steps (hn : Follows s n nested) (operator : String) (font : SelectedFont)
    (codes : List CharCode) (p : Processor) :
    Steps s n b p (showCodes s nested operator font codes p).processor := by
  induction codes generalizing p with
  | nil => exact .refl p
  | cons c rest ih => exact andThen_steps (showGlyph_steps hn operator font c p) ih

/-- Moving back is moving on by the opposite distance. -/
theorem advance_of_shiftText {g g' : GraphicsState} {amount : Decimal}
    (h : g.shiftText amount = .ok g') : ∃ d, g.advanceText d = .ok g' := by
  obtain ⟨size, -, h⟩ := exists_of_bind_ok h
  obtain ⟨scaled, -, h⟩ := exists_of_bind_ok h
  obtain ⟨distance, -, h⟩ := exists_of_bind_ok h
  exact ⟨-distance, h⟩

theorem showItems_steps (hn : Follows s n nested) (operator : String) (font : SelectedFont)
    (items : List TextItem) (p : Processor) :
    Steps s n b p (showItems s nested operator font items p).processor := by
  induction items generalizing p with
  | nil => exact .refl p
  | cons item rest ih =>
    cases item with
    | shift amount =>
      refine andThen_steps (adjust_steps fun g hg => ?_) ih
      obtain ⟨d, hd⟩ := advance_of_shiftText hg
      exact .advance hd
    | string bytes => exact andThen_steps (showCodes_steps hn operator font _ p) ih

theorem setSpacing_steps (p : Processor) (spacing : Option (Decimal × Decimal)) :
    Steps s n b p (p.setSpacing spacing) := by
  cases spacing with
  | none => exact .refl p
  | some spaces =>
    obtain ⟨word, char⟩ := spaces
    have hword : (Instruction.state (.wordSpace word)).IsRead :=
      ⟨.wordSpace, ⟨"Tw", [.number word]⟩, rfl⟩
    have hchar : (Instruction.state (.charSpace char)).IsRead :=
      ⟨.charSpace, ⟨"Tc", [.number char]⟩, rfl⟩
    exact (Steps.step (.state (.change hword rfl))).tail (.state (.change hchar rfl))

theorem showText_steps (hn : Follows s n nested) (p : Processor) (text : Showing) :
    Steps s n b p (p.showText s nested text).processor := by
  unfold showText
  split
  · exact .refl p
  · rename_i font _
    dsimp only
    refine (setSpacing_steps p text.spacing).trans (andThen_steps ?_ (showItems_steps hn _ font _))
    split
    · exact adjust_steps fun g hg => .change (c := .nextLine) ⟨.nextLine, ⟨"T*", []⟩, rfl⟩ hg
    · exact .refl _

theorem showExternal_steps (hn : Follows s n nested) (p : Processor) (name : String) :
    Steps s n b p (p.showExternal s nested name).processor := by
  refine attempt_steps fun found _ => ?_
  obtain ⟨ref, object⟩ := found
  dsimp only
  split
  · exact attempt_steps fun run hrun => (hn run p (.form hrun)).weaken
  · exact .step (.mark p _ rfl)
  · exact .refl p

/-! ## Instructions -/

theorem restore_steps (p : Processor) : Steps s n true p p.restore.processor := by
  unfold restore
  split
  · exact .refl p
  · rename_i hf
    split
    · exact .refl p
    · rename_i hg
      exact .restore (Nat.lt_of_not_le hf) hg

theorem beginSection_steps (s : Setting) (p : Processor) (tag : String) (props : Option Object) :
    Steps s n b p (p.beginSection s tag props).processor := by
  unfold beginSection
  split
  · exact .step (.openSection p _)
  · exact .step (.openSection p _)

theorem endSection_steps (s : Setting) (p : Processor) :
    Steps s n b p (p.endSection s).processor := by
  unfold endSection
  split
  · exact .refl p
  · rename_i h
    exact .step (.closeSection h)

theorem perform_steps (hn : Follows s n nested) (p : Processor) {i : Instruction}
    (hi : i.IsRead) : Steps s n i.saves p (p.perform s nested i).processor := by
  cases i with
  | nothing => exact .refl p
  | state c => exact adjust_steps (f := (·.apply c)) fun g hg => .change hi hg
  | save => exact .save p
  | restore => exact restore_steps p
  | stateDict name => exact applyStateDict_steps s p name
  | path step =>
    refine commit_steps fun q hq => ?_
    obtain ⟨path, hs, rfl⟩ := exists_of_map_ok hq
    exact .step (.path hs)
  | paint style => exact paint_steps s p style
  | clip rule => exact .step (.announceClip p rule)
  | font name size => exact commit_steps fun q hq => selectFont_steps hq
  | «show» text => exact showText_steps hn p text
  | glyphMetrics operator metrics =>
    refine commit_steps fun q hq => ?_
    unfold declareMetrics at hq
    split at hq
    · rename_i h
      cases hq
      exact .step (.metrics metrics h)
    · cases hq
  | colorSpace side name =>
    refine commit_steps fun q hq => ?_
    obtain ⟨space, hs, hq⟩ := exists_of_bind_ok hq
    cases hq
    exact .step (.state (.space side hs))
  | shading name =>
    refine commit_steps fun q hq => ?_
    obtain ⟨_, -, hq⟩ := exists_of_bind_ok hq
    cases hq
    exact .step (.mark p _ rfl)
  | xobject name => exact showExternal_steps hn p name
  | inlineImage image => exact (Steps.step (.countImage p)).tail (.mark _ _ rfl)
  | strayImage fault => exact .refl p
  | markPoint tag props =>
    refine commit_steps fun q hq => ?_
    obtain ⟨_, -, hq⟩ := exists_of_bind_ok hq
    cases hq
    exact .step (.mark p _ rfl)
  | beginSection tag props => exact beginSection_steps s p tag props
  | endSection => exact endSection_steps s p
  | beginCompat => exact .step (.compat p _)
  | endCompat => exact .step (.compat p _)

/-! ## Operators -/

theorem executeWord_steps (hn : Follows s n nested) (p : Processor) (word : String)
    (args : List Object)
    (hb : ∀ op arity i, Operator.find? word = some (op, arity) → arity.accepts args.length = true →
      op.read ⟨word, args⟩ = .ok i → i.saves = true → b = true) :
    Steps s n b p (p.executeWord s nested word args) := by
  unfold executeWord
  split
  · split
    · exact .refl p
    · exact .step (.report p _ _)
  · rename_i op arity hop
    split
    · rename_i ha
      have hreply : Steps s n b p (p.operate s nested op ⟨word, args⟩).processor := by
        refine attempt_steps fun i hi => ?_
        have hi' := perform_steps hn p ⟨op, _, hi⟩
        cases hs : i.saves with
        | false =>
          rw [hs] at hi'
          exact hi'.weaken
        | true =>
          rw [hb op arity i hop ha hi hs]
          exact hi'.saving
      revert hreply
      cases p.operate s nested op ⟨word, args⟩ with
      | done q => exact id
      | failed q e => exact fun h => (h.tail (.place q _)).tail (.report _ _ _)
    · exact .step (.report p _ _)

theorem exists_limit_of_exhausted (h : p.exhausted s = true) :
    ∃ limit, s.config.maxOperators = some limit := by
  unfold exhausted at h
  cases hl : s.config.maxOperators with
  | none => simp [hl] at h
  | some limit => exact ⟨limit, rfl⟩

theorem dispatch_steps (hn : Follows s n nested) (p : Processor) (word : String)
    (args : List Object) : Steps s n true p (p.dispatch s nested word args) := by
  unfold dispatch
  split
  · rename_i h
    obtain ⟨limit, hl⟩ := exists_limit_of_exhausted h
    rw [hl]
    exact .step (.stop p _)
  · rename_i h
    have hcount : Steps s n true p { p with executed := p.executed + 1 } :=
      .step (.count (Bool.eq_false_iff.2 h))
    exact hcount.trans (executeWord_steps hn _ word args fun _ _ _ _ _ _ _ => rfl)

theorem dispatchImage_steps (hn : Follows s n nested) (p : Processor) (image : Stream)
    (args : List Object) : Steps s n true p (p.dispatchImage s nested image args) := by
  unfold dispatchImage
  split
  · exact dispatch_steps hn p _ _
  · exact .step (.report p _ _)

/-! ## Streams -/

/-- **Items.** Executing items is a course of steps, on a level where states are saved and restored. -/
theorem executeItems_steps (hn : Follows s n nested) (items : List ItemAt) (operands : List Object)
    (p : Processor) : Steps s n true p (executeItems s nested items operands p) := by
  induction items generalizing operands p with
  | nil => exact .refl p
  | cons item rest ih =>
    obtain ⟨pos, item⟩ := item
    have hlook : Steps s n true p (p.poll s) := .step (.look p)
    simp only [executeItems]
    split
    · exact .step (.breakdown p)
    · split
      · exact hlook
      · have hplace := hlook.tail (.place _ pos)
        split
        · exact hplace.trans (ih _ _)
        · exact (hplace.trans (dispatch_steps hn _ _ _)).trans (ih _ _)
        · exact (hplace.trans (dispatchImage_steps hn _ _ _)).trans (ih _ _)
        · exact hplace.tail (.stop _ _)
        · exact (hplace.tail (.report _ _ _)).trans (ih _ _)

/-! ## The end of a stream -/

theorem openSections_closeLatest_one (h : p.openSections ≠ 0) :
    (closeLatest s 1 p).openSections + 1 = p.openSections := by
  unfold openSections at h ⊢
  cases hsec : p.sections with
  | nil => simp [hsec] at h
  | cons label rest =>
    simp only [hsec, List.length_cons] at h
    simp only [closeLatest, hsec, emit_sections, emit_sectionFloor, List.length_cons]
    omega

theorem closeLatest_succ (s : Setting) (k : Nat) (p : Processor) :
    closeLatest s (k + 1) p = closeLatest s k (closeLatest s 1 p) := by
  cases hsec : p.sections with
  | nil => cases k <;> simp [closeLatest, hsec]
  | cons label rest => simp [closeLatest, hsec]

theorem closeLatest_steps (k : Nat) (p : Processor) (h : k ≤ p.openSections) :
    Steps s n b p (closeLatest s k p) ∧ (closeLatest s k p).openSections + k = p.openSections := by
  induction k generalizing p with
  | zero => exact ⟨.refl p, rfl⟩
  | succ k ih =>
    have hopen : p.openSections ≠ 0 := by omega
    have hone := openSections_closeLatest_one (s := s) hopen
    obtain ⟨hsteps, hrest⟩ := ih (closeLatest s 1 p) (by omega)
    rw [closeLatest_succ]
    exact ⟨(Steps.step (.closeSection hopen)).trans hsteps, by omega⟩

theorem closeSections_steps (s : Setting) (p : Processor) :
    Steps s n b p (p.closeSections s) ∧ (p.closeSections s).openSections = 0 := by
  unfold closeSections
  split
  · rename_i h
    exact ⟨.refl p, h⟩
  · dsimp only
    generalize Error.markedContent _ = e
    obtain ⟨hsteps, hrest⟩ := closeLatest_steps (s := s) (n := n) (b := b) p.openSections
      (p.report none e) (Nat.le_refl p.openSections)
    have hsame : (p.report none e).openSections = p.openSections := rfl
    exact ⟨(Steps.step (.report p none e)).trans hsteps, by omega⟩

/-- A whole stream: a course of steps over a floor of its own, which ends with no section open. -/
theorem execute_steps (hn : Follows s n nested) (p : Processor) (items : List ItemAt) :
    ∃ inner, Steps s n true { p with sectionFloor := p.sections.length } inner ∧
      inner.openSections = 0 ∧
      p.execute s nested items = { inner with sectionFloor := p.sectionFloor } := by
  obtain ⟨hclose, hopen⟩ := closeSections_steps (n := n) (b := true) s
    (executeItems s nested items [] { p with sectionFloor := p.sections.length })
  exact ⟨_, (executeItems_steps hn items [] _).trans hclose, hopen, rfl⟩

@[simp] theorem enter_sections (s : Setting) (p : Processor) (run : NestedRun) (clip : Option Path) :
    (p.enter s run clip).sections = p.sections := by
  unfold enter enterForm
  cases run.source with
  | form info ref => cases clip <;> exact emit_sections ..
  | glyph font procedure => rfl

@[simp] theorem enter_sectionFloor (s : Setting) (p : Processor) (run : NestedRun)
    (clip : Option Path) : (p.enter s run clip).sectionFloor = p.sectionFloor := by
  unfold enter enterForm
  cases run.source with
  | form info ref => cases clip <;> exact emit_sectionFloor ..
  | glyph font procedure => rfl

/-- A stream inside another is not run at all, or it runs from its start to its end. -/
theorem runNested_cases (hn : Follows s n nested) (run : NestedRun) (p : Processor) :
    (∃ e, p.runNested s nested run = .failed p e) ∨
      ∃ clip inner, p.isActive run.source = false ∧ run.clipPath = .ok clip ∧
        Steps s n true (p.beginNested s run clip) inner ∧ inner.openSections = 0 ∧
        p.runNested s nested run = .done (p.endNested s run inner) := by
  unfold runNested
  split
  · exact .inl ⟨_, rfl⟩
  · rename_i hactive
    cases hclip : run.clipPath with
    | error e => exact .inl ⟨e, rfl⟩
    | ok clip =>
      obtain ⟨inner, hsteps, hopen, heq⟩ :=
        execute_steps hn (p.enter s run clip) (Content.itemsOf run.data)
      have hbegin : p.beginNested s run clip = { p.enter s run clip with
          sectionFloor := (p.enter s run clip).sections.length } :=
        congrArg (fun labels : List MarkedContent =>
          { p.enter s run clip with sectionFloor := labels.length }) (enter_sections ..).symm
      refine .inr ⟨clip, inner, by simpa using hactive, rfl, hbegin ▸ hsteps, hopen, ?_⟩
      rw [enter_sectionFloor] at heq
      simp only [Reply.attempt, heq, endNested]

/-- **Streams inside streams.** The runner takes steps only, and saves and restores nothing on the
level of the stream around. -/
theorem runner_steps (s : Setting) (n : Nat) : Follows s n (runner s n) := by
  induction n with
  | zero => exact fun run p _ => .refl p
  | succ n ih =>
    intro run p hrun
    show Steps s (n + 1) false p (p.runNested s (runner s n) run).processor
    rcases runNested_cases ih run p with ⟨e, h⟩ | ⟨clip, inner, hactive, hclip, hsteps, hopen, h⟩
    · rw [h]
      exact .refl p
    · rw [h]
      exact .nested hrun hactive hclip hsteps hopen

end Processor

end ContentStream
