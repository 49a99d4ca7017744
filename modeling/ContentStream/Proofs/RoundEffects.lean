import ContentStream.Proofs.Activation
import ContentStream.Proofs.PendingPath

/-!
# What a stream does by itself

A round of a stream either asks for another stream or does everything by itself. This module says, once
for each part of a round, what the stream does then (`Does`): it stays where it stands, keeps its path
drawable, reports what obeys a law, tells of a path only if it paints, and does not break down.

* `perform_idle_does`: instructions, other than to show text.
* `executeWord_idle_does`: operators, whose failures are reported under their word.
* `showGlyph_idle_does`, `showGlyph_answered`: glyphs, without a procedure and with the answer of one.
* `closeSections_does`: the end of the stream.
-/

namespace ContentStream

def EventPayload.isPath : EventPayload → Bool
  | path _ => true
  | _ => false

namespace Processor

variable {s : Setting} {paints : Prop} {law : Diagnostic → Prop} {p q r : Processor}

/-! ## Effects -/

/-- From `p` to `q` the stream stays where it stands and does not break off, and the diagnostics that
come up obey a law. -/
structure Adds (law : Diagnostic → Prop) (p q : Processor) : Prop where
  pos : q.pos = p.pos
  depth : q.depth = p.depth
  abort : ∀ pos, q.abort = some (.truncated pos) → p.abort = some (.truncated pos)
  diagnostics : ∃ told, q.diagnostics = p.diagnostics ++ told ∧ ∀ d ∈ told, law d

/-- Besides, the path stays drawable, there is no path among the events unless the stream `paints`, and
nothing breaks down. -/
structure Does (paints : Prop) (law : Diagnostic → Prop) (p q : Processor) : Prop
    extends Adds law p q where
  drawable : p.path.Drawable → q.path.Drawable
  events : ∃ told, q.events = p.events ++ told ∧ ∀ e ∈ told, e.payload.isPath = true → paints
  broken : q.broken = p.broken

namespace Does

theorem of_same (hpos : q.pos = p.pos) (hdepth : q.depth = p.depth) (habort : q.abort = p.abort)
    (hlog : q.log = p.log) (hpath : p.path.Drawable → q.path.Drawable) : Does paints law p q where
  pos := hpos
  depth := hdepth
  abort := fun pos h => habort ▸ h
  diagnostics := ⟨[], by simp [diagnostics, entries, hlog], by simp⟩
  drawable := hpath
  events := ⟨[], by simp [Processor.events, entries, hlog], by simp⟩
  broken := congrArg (List.any · LogEntry.isBreakdown) hlog

theorem refl (p : Processor) : Does paints law p p := .of_same rfl rfl rfl rfl id

theorem trans (h₁ : Does paints law p q) (h₂ : Does paints law q r) : Does paints law p r where
  pos := h₂.pos.trans h₁.pos
  depth := h₂.depth.trans h₁.depth
  abort := fun pos h => h₁.abort pos (h₂.abort pos h)
  diagnostics := by
    obtain ⟨told₁, hd₁, hlaw₁⟩ := h₁.diagnostics
    obtain ⟨told₂, hd₂, hlaw₂⟩ := h₂.diagnostics
    refine ⟨told₁ ++ told₂, by rw [hd₂, hd₁, List.append_assoc], ?_⟩
    exact List.forall_mem_append.2 ⟨hlaw₁, hlaw₂⟩
  drawable := fun hp => h₂.drawable (h₁.drawable hp)
  events := by
    obtain ⟨told₁, he₁, hpaints₁⟩ := h₁.events
    obtain ⟨told₂, he₂, hpaints₂⟩ := h₂.events
    refine ⟨told₁ ++ told₂, by rw [he₂, he₁, List.append_assoc], ?_⟩
    exact List.forall_mem_append.2 ⟨hpaints₁, hpaints₂⟩
  broken := h₂.broken.trans h₁.broken

theorem diagnostics_eq (h : Does paints (fun _ => False) p q) : q.diagnostics = p.diagnostics := by
  obtain ⟨told, hd, hnone⟩ := h.diagnostics
  rw [hd, List.eq_nil_iff_forall_not_mem.2 hnone, List.append_nil]

theorem report {operator : Option String} {e : Error} (h : law ⟨p.pos, p.depth, operator, e⟩) :
    Does paints law p (p.report operator e) where
  pos := rfl
  depth := rfl
  abort := fun _ h => h
  diagnostics := ⟨_, diagnostics_report p operator e, List.forall_mem_singleton.2 h⟩
  drawable := id
  events := ⟨[], by rw [events_report, List.append_nil], by simp⟩
  broken := broken_report p operator e

theorem emit (s : Setting) (p : Processor) {payload : EventPayload}
    (h : payload.isPath = true → paints) : Does paints law p (p.emit s payload) where
  pos := by
    unfold Processor.emit
    split <;> rfl
  depth := by
    unfold Processor.emit
    split <;> rfl
  abort := by
    unfold Processor.emit
    split <;> exact fun _ h => h
  diagnostics := ⟨[], by rw [diagnostics_emit, List.append_nil], by simp⟩
  drawable := fun hp => path_emit s p payload ▸ hp
  events := by
    refine ⟨_, events_emit s p payload, fun e he => ?_⟩
    split at he
    · cases List.mem_singleton.1 he
      exact h
    · cases he
  broken := broken_emit s p payload

theorem mark (s : Setting) (p : Processor) {payload : EventPayload}
    (h : payload.isPath = false) : Does paints law p (p.emit s payload) :=
  .emit s p fun hpath => absurd hpath (Bool.eq_false_iff.1 h)

theorem attempt {α : Type} {found : Except Error α} {next : α → Reply}
    (h : ∀ a, found = .ok a → Does paints law p (next a).processor) :
    Does paints law p (Reply.attempt p found next).processor := by
  cases hf : found with
  | ok a => exact h a hf
  | error e => exact .refl p

theorem commit {result : Except Error Processor} (h : ∀ q, result = .ok q → Does paints law p q) :
    Does paints law p (Reply.commit p result).processor :=
  .attempt h

theorem adjust (p : Processor) (f : GraphicsState → Except Error GraphicsState) :
    Does paints law p (p.adjust f).processor := by
  refine .commit fun q hq => ?_
  obtain ⟨g, -, rfl⟩ := exists_of_map_ok hq
  exact .of_same rfl rfl rfl rfl id

theorem sameButFonts (h : SameButFonts p q) : Does paints law p q := by
  unfold SameButFonts at h
  rw [h]
  exact .of_same rfl rfl rfl rfl id

/-- What an operator does, and the report of its failure. -/
theorem settle {reply : Reply} {word : String} (h : Does paints law p reply.processor)
    (hlaw : ∀ e, law ⟨p.pos, p.depth, some word, e⟩) :
    Does paints law p (settle p.pos word reply) := by
  cases reply with
  | done q => exact h
  | failed q e =>
    have hplace : Does paints law p { q with pos := p.pos } :=
      { h with pos := rfl }
    exact hplace.trans (.report (h.depth ▸ hlaw e))

theorem fail {word : String} (hlaw : ∀ e, law ⟨p.pos, p.depth, some word, e⟩) (e : Error) :
    Does paints law p (Processor.settle p.pos word (.failed p e)) :=
  .settle (.refl p) hlaw

end Does

/-! ## Instructions -/

theorem closeLatest_does (s : Setting) (n : Nat) (p : Processor) :
    Does paints law p (closeLatest s n p) := by
  induction n generalizing p with
  | zero => exact .refl p
  | succ n ih =>
    unfold closeLatest
    split
    · exact .refl p
    · rename_i label rest _
      have hrest : Does paints law p { p with sections := rest } := .of_same rfl rfl rfl rfl id
      exact (hrest.trans (.mark s _ rfl)).trans (ih _)

theorem openSection_does (s : Setting) (p : Processor) (label : MarkedContent) :
    Does paints law p (p.openSection s label) := by
  have hopen : Does paints law p { p with sections := label :: p.sections } :=
    .of_same rfl rfl rfl rfl id
  exact hopen.trans (.mark s _ rfl)

theorem applyStateDict_does (s : Setting) (p : Processor) (name : String) :
    Does paints law p (p.applyStateDict s name).processor := by
  unfold applyStateDict
  split
  · exact .refl p
  · rename_i d _
    have hsame := (applyEntries_steps (s := s) (n := 0) (b := true) d p p.gstate).2
    split
    · rename_i g p' he
      rw [he] at hsame
      exact (Does.sameButFonts hsame).trans (.of_same rfl rfl rfl rfl id)
    · rename_i e p' he
      rw [he] at hsame
      exact .sameButFonts hsame

theorem applyClip_does (s : Setting) (p : Processor) (device : Path) (rule : FillRule) :
    Does paints law p (p.applyClip s device rule) := by
  have hnarrow : Does paints law p { p with gstate.clip := p.gstate.clip.intersect device rule } :=
    .of_same rfl rfl rfl rfl id
  exact hnarrow.trans (.mark s _ rfl)

theorem paint_does (s : Setting) (p : Processor) (style : PaintStyle) (h : paints) :
    Does paints law p (p.paint s style).processor := by
  have hdrop : Does paints law p { p with path := {}, pendingClip := none } :=
    .of_same rfl rfl rfl rfl fun _ => PathBuilder.drawable_empty
  have hdevice : ∀ (q : Processor) (device : Path),
      Does paints law q (q.paintDevice s style device) := by
    intro q device
    unfold paintDevice
    split
    · exact .emit s q fun _ => h
    · exact .refl q
  unfold paint
  dsimp only
  split
  · exact hdrop
  · rename_i device _
    split
    · exact (hdrop.trans (hdevice _ device)).trans (applyClip_does s _ device _)
    · exact hdrop.trans (hdevice _ device)

theorem showExternal_idle_does (s : Setting) (p : Processor) (name : String) :
    Does paints law p (p.showExternal s idle name).processor := by
  refine .attempt fun found _ => ?_
  obtain ⟨ref, object⟩ := found
  dsimp only
  split
  · exact .attempt fun run _ => .refl p
  · exact .mark s p rfl
  · exact .refl p

/-- An instruction other than to show text reports nothing itself, and only painting tells of paths. -/
theorem perform_idle_does (s : Setting) (p : Processor) {i : Instruction}
    (hshow : ∀ text, i ≠ .show text) (hpaints : ∀ style, i = .paint style → paints) :
    Does paints law p (p.perform s idle i).processor := by
  cases i with
  | nothing => exact .refl p
  | state c => exact .adjust p (·.apply c)
  | save => exact .of_same rfl rfl rfl rfl id
  | restore =>
    simp only [perform, restore]
    split
    · exact .refl p
    · split <;> exact .of_same rfl rfl rfl rfl id
  | stateDict name => exact applyStateDict_does s p name
  | path step =>
    refine .commit fun q hq => ?_
    obtain ⟨path, hpath, rfl⟩ := exists_of_map_ok hq
    exact .of_same rfl rfl rfl rfl fun hp => hp.step hpath
  | paint style => exact paint_does s p style (hpaints style rfl)
  | clip rule => exact .of_same rfl rfl rfl rfl id
  | font name size =>
    refine .commit fun q hq => ?_
    obtain ⟨found, -, hq⟩ := exists_of_bind_ok hq
    obtain ⟨⟨font, loaded⟩, hload, hq⟩ := exists_of_bind_ok hq
    cases hq
    exact (Does.sameButFonts (loadFont_sameButFonts hload)).trans (.of_same rfl rfl rfl rfl id)
  | «show» text => exact absurd rfl (hshow text)
  | glyphMetrics operator metrics =>
    refine .commit fun q hq => ?_
    unfold declareMetrics at hq
    split at hq
    · cases hq
      exact .of_same rfl rfl rfl rfl id
    · cases hq
  | colorSpace side name =>
    refine .commit fun q hq => ?_
    obtain ⟨space, -, hq⟩ := exists_of_bind_ok hq
    cases hq
    exact .of_same rfl rfl rfl rfl id
  | shading name =>
    refine .commit fun q hq => ?_
    obtain ⟨_, -, hq⟩ := exists_of_bind_ok hq
    cases hq
    exact .mark s p rfl
  | xobject name => exact showExternal_idle_does s p name
  | inlineImage image =>
    have hcount : Does paints law p { p with inlineImages := p.inlineImages + 1 } :=
      .of_same rfl rfl rfl rfl id
    exact hcount.trans (.mark s _ rfl)
  | strayImage fault => exact .refl p
  | markPoint tag props =>
    refine .commit fun q hq => ?_
    obtain ⟨_, -, hq⟩ := exists_of_bind_ok hq
    cases hq
    exact .mark s p rfl
  | beginSection tag props =>
    simp only [perform, beginSection]
    split <;> exact openSection_does s p _
  | endSection =>
    simp only [perform, endSection]
    split
    · exact .refl p
    · exact closeLatest_does s 1 p
  | beginCompat => exact .of_same rfl rfl rfl rfl id
  | endCompat => exact .of_same rfl rfl rfl rfl id

theorem executeWord_idle_does (s : Setting) (p : Processor) {word : String} {args : List Object}
    (hshow : ∀ text, Operator.instruction? word args ≠ some (.show text))
    (hpaints : ∀ style, Operator.instruction? word args = some (.paint style) → paints)
    (hlaw : ∀ e, law ⟨p.pos, p.depth, some word, e⟩) :
    Does paints law p (p.executeWord s idle word args) := by
  cases hinstruction : Operator.instruction? word args with
  | some i =>
    rw [executeWord_of_instruction hinstruction]
    refine .settle (perform_idle_does s p (fun text hi => ?_) fun style hi => ?_) hlaw
    · exact hshow text (hi ▸ hinstruction)
    · exact hpaints style (hi ▸ hinstruction)
  | none =>
    unfold Operator.instruction? at hinstruction
    unfold executeWord
    cases hfind : Operator.find? word with
    | none =>
      dsimp only
      split
      · exact .refl p
      · exact .report (hlaw _)
    | some found =>
      obtain ⟨op, arity⟩ := found
      by_cases harity : arity.accepts args.length = true
      · cases hread : op.read ⟨word, args⟩ with
        | ok i => simp [hfind, harity, hread, Except.toOption] at hinstruction
        | error e =>
          simp only [harity, if_true, operate, hread, Reply.attempt]
          exact .fail hlaw e
      · dsimp only
        rw [if_neg harity]
        exact .report (hlaw _)

theorem dispatch_exhausted_does (nested : NestedRunner) (word : String) (args : List Object)
    (h : p.exhausted s = true) : Does paints law p (p.dispatch s nested word args) := by
  unfold dispatch
  rw [if_pos h]
  refine { Does.refl p with abort := fun pos hpos => ?_ }
  obtain ⟨limit, -, hlimit⟩ := Option.map_eq_some_iff.1 hpos
  cases hlimit

theorem dispatchImage_does (s : Setting) (p : Processor) (image : Stream) (args : List Object)
    (hlaw : ∀ e, law ⟨p.pos, p.depth, some "BI", e⟩) :
    Does paints law p (p.dispatchImage s idle image args) := by
  have hinstruction : Operator.instruction? "EI" [image.toObject] = some (.inlineImage image) := rfl
  unfold dispatchImage
  split
  · by_cases hexhausted : p.exhausted s = true
    · exact dispatch_exhausted_does idle "EI" _ hexhausted
    · have hcounted : Does paints law p { p with executed := p.executed + 1 } :=
        .of_same rfl rfl rfl rfl id
      have hshown : Does paints law { p with executed := p.executed + 1 }
          (perform s idle { p with executed := p.executed + 1 } (.inlineImage image)).processor :=
        perform_idle_does s _ (by simp) (by simp)
      rw [dispatch, if_neg hexhausted, executeWord_of_instruction hinstruction]
      exact hcounted.trans hshown
  · exact .report (hlaw _)

/-- The end of a stream reports its open sections, if it has any, and nothing else. -/
theorem closeSections_does (s : Setting) (p : Processor)
    (hlaw : p.openSections ≠ 0 → ∀ e, law ⟨p.pos, p.depth, none, e⟩) :
    Does paints law p (p.closeSections s) := by
  unfold closeSections
  split
  · exact .refl p
  · rename_i hopen
    exact (Does.report (hlaw hopen _)).trans (closeLatest_does s _ _)

theorem poll_does (s : Setting) (p : Processor) : Does paints law p (p.poll s) := by
  unfold poll
  split
  · exact .refl p
  · refine { Does.refl p with abort := fun pos h => ?_ }
    dsimp only at h
    split at h <;> cases h

/-! ## Text -/

theorem startLine_does (p : Processor) (text : Showing) :
    Does paints law p (p.startLine text).processor := by
  have hspaced : Does paints law p (p.setSpacing text.spacing) := by
    cases text.spacing with
    | none => exact .refl p
    | some spaces => exact .of_same rfl rfl rfl rfl id
  unfold startLine
  dsimp only
  split
  · exact hspaced.trans (.adjust _ _)
  · exact hspaced

theorem showGlyph_idle_does (s : Setting) (p : Processor) (operator : String) (font : SelectedFont)
    (c : CharCode) : Does paints law p (p.showGlyph s idle operator font c).processor := by
  have hrun : ∀ (q : Processor) (m : Matrix),
      Does paints law q (q.runGlyph s idle operator font m c.code).processor := by
    intro q m
    unfold runGlyph
    split
    · exact .refl q
    · split
      · exact .refl q
      · split <;> exact .refl q
  unfold showGlyph
  split
  · rename_i m advance _ _
    have hshown : ∀ info, Does paints law p (p.emit s (.glyph info)) := fun info => .mark s p rfl
    dsimp only
    generalize GlyphInfo.mk _ _ _ _ _ _ = info
    have hglyph := (hshown info).trans (hrun _ m)
    revert hglyph
    cases (p.emit s (.glyph info)).runGlyph s idle operator font m c.code with
    | done q => exact fun hglyph => hglyph.trans (.adjust q fun g => g.advanceText advance)
    | failed q e => exact id
  · exact .refl p

/-- A glyph that asks for its procedure goes on with the answer. If the procedure was refused, that is
reported under the name of the operator. -/
theorem showGlyph_answered {font : SelectedFont} {c : CharCode} {run : NestedRun}
    (h : p.glyphAsked? s font c = some (run, q)) :
    Does paints law p q ∧ ∃ advance, ∀ (operator : String) (r : Processor),
      p.showGlyph s (fun _ _ => .done r) operator font c = r.adjust (·.advanceText advance) ∧
      ∀ e, p.showGlyph s (fun _ _ => .failed r e) operator font c =
        (r.report (some operator) e).adjust (·.advanceText advance) := by
  unfold glyphAsked? at h
  cases hmatrix : p.gstate.renderingMatrix? with
  | none => simp [hmatrix] at h
  | some m =>
    cases hadvance : p.gstate.advance? font.font c with
    | none => simp [hmatrix, hadvance] at h
    | some advance =>
      by_cases hglyphs : s.config.runGlyphs = true
      · cases hprocedure : font.font.procedure? c.code with
        | none => simp [hmatrix, hadvance, hprocedure] at h
        | some procedure =>
          cases hctm : font.font.matrix.mul? m with
          | none => simp [hmatrix, hadvance, hglyphs, hprocedure, hctm] at h
          | some ctm =>
            simp only [hmatrix, hadvance, hglyphs, hprocedure, hctm, if_true, Option.bind_eq_bind,
              Option.bind_some, Option.some.injEq, Prod.mk.injEq] at h
            obtain ⟨-, rfl⟩ := h
            refine ⟨.mark s p rfl, advance, fun operator r => ⟨?_, fun e => ?_⟩⟩
            · simp [showGlyph, hmatrix, hadvance, runGlyph, hglyphs, hprocedure, hctm, Reply.andThen]
            · simp [showGlyph, hmatrix, hadvance, runGlyph, hglyphs, hprocedure, hctm, Reply.andThen]
      · simp [hmatrix, hadvance, hglyphs] at h

end Processor

end ContentStream
