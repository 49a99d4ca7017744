import ContentStream.Proofs.Confinement

/-!
# Where glyphs stand

Showing a string places its glyphs one after the other. Between two of them a procedure may run, which
selects fonts, sets spaces, moves matrices and shows text of its own.

* `GlyphInfo.StandsAt`: what is told of a glyph that stands at a text matrix, by the arithmetic of the
  text parameters.
* `GlyphLine`: the glyphs for a list of codes, each of which stands where the one before it has moved
  the text position to.

**Theorem (`operate_showText_glyphs`).** If a string is shown, then what is told of the running stream
is the line of its glyphs, computed from the graphics state at the start alone. Afterwards the text
position has moved to the end of the line, and nothing else has changed.

What a procedure tells lies deeper (`runner_tellsInside`), and it leaves the graphics state alone
(`runner_cases`). So all that carries over from one glyph to the next is the text matrix.
-/

namespace ContentStream

/-- The graphics state with the text position moved. -/
def GraphicsState.withTextMatrix (g : GraphicsState) (m : Matrix) : GraphicsState :=
  { g with text := { g.text with matrix := m } }

/-- What is told of a glyph that stands at the text matrix `m`, if all else is as in `g`. -/
structure GlyphInfo.StandsAt (g : GraphicsState) (selected : SelectedFont) (c : CharCode)
    (m : Matrix) (info : GlyphInfo) : Prop where
  code : info.code = c.code
  text : info.text = selected.font.text? c.code
  font : info.font = selected.name
  fontSize : info.fontSize = g.text.fontSize
  /-- The width and the space behind each glyph, and for a blank of one byte also the space behind
  each word, scaled. -/
  advance : ∃ width spaced total : Decimal,
    (selected.font.width c.code).mul? g.text.fontSize = some width ∧
      width.add? g.text.charSpace = some spaced ∧
      (if c.nbytes = 1 ∧ c.code = 32 then spaced.add? g.text.wordSpace else some spaced) =
        some total ∧
      total.mul? g.text.horizontalScale = some info.advance
  /-- From units of the font size to text space, and on to device space. -/
  renderingMatrix : ∃ (width : Decimal) (inText : Matrix),
    g.text.fontSize.mul? g.text.horizontalScale = some width ∧
      Matrix.mul? ⟨width, 0, 0, g.text.fontSize, 0, g.text.rise⟩ m = some inText ∧
      inText.mul? g.ctm = some info.renderingMatrix

/-- A line of glyphs, from one text matrix to another. -/
inductive GlyphLine (g : GraphicsState) (font : SelectedFont) (depth : Nat) :
    Matrix → List CharCode → List Event → Matrix → Prop
  | nil (m : Matrix) : GlyphLine g font depth m [] [] m
  | cons {m m' last : Matrix} {c : CharCode} {codes : List CharCode} {info : GlyphInfo}
      {line : List Event} :
      info.StandsAt g font c m → m.translate? ⟨info.advance, 0⟩ = some m' →
      GlyphLine g font depth m' codes line last →
      GlyphLine g font depth m (c :: codes)
        (⟨depth, g.withTextMatrix m, .glyph info⟩ :: line) last

namespace Processor

variable {s : Setting} {n : Nat} {b : Bool} {p q r : Processor}

/-! ## What is told inside -/

/-- From `p` to `q` listeners are told of streams at this depth or deeper only. -/
def TellsFrom (depth : Nat) (p q : Processor) : Prop :=
  ∃ told, q.events = p.events ++ told ∧ ∀ e ∈ told, depth ≤ e.depth

namespace TellsFrom

variable {d d' : Nat}

theorem of_events_eq (h : q.events = p.events) : TellsFrom d p q :=
  ⟨[], by rw [h, List.append_nil], by simp⟩

theorem trans (h₁ : TellsFrom d p q) (h₂ : TellsFrom d q r) : TellsFrom d p r := by
  obtain ⟨told₁, htold₁, hdepth₁⟩ := h₁
  obtain ⟨told₂, htold₂, hdepth₂⟩ := h₂
  refine ⟨told₁ ++ told₂, by rw [htold₂, htold₁, List.append_assoc], ?_⟩
  exact List.forall_mem_append.2 ⟨hdepth₁, hdepth₂⟩

theorem mono (h : TellsFrom d p q) (hd : d' ≤ d) : TellsFrom d' p q := by
  obtain ⟨told, htold, hdepth⟩ := h
  exact ⟨told, htold, fun e he => Nat.le_trans hd (hdepth e he)⟩

end TellsFrom

theorem emit_tellsFrom (s : Setting) (p : Processor) (payload : EventPayload) :
    TellsFrom p.depth p (p.emit s payload) := by
  refine ⟨_, events_emit .., ?_⟩
  split
  · simp
  · simp

/-- A step tells of the running stream. -/
theorem Step.tellsFrom (h : Step s p q) : TellsFrom p.depth p q := by
  cases h with
  | look =>
    unfold poll
    split <;> exact .of_events_eq rfl
  | report operator e => exact .of_events_eq (events_report ..)
  | breakdown => exact .of_events_eq (events_breakDown p)
  | mark payload => exact emit_tellsFrom s p payload
  | load h => exact .of_events_eq (by simp [Processor.events, entries, (loadFont_sameButFonts h).log])
  | openSection label => exact emit_tellsFrom s { p with sections := label :: p.sections } _
  | closeSection =>
    simp only [closeLatest]
    split
    · exact .of_events_eq rfl
    · exact emit_tellsFrom s { p with sections := _ } _
  | _ => exact .of_events_eq rfl

theorem formEvents_depth {run : NestedRun} {payload : FormInfo → EventPayload} :
    ∀ e ∈ formEvents s run payload p, p.depth ≤ e.depth := by
  unfold formEvents
  split
  · split
    · simp
    · simp
  · simp

/-- What is told of a stream inside lies deeper, from its start to its end. -/
theorem nested_tellsFrom {inner : Processor} {run : NestedRun} {path : Option Path}
    (hinner : inner.depth = p.depth + 1)
    (h : TellsFrom (p.depth + 1) (p.beginNested s run path) inner) :
    TellsFrom (p.depth + 1) p (p.endNested s run inner) := by
  obtain ⟨told, htold, hdepth⟩ := h
  refine ⟨_, events_nested htold, ?_⟩
  simp only [List.forall_mem_append]
  refine ⟨fun e he => ?_, hdepth, fun e he => ?_⟩
  · rw [← depth_beginNested s p run path]
    exact formEvents_depth e he
  · rw [← hinner]
    exact formEvents_depth e he

/-- **Every course of steps** tells of the running stream and of streams inside it. -/
theorem Steps.tellsFrom (h : Steps s n b p q) : TellsFrom p.depth p q := by
  induction h with
  | refl p => exact .of_events_eq rfl
  | step h => exact h.tellsFrom
  | save p => exact .of_events_eq rfl
  | restore => exact .of_events_eq rfl
  | @nested n b p inner run path _ _ _ hsteps _ ih =>
    have hbegin := depth_beginNested s p run path
    have hinner : inner.depth = p.depth + 1 := (depth_eq hsteps.stays.ground).trans hbegin
    exact (nested_tellsFrom hinner (hbegin ▸ ih)).mono (Nat.le_succ _)
  | trans h₁ _ ih₁ ih₂ => exact ih₁.trans (depth_eq h₁.stays.ground ▸ ih₂)

/-- A stream that is run inside another tells of nothing at the depth of the one around it. -/
theorem runner_tellsInside (s : Setting) (n : Nat) (run : NestedRun) (p : Processor) :
    TellsFrom (p.depth + 1) p (runner s n run p).processor := by
  cases n with
  | zero => exact .of_events_eq rfl
  | succ n =>
    rcases runNested_cases (runner_steps s n) run p with
      ⟨e, h⟩ | ⟨path, inner, -, -, hsteps, -, h⟩
    · rw [show runner s (n + 1) run p = .failed p e from h]
      exact .of_events_eq rfl
    · rw [show runner s (n + 1) run p = _ from h]
      have hbegin := depth_beginNested s p run path
      have htells := hsteps.tellsFrom
      rw [hbegin] at htells
      exact nested_tellsFrom ((depth_eq hsteps.stays.ground).trans hbegin) htells

/-! ## One glyph -/

variable {operator : String} {font : SelectedFont}

/-- The procedure of a glyph, run or refused, leaves the stream around it where it was. -/
theorem runGlyph_aside {m : Matrix} {code : Nat}
    (h : p.runGlyph s (runner s n) operator font m code = .done q) :
    q.gstate = p.gstate ∧ q.depth = p.depth ∧ TellsFrom (p.depth + 1) p q := by
  unfold runGlyph at h
  split at h
  · cases h
    exact ⟨rfl, rfl, .of_events_eq rfl⟩
  · split at h
    · cases h
      exact ⟨rfl, rfl, .of_events_eq rfl⟩
    · split at h
      · cases h
      · rename_i procedure _ _ ctm _
        dsimp only at h
        generalize hrun : NestedRun.mk _ _ _ _ = run at h
        have htells := runner_tellsInside s n run p
        rcases runner_cases s n run p with ⟨e, hfailed⟩ | ⟨r, hdone, hr⟩
        · rw [hfailed] at h
          cases h
          exact ⟨rfl, rfl, .of_events_eq (events_report ..)⟩
        · rw [hdone] at h htells
          cases h
          exact ⟨hr.gstate, hr.depth, htells⟩

/-- The arithmetic of the text parameters does not look at the text position, except for the matrix
that it is given. -/
theorem standsAt_of_some {g : GraphicsState} {m trm : Matrix} {c : CharCode} {advance : Decimal}
    (hmatrix : (g.withTextMatrix m).renderingMatrix? = some trm)
    (hadvance : (g.withTextMatrix m).advance? font.font c = some advance) :
    GlyphInfo.StandsAt g font c m
      ⟨c.code, font.font.text? c.code, font.name, g.text.fontSize, trm, advance⟩ := by
  unfold GraphicsState.renderingMatrix? at hmatrix
  unfold GraphicsState.advance? at hadvance
  simp only [Option.bind_eq_bind, Option.bind_eq_some_iff] at hmatrix hadvance
  obtain ⟨width, hwidth, inText, hinText, htrm⟩ := hmatrix
  obtain ⟨glyphWidth, hglyph, spaced, hspaced, hadvance⟩ := hadvance
  have hblank : c.isWordSpace = true ↔ c.nbytes = 1 ∧ c.code = 32 := by simp [CharCode.isWordSpace]
  have hword : ∃ total : Decimal,
      (if c.nbytes = 1 ∧ c.code = 32 then spaced.add? g.text.wordSpace else some spaced) =
        some total ∧
      total.mul? g.text.horizontalScale = some advance := by
    split at hadvance
    · rename_i hspace
      rw [if_pos (hblank.1 hspace)]
      exact Option.bind_eq_some_iff.1 hadvance
    · rename_i hspace
      rw [if_neg fun h => hspace (hblank.2 h)]
      exact ⟨spaced, rfl, hadvance⟩
  obtain ⟨total, htotal, hscaled⟩ := hword
  exact ⟨rfl, rfl, rfl, rfl, ⟨glyphWidth, spaced, total, hglyph, hspaced, htotal, hscaled⟩,
    ⟨width, inText, hwidth, hinText, htrm⟩⟩

/-- Moving the text position on changes the text matrix only. -/
theorem gstate_of_advanceText {g : GraphicsState} {m : Matrix} {distance : Decimal}
    (hg : p.gstate = g.withTextMatrix m) (h : p.adjust (·.advanceText distance) = .done q) :
    ∃ m', m.translate? ⟨distance, 0⟩ = some m' ∧
      q = { p with gstate := g.withTextMatrix m' } := by
  have hadvance : (g.withTextMatrix m).advanceText distance =
      (orOverflow (m.translate? ⟨distance, 0⟩)).map g.withTextMatrix := rfl
  simp only [adjust, hg, hadvance] at h
  cases hmoved : m.translate? ⟨distance, 0⟩ with
  | none =>
    rw [hmoved] at h
    cases h
  | some m' =>
    rw [hmoved] at h
    cases h
    exact ⟨m', rfl, rfl⟩

/-- A glyph that is shown stands at the text matrix, which then moves on by its advance. -/
theorem showGlyph_places {g : GraphicsState} {m : Matrix} {c : CharCode}
    (hg : p.gstate = g.withTextMatrix m)
    (h : p.showGlyph s (runner s n) operator font c = .done q) :
    ∃ info m' inside, info.StandsAt g font c m ∧ m.translate? ⟨info.advance, 0⟩ = some m' ∧
      q.gstate = g.withTextMatrix m' ∧ q.depth = p.depth ∧
      q.events = p.events ++
        ((if s.listening then [⟨p.depth, g.withTextMatrix m, .glyph info⟩] else []) ++ inside) ∧
      ∀ e ∈ inside, p.depth < e.depth := by
  unfold showGlyph at h
  split at h
  · rename_i trm advance hmatrix hadvance
    rw [hg] at hmatrix hadvance
    have hstands := standsAt_of_some hmatrix hadvance
    have hsize : p.gstate.text.fontSize = g.text.fontSize := by
      rw [hg]
      rfl
    dsimp only at h
    rw [hsize] at h
    generalize hinfo : GlyphInfo.mk _ _ _ _ _ _ = info at h hstands
    obtain rfl : info.advance = advance := by rw [← hinfo]
    have hdepth : (p.emit s (.glyph info)).depth = p.depth := depth_eq (emit_ground ..)
    cases hran : (p.emit s (.glyph info)).runGlyph s (runner s n) operator font trm c.code with
    | failed r e =>
      rw [hran] at h
      cases h
    | done r =>
      rw [hran] at h
      obtain ⟨hgstate, hr, inside, hinside, hdeeper⟩ := runGlyph_aside hran
      rw [emit_gstate, hg] at hgstate
      obtain ⟨m', hmoved, rfl⟩ := gstate_of_advanceText hgstate h
      rw [hdepth] at hr hdeeper
      rw [events_emit, hg, List.append_assoc] at hinside
      exact ⟨info, m', inside, hstands, hmoved, rfl, hr, hinside, hdeeper⟩
  · cases h

/-! ## Lines -/

/-- **All the codes of a string.** The induction is on the codes: each glyph finds the state of the
start with the text matrix that the one before it has left. -/
theorem showCodes_places {g : GraphicsState} {codes : List CharCode} {m : Matrix}
    (hg : p.gstate = g.withTextMatrix m)
    (h : showCodes s (runner s n) operator font codes p = .done q) :
    ∃ told line last, q.events = p.events ++ told ∧ GlyphLine g font p.depth m codes line last ∧
      (told.filter fun e => e.depth = p.depth) = (if s.listening then line else []) ∧
      q.gstate = g.withTextMatrix last := by
  induction codes generalizing p m with
  | nil =>
    cases h
    exact ⟨[], [], m, by simp, .nil m, by simp, hg⟩
  | cons c codes ih =>
    unfold showCodes at h
    cases hshown : p.showGlyph s (runner s n) operator font c with
    | failed r e =>
      rw [hshown] at h
      cases h
    | done r =>
      rw [hshown] at h
      obtain ⟨info, m', inside, hstands, hmoved, hr, hdepth, hevents, hinside⟩ :=
        showGlyph_places hg hshown
      obtain ⟨told, line, last, htold, hline, hfilter, hq⟩ := ih hr h
      rw [hdepth] at hline hfilter
      rw [hevents, List.append_assoc] at htold
      refine ⟨_, _, last, htold, .cons hstands hmoved hline, ?_, hq⟩
      have hnone : (inside.filter fun e => e.depth = p.depth) = [] :=
        List.filter_eq_nil_iff.2 fun e he => by simpa using Nat.ne_of_gt (hinside e he)
      rw [List.filter_append, List.filter_append, hnone, hfilter]
      split
      · simp
      · simp

/-- **Glyphs stand where the state at the start puts them.** Let a font be selected, and let a string be
shown without an error, whether or not procedures of glyphs are run. Then what is told at the depth of
the running stream is one glyph for each code of the string, in order. The first stands at the text
matrix of the start, and each further one where the advance of the one before has moved it. In all
other respects the graphics state is that of the start, for every glyph and at the end. -/
theorem operate_showText_glyphs {text : ByteString} (hfont : p.gstate.text.font = some font)
    (h : p.operate s (runner s n) .showText ⟨"Tj", [.string text]⟩ = .done q) :
    ∃ told line last, q.events = p.events ++ told ∧
      GlyphLine p.gstate font p.depth p.gstate.text.matrix (font.font.decode text.bytes) line last ∧
      (told.filter fun e => e.depth = p.depth) = (if s.listening then line else []) ∧
      q.gstate = p.gstate.withTextMatrix last := by
  have hshow : p.operate s (runner s n) .showText ⟨"Tj", [.string text]⟩ =
      (showCodes s (runner s n) "Tj" font (font.font.decode text.bytes) p).andThen .done := by
    show p.showText s (runner s n) ⟨"Tj", none, false, [.string text.bytes]⟩ = _
    unfold showText
    rw [hfont]
    rfl
  rw [hshow] at h
  cases hshown : showCodes s (runner s n) "Tj" font (font.font.decode text.bytes) p with
  | failed r e =>
    rw [hshown] at h
    cases h
  | done r =>
    rw [hshown] at h
    cases h
    exact showCodes_places rfl hshown

/-- A font whose only glyph, for the code of `a`, is drawn by `9 Tc /T MP`: the procedure sets the space
behind glyphs and marks a point. -/
def spacingFont : SelectedFont where
  name := "F"
  load := 0
  font :=
    { program := .type3
        { name := "Spacing"
          matrix := Font.defaultMatrix
          widths := { first := 97, widths := #[1000] }
          encoding := (∅ : CodeMap String).insert 97 "a"
          procs := [("a", ⟨[], [57, 32, 84, 99, 32, 47, 84, 32, 77, 80], 0⟩)]
          resources := none }
      toUnicode := ∅ }

/-- The string `aa` is shown in that font. Of the four events two are glyphs, whose place does not
depend on the space that the procedure sets. -/
theorem operate_showText_glyphs_spacing :
    let s : Setting := {}
    let p : Processor := { gstate.text.font := some spacingFont, gstate.text.fontSize := 10 }
    ∃ q told line last,
      p.operate s (runner s 1) .showText ⟨"Tj", [.string ⟨[97, 97], .literal⟩]⟩ = .done q ∧
      q.events = told ∧ told.length = 4 ∧
      GlyphLine p.gstate spacingFont 0 .identity [⟨97, 1⟩, ⟨97, 1⟩] line last ∧
      (told.filter fun e => e.depth = 0) = line ∧
      q.gstate = p.gstate.withTextMatrix last := by
  intro s p
  have hshown : Reply.casesOn (motive := fun _ => Bool)
      (p.operate s (runner s 1) .showText ⟨"Tj", [.string ⟨[97, 97], .literal⟩]⟩)
      (fun q => q.events.length == 4) (fun _ _ => false) = true := by decide +kernel
  cases hq : p.operate s (runner s 1) .showText ⟨"Tj", [.string ⟨[97, 97], .literal⟩]⟩ with
  | failed q e =>
    rw [hq] at hshown
    cases hshown
  | done q =>
    rw [hq] at hshown
    obtain ⟨told, line, last, htold, hline, hfilter, hgstate⟩ := operate_showText_glyphs rfl hq
    refine ⟨q, told, line, last, rfl, htold, ?_, hline, hfilter, hgstate⟩
    rw [← List.nil_append told]
    exact htold ▸ beq_iff_eq.1 hshown

end Processor

end ContentStream
