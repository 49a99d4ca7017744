import ContentStream.Proofs.Brackets
import ContentStream.Proofs.DecimalOrder

/-!
# Forms stay within their clip

A form starts with the clip of the stream that runs it, narrowed by the box of the form.

**Theorem (`execute_formLaw`).** From the beginning of every form to its end each event has a clip that
lies within the clip at the beginning, whatever the form does and whatever runs inside it.

Operators only narrow the clip, but a restore brings an older graphics state back. So the invariant
(`Confined`) is about all states that the running stream can come back to: the one at hand and those
that it saved itself. A form starts with none of the latter. The state that is saved at its start
has the wider clip of the stream around, and lies below the floor.
-/

namespace ContentStream

/-! ## Clips within clips -/

/-- One rectangle lies inside another. -/
structure Rect.Inside (r outer : Rect) : Prop where
  x0 : outer.x0 ≤ r.x0
  y0 : outer.y0 ≤ r.y0
  x1 : r.x1 ≤ outer.x1
  y1 : r.y1 ≤ outer.y1

namespace Rect

variable {r s t : Rect}

theorem Inside.refl (r : Rect) : r.Inside r :=
  ⟨Decimal.le_refl _, Decimal.le_refl _, Decimal.le_refl _, Decimal.le_refl _⟩

theorem Inside.trans (h₁ : r.Inside s) (h₂ : s.Inside t) : r.Inside t :=
  ⟨Decimal.le_trans h₂.x0 h₁.x0, Decimal.le_trans h₂.y0 h₁.y0, Decimal.le_trans h₁.x1 h₂.x1,
    Decimal.le_trans h₁.y1 h₂.y1⟩

theorem inside_of_intersect? (h : r.intersect? s = some t) : t.Inside r := by
  unfold intersect? at h
  dsimp only at h
  split at h
  · cases h
    exact ⟨Decimal.le_max_left _ _, Decimal.le_max_left _ _, Decimal.min_le_left _ _,
      Decimal.min_le_left _ _⟩
  · cases h

end Rect

/-- A clip lies within another: it has all the regions of the other one in front of its own, it is
empty if the other one is, and its bounds lie inside those of the other one. -/
structure Clip.Within (clip outer : Clip) : Prop where
  regions : outer.regions <+: clip.regions
  empty : outer.empty = true → clip.empty = true
  bounds : ∀ r, outer.bounds = some r → ∃ r', clip.bounds = some r' ∧ r'.Inside r

namespace Clip

variable {c d e : Clip}

theorem Within.refl (c : Clip) : c.Within c :=
  ⟨List.prefix_refl _, id, fun r h => ⟨r, h, .refl r⟩⟩

theorem Within.trans (h₁ : c.Within d) (h₂ : d.Within e) : c.Within e where
  regions := h₂.regions.trans h₁.regions
  empty h := h₁.empty (h₂.empty h)
  bounds r hr := by
    obtain ⟨r', hr', hinside'⟩ := h₂.bounds r hr
    obtain ⟨r'', hr'', hinside''⟩ := h₁.bounds r' hr'
    exact ⟨r'', hr'', hinside''.trans hinside'⟩

theorem narrow_within (c : Clip) (bbox : Rect) : (c.narrow bbox).Within c := by
  unfold narrow
  split
  · rename_i r hr
    split
    · rename_i r' hmeet
      refine ⟨List.prefix_refl _, id, fun outer houter => ?_⟩
      cases hr.symm.trans houter
      exact ⟨r', rfl, Rect.inside_of_intersect? hmeet⟩
    · exact ⟨List.prefix_refl _, fun _ => rfl, fun r h => ⟨r, h, .refl r⟩⟩
  · rename_i hr
    split
    · exact .refl c
    · refine ⟨List.prefix_refl _, id, fun outer houter => ?_⟩
      cases hr.symm.trans houter

theorem narrow_regions (c : Clip) (bbox : Rect) : (c.narrow bbox).regions = c.regions := by
  unfold narrow
  split
  · split <;> rfl
  · split <;> rfl

/-- **Clipping narrows.** -/
theorem intersect_within (c : Clip) (path : Path) (rule : FillRule) :
    (c.intersect path rule).Within c := by
  unfold intersect
  split
  · exact ⟨List.prefix_refl _, fun _ => rfl, fun r h => ⟨r, h, .refl r⟩⟩
  · rename_i bbox _
    have h := c.narrow_within bbox
    exact ⟨h.regions.trans (List.prefix_append _ _), h.empty, h.bounds⟩

/-- A path with points becomes the last region. -/
theorem intersect_regions (c : Clip) {path : Path} {bbox : Rect} (rule : FillRule)
    (h : Path.bbox? path = some bbox) :
    (c.intersect path rule).regions = c.regions ++ [⟨path, rule, bbox⟩] := by
  simp only [intersect, h, narrow_regions]

end Clip

/-! ## Changes of the graphics state -/

namespace GraphicsState

variable {g g' : GraphicsState}

@[simp] theorem setColor_clip (g : GraphicsState) (color : Color) (side : Side) :
    (g.setColor color side).clip = g.clip := by
  cases side <;> rfl

@[simp] theorem setSpace_clip (g : GraphicsState) (space : ColorSpace) (color : Color)
    (side : Side) :
    (g.setSpace space color side).clip = g.clip := by
  cases side <;> rfl

theorem moveText_clip {offset : Point} (h : g.moveText offset = .ok g') : g'.clip = g.clip := by
  obtain ⟨m, -, h⟩ := exists_of_bind_ok h
  cases h
  rfl

theorem apply_clip {c : StateChange} (h : g.apply c = .ok g') : g'.clip = g.clip := by
  cases c with
  | moveText offset => exact moveText_clip h
  | nextLine => exact moveText_clip h
  | moveTextLeading offset =>
    obtain ⟨moved, hmoved, h⟩ := exists_of_bind_ok h
    cases h
    show moved.clip = g.clip
    exact moveText_clip hmoved
  | _ =>
    simp only [apply, bind, Except.bind, pure, Except.pure] at h
    repeat' split at h
    all_goals cases h
    all_goals simp

theorem advanceText_clip {d : Decimal} (h : g.advanceText d = .ok g') : g'.clip = g.clip := by
  obtain ⟨m, -, h⟩ := exists_of_bind_ok h
  cases h
  rfl

end GraphicsState

namespace StateDict

variable {g g' : GraphicsState}

theorem applyEntry_clip {table : ObjectTable} {key : String} {value : Object}
    (h : applyEntry table key value g = .ok g') : g'.clip = g.clip := by
  simp only [applyEntry, bind, Except.bind, pure, Except.pure] at h
  repeat' split at h
  all_goals cases h
  all_goals rfl

theorem applyFont_clip {s : Setting} {p : Processor} {value : Object}
    (h : (applyFont s p value g).1 = .ok g') : g'.clip = g.clip := by
  unfold applyFont at h
  split at h
  · cases h
  · dsimp only at h
    split at h
    · cases h
    · obtain ⟨size, -, rfl⟩ := exists_of_map_ok h
      rfl
  · cases h

theorem applyEntries_clip {s : Setting} {d : List (String × Object)} {p : Processor}
    (h : (applyEntries s p g d).1 = .ok g') : g'.clip = g.clip := by
  induction d generalizing p g with
  | nil =>
    cases h
    rfl
  | cons entry rest ih =>
    obtain ⟨key, raw⟩ := entry
    simp only [applyEntries] at h
    generalize hx : (if key = "Font" then applyFont s p (s.table.resolve raw) g
      else (applyEntry s.table key (s.table.resolve raw) g, p)) = x at h
    obtain ⟨result, q⟩ := x
    cases result with
    | error e => cases h
    | ok first =>
      refine (ih h).trans ?_
      split at hx
      · exact applyFont_clip (congrArg Prod.fst hx)
      · exact applyEntry_clip (congrArg Prod.fst hx)

theorem spreadOverprint_clip (d : Dict) (g : GraphicsState) :
    (spreadOverprint d g).clip = g.clip := by
  unfold spreadOverprint
  split <;> rfl

end StateDict

namespace Processor

variable {s : Setting} {n : Nat} {b : Bool} {p q : Processor} {clip : Clip}

/-- No change of the graphics state widens the clip. -/
theorem StateStep.within {g : GraphicsState} (h : StateStep s p g) :
    g.clip.Within p.gstate.clip := by
  cases h with
  | change _ h => rw [GraphicsState.apply_clip h]; exact .refl _
  | advance h => rw [GraphicsState.advanceText_clip h]; exact .refl _
  | dict h =>
    rw [StateDict.spreadOverprint_clip, StateDict.applyEntries_clip h]
    exact .refl _
  | font => exact .refl _
  | space side _ => rw [GraphicsState.setSpace_clip]; exact .refl _
  | clip device rule => exact Clip.intersect_within _ device rule

/-! ## Steps -/

/-- All graphics states that the running stream can come back to lie within a clip: the one at hand
and those that it saved itself. -/
structure Confined (clip : Clip) (p : Processor) : Prop where
  gstate : p.gstate.clip.Within clip
  saved : ∀ g ∈ p.gstack.take (p.gstack.length - p.gstackFloor), g.clip.Within clip

theorem Confined.of_same (hp : Confined clip p) (hgstate : q.gstate.clip.Within p.gstate.clip)
    (hgstack : q.gstack = p.gstack) (hfloor : q.gstackFloor = p.gstackFloor) : Confined clip q where
  gstate := hgstate.trans hp.gstate
  saved := by
    rw [hgstack, hfloor]
    exact hp.saved

@[simp] theorem emit_gstate (s : Setting) (p : Processor) (payload : EventPayload) :
    (p.emit s payload).gstate = p.gstate := by
  unfold emit
  split <;> rfl

theorem Step.gstate (h : Step s p q) : q.gstate = p.gstate ∨ StateStep s p q.gstate := by
  cases h with
  | look => unfold poll; split <;> exact .inl rfl
  | mark => exact .inl (emit_gstate ..)
  | state h => exact .inr h
  | load h => exact .inl (loadFont_sameButFonts h).gstate
  | openSection => exact .inl (emit_gstate ..)
  | closeSection =>
    simp only [closeLatest]
    split
    · exact .inl rfl
    · exact .inl (emit_gstate ..)
  | _ => exact .inl rfl

theorem Step.confined (h : Step s p q) (hp : Confined clip p) : Confined clip q := by
  obtain ⟨hground, hgstack⟩ := h.ground
  refine hp.of_same ?_ hgstack (gstackFloor_eq hground)
  rcases h.gstate with hsame | hstep
  · rw [hsame]
    exact .refl _
  · exact hstep.within

/-- What a step tells comes with the graphics state before it, and is not the beginning of
a form. -/
theorem Step.events (h : Step s p q) :
    ∃ told, q.events = p.events ++ told ∧
      ∀ e ∈ told, e.state = p.gstate ∧ ∀ info, e.payload ≠ .formBegin info := by
  cases h with
  | look =>
    refine ⟨[], ?_, by simp⟩
    unfold poll
    split <;> exact (List.append_nil _).symm
  | report operator e => exact ⟨[], by simp, by simp⟩
  | breakdown => exact ⟨[], by simp, by simp⟩
  | mark payload hmark =>
    refine ⟨_, events_emit .., ?_⟩
    split
    · intro e he
      cases List.mem_singleton.1 he
      refine ⟨rfl, ?_⟩
      rintro info rfl
      cases hmark
    · simp
  | load h =>
    refine ⟨[], ?_, by simp⟩
    simp [Processor.events, entries, (loadFont_sameButFonts h).log]
  | openSection label =>
    refine ⟨_, events_emit .., ?_⟩
    split
    · simp
    · simp
  | closeSection =>
    simp only [closeLatest]
    split
    · exact ⟨[], (List.append_nil _).symm, by simp⟩
    · refine ⟨_, events_emit .., ?_⟩
      split
      · simp
      · simp
  | _ => exact ⟨[], (List.append_nil _).symm, by simp⟩

theorem save_confined (hp : Confined clip p) : Confined clip p.save where
  gstate := hp.gstate
  saved := by
    intro g hg
    simp only [save, List.length_cons] at hg
    have hfirst := List.take_subset_take_left (p.gstate :: p.gstack)
      (show p.gstack.length + 1 - p.gstackFloor ≤ (p.gstack.length - p.gstackFloor) + 1 by omega) hg
    rcases List.mem_cons.1 hfirst with rfl | hg
    · exact hp.gstate
    · exact hp.saved g hg

theorem restore_confined {g : GraphicsState} {rest : List GraphicsState} (hp : Confined clip p)
    (hfloor : p.gstackFloor < p.gstack.length) (hg : p.gstack = g :: rest) :
    Confined clip { p with gstate := g, gstack := rest } := by
  have hsaved := hp.saved
  rw [hg, List.length_cons] at hfloor hsaved
  rw [show rest.length + 1 - p.gstackFloor = (rest.length - p.gstackFloor) + 1 by omega,
    List.take_succ_cons] at hsaved
  exact ⟨hsaved g List.mem_cons_self, fun g' hg' => hsaved g' (List.mem_cons_of_mem _ hg')⟩

/-! ## Streams inside streams -/

/-- What is told where a form begins or ends. Of the procedures of glyphs nothing is told. -/
def formEvents (s : Setting) (run : NestedRun) (payload : FormInfo → EventPayload) (p : Processor) :
    List Event :=
  match run.source with
  | .form info _ => if s.listening then [⟨p.depth, p.gstate, payload info⟩] else []
  | .glyph .. => []

theorem depth_beginNested (s : Setting) (p : Processor) (run : NestedRun) (path : Option Path) :
    (p.beginNested s run path).depth = p.depth + 1 :=
  congrArg Ground.depth (enter_ground s p run path)

/-- The graphics state with which a form starts. -/
theorem gstate_beginNested {run : NestedRun} {info : FormInfo} {ref : Option ObjectRef}
    (s : Setting) (p : Processor) (path : Option Path) (hsource : run.source = .form info ref) :
    (p.beginNested s run path).gstate =
      { p.gstate with
        ctm := run.ctm
        clip := path.elim p.gstate.clip fun path => p.gstate.clip.intersect path .nonzero } := by
  show (p.enter s run path).gstate = _
  simp only [enter, enterForm, hsource, emit_gstate]
  cases path <;> rfl

theorem beginNested_within (s : Setting) (p : Processor) (run : NestedRun) (path : Option Path) :
    (p.beginNested s run path).gstate.clip.Within p.gstate.clip := by
  cases hsource : run.source with
  | form info ref =>
    rw [gstate_beginNested s p path hsource]
    cases path with
    | none => exact .refl _
    | some path => exact Clip.intersect_within _ path _
  | glyph font procedure =>
    show (p.enter s run path).gstate.clip.Within _
    simp only [enter, hsource]
    exact .refl _

/-- A stream inside another has saved nothing at its start. -/
theorem beginNested_confined (run : NestedRun) (path : Option Path)
    (h : (p.beginNested s run path).gstate.clip.Within clip) :
    Confined clip (p.beginNested s run path) := by
  refine ⟨h, fun g hg => ?_⟩
  have hfloor : (p.beginNested s run path).gstackFloor =
      (p.beginNested s run path).gstack.length := by
    show (p.enter s run path).gstackFloor = (p.enter s run path).gstack.length
    rw [enter_gstack]
    exact congrArg Ground.gstackFloor (enter_ground s p run path)
  rw [hfloor, Nat.sub_self] at hg
  cases hg

theorem events_beginNested (s : Setting) (p : Processor) (run : NestedRun) (path : Option Path) :
    (p.beginNested s run path).events =
      p.events ++ formEvents s run .formBegin (p.beginNested s run path) := by
  unfold formEvents
  rw [depth_beginNested]
  cases hsource : run.source with
  | form info ref =>
    show (p.enter s run path).events =
      p.events ++ if s.listening then [⟨p.depth + 1, (p.enter s run path).gstate, _⟩] else []
    simp only [enter, enterForm, hsource, emit_gstate, events_emit]
    cases path <;> rfl
  | glyph font procedure =>
    show (p.enter s run path).events = p.events ++ []
    simp only [enter, hsource, List.append_nil]
    rfl

theorem events_noteTruncation (p : Processor) : p.noteTruncation.events = p.events := by
  unfold noteTruncation
  split
  · exact events_report ..
  · rfl

theorem gstate_noteTruncation (p : Processor) : p.noteTruncation.gstate = p.gstate := by
  unfold noteTruncation
  split <;> rfl

theorem depth_noteTruncation (p : Processor) : p.noteTruncation.depth = p.depth := by
  unfold noteTruncation
  split <;> rfl

theorem events_endNested (s : Setting) (p : Processor) (run : NestedRun) (inner : Processor) :
    (p.endNested s run inner).events = inner.events ++ formEvents s run .formEnd inner := by
  let last : Processor := ({ inner with sectionFloor := p.sectionFloor } : Processor).noteTruncation
  have hevents : last.events = inner.events := events_noteTruncation _
  have hgstate : last.gstate = inner.gstate := gstate_noteTruncation _
  have hdepth : last.depth = inner.depth := depth_noteTruncation _
  show (last.endSource s run.source).events = _
  unfold formEvents endSource
  cases run.source with
  | form info ref =>
    show (last.emit s (.formEnd info)).events = _
    rw [events_emit, hevents, hgstate, hdepth]
  | glyph font procedure =>
    show last.events = _
    rw [hevents, List.append_nil]

/-- All that is told of a stream inside another, from its start to its end. -/
theorem events_nested {inner : Processor} {run : NestedRun} {path : Option Path} {told : List Event}
    (htold : inner.events = (p.beginNested s run path).events ++ told) :
    (p.endNested s run inner).events =
      p.events ++ (formEvents s run .formBegin (p.beginNested s run path) ++
        (told ++ formEvents s run .formEnd inner)) := by
  rw [events_endNested, htold, events_beginNested]
  simp only [List.append_assoc]

theorem formEvents_within {run : NestedRun} {payload : FormInfo → EventPayload}
    (hp : p.gstate.clip.Within clip) :
    ∀ e ∈ formEvents s run payload p, e.state.clip.Within clip := by
  intro e he
  unfold formEvents at he
  split at he
  · split at he
    · cases List.mem_singleton.1 he
      exact hp
    · cases he
  · cases he

/-- **Every course of steps** keeps within the clip, and so does all that is told on the way. -/
theorem Steps.confined (h : Steps s n b p q) (hp : Confined clip p) :
    Confined clip q ∧
      ∃ told, q.events = p.events ++ told ∧ ∀ e ∈ told, e.state.clip.Within clip := by
  induction h with
  | refl p => exact ⟨hp, [], (List.append_nil _).symm, by simp⟩
  | step h =>
    obtain ⟨told, htold, hstate⟩ := h.events
    refine ⟨h.confined hp, told, htold, fun e he => ?_⟩
    rw [(hstate e he).1]
    exact hp.gstate
  | save p => exact ⟨save_confined hp, [], (List.append_nil _).symm, by simp⟩
  | restore hfloor hg =>
    exact ⟨restore_confined hp hfloor hg, [], (List.append_nil _).symm, by simp⟩
  | @nested n b p inner run path _ _ _ hsteps hopen ih =>
    have hbegin := (beginNested_within s p run path).trans hp.gstate
    obtain ⟨hinner, told, htold, hwithin⟩ := ih (beginNested_confined run path hbegin)
    have hsame := nested_undisturbed hsteps.stays hopen
    have hgstate : (p.endNested s run inner).gstate.clip.Within p.gstate.clip := by
      rw [hsame.gstate]
      exact .refl _
    refine ⟨hp.of_same hgstate hsame.gstack hsame.gstackFloor, _, events_nested htold,
      fun e he => ?_⟩
    rcases List.mem_append.1 he with he | he
    · exact formEvents_within hbegin e he
    · rcases List.mem_append.1 he with he | he
      · exact hwithin e he
      · exact formEvents_within hinner.gstate e he
  | trans _ _ ih₁ ih₂ =>
    obtain ⟨hq, told₁, htold₁, hwithin₁⟩ := ih₁ hp
    obtain ⟨hr, told₂, htold₂, hwithin₂⟩ := ih₂ hq
    refine ⟨hr, told₁ ++ told₂, by rw [htold₂, htold₁, List.append_assoc], fun e he => ?_⟩
    exact (List.mem_append.1 he).elim (hwithin₁ e) (hwithin₂ e)

/-! ## Forms -/

/-- What follows the beginning of a form: the form ends, with all brackets in between closed, and up
to its end no clip leaves the one at the beginning. -/
def ConfinesForm (info : FormInfo) (e : Event) (rest : List Event) : Prop :=
  ∃ inside last after, rest = inside ++ last :: after ∧
    WellBracketed (inside.filterMap Event.bracket?) ∧ last.payload = .formEnd info ∧
    last.depth = e.depth ∧ ∀ x ∈ inside ++ [last], x.state.clip.Within e.state.clip

theorem ConfinesForm.append {info : FormInfo} {e : Event} {rest : List Event}
    (h : ConfinesForm info e rest) (more : List Event) : ConfinesForm info e (rest ++ more) := by
  obtain ⟨inside, last, after, rfl, h⟩ := h
  exact ⟨inside, last, after ++ more, by simp, h⟩

/-- What holds of each place in a list and what follows there, holds in two lists one after the
other. -/
theorem forall_split_append {α : Type} {P : α → List α → Prop} {xs ys : List α}
    (hx : ∀ pre a rest, xs = pre ++ a :: rest → P a (rest ++ ys))
    (hy : ∀ pre a rest, ys = pre ++ a :: rest → P a rest) :
    ∀ pre a rest, xs ++ ys = pre ++ a :: rest → P a rest := by
  intro pre a rest h
  rcases List.append_eq_append_iff.1 h with ⟨zs, rfl, hys⟩ | ⟨zs, hxs, hzs⟩
  · exact hy zs a rest hys
  · cases zs with
    | nil => exact hy [] a rest hzs.symm
    | cons z zs =>
      obtain ⟨rfl, rfl⟩ := List.cons.inj hzs
      exact hx pre a zs hxs

/-- What the beginning of a form means for the events behind it. -/
def FormLaw (e : Event) (rest : List Event) : Prop :=
  ∀ info, e.payload = .formBegin info → ConfinesForm info e rest

theorem FormLaw.append {rest : List Event} {e : Event} (h : FormLaw e rest) (more : List Event) :
    FormLaw e (rest ++ more) :=
  fun info he => (h info he).append more

/-- The law holds at the beginning of a form that is told of. -/
theorem formLaw_nested {inner : Processor} {run : NestedRun} {path : Option Path}
    {told : List Event} (hsteps : Steps s n true (p.beginNested s run path) inner)
    (hopen : inner.openSections = 0)
    (htold : inner.events = (p.beginNested s run path).events ++ told) :
    ∀ pre e rest, formEvents s run .formBegin (p.beginNested s run path) = pre ++ e :: rest →
      FormLaw e (rest ++ (told ++ formEvents s run .formEnd inner)) := by
  intro pre e rest heq info he
  unfold formEvents at heq ⊢
  cases hsource : run.source with
  | glyph font procedure =>
    rw [hsource] at heq
    simp at heq
  | form info' ref =>
    rw [hsource] at heq
    by_cases hlisten : s.listening = true
    · simp only [hlisten, if_true] at heq ⊢
      obtain ⟨rfl, rfl⟩ : e = _ ∧ rest = [] := by
        cases pre with
        | nil => exact ⟨(List.cons.inj heq).1.symm, (List.cons.inj heq).2.symm⟩
        | cons x pre => simp at heq
      cases he
      refine ⟨told, _, [], rfl, ?_, rfl, depth_eq hsteps.stays.ground, ?_⟩
      · -- The inner stream starts and ends with no section open.
        obtain ⟨w, hbrackets, hw⟩ := hsteps.reads (by simp [beginNested])
        have hnone : (p.beginNested s run path).openSections = 0 := by
          simp [beginNested, openSections]
        rw [openBrackets_of_none s hnone, openBrackets_of_none s hopen] at hw
        rw [brackets, htold, List.filterMap_append] at hbrackets
        rw [List.append_cancel_left hbrackets]
        exact wellBracketed_of_reads hw
      · obtain ⟨hinner, told', htold', hwithin⟩ :=
          hsteps.confined (beginNested_confined run path (.refl _))
        cases List.append_cancel_left (htold.symm.trans htold')
        intro x hx
        rcases List.mem_append.1 hx with hx | hx
        · exact hwithin x hx
        · cases List.mem_singleton.1 hx
          exact hinner.gstate
    · simp [hlisten] at heq

theorem formLaw_of_ne {rest : List Event} {e : Event} (h : ∀ info, e.payload ≠ .formBegin info) :
    FormLaw e rest :=
  fun info he => absurd he (h info)

/-- **Every course of steps** keeps the law of forms at every place of what it tells. -/
theorem Steps.formLaw (h : Steps s n b p q) :
    ∃ told, q.events = p.events ++ told ∧
      ∀ pre e rest, told = pre ++ e :: rest → FormLaw e rest := by
  induction h with
  | refl p => exact ⟨[], (List.append_nil _).symm, by simp⟩
  | step h =>
    obtain ⟨told, htold, hstate⟩ := h.events
    refine ⟨told, htold, fun pre e rest heq => formLaw_of_ne (hstate e ?_).2⟩
    rw [heq]
    exact List.mem_append_right _ List.mem_cons_self
  | save p => exact ⟨[], (List.append_nil _).symm, by simp⟩
  | restore => exact ⟨[], (List.append_nil _).symm, by simp⟩
  | @nested n b p inner run path _ _ _ hsteps hopen ih =>
    obtain ⟨told, htold, hlaw⟩ := ih
    refine ⟨_, events_nested htold, ?_⟩
    refine forall_split_append (formLaw_nested hsteps hopen htold) ?_
    refine forall_split_append (fun pre e rest heq => (hlaw pre e rest heq).append _) ?_
    -- The end of a form is not the beginning of one.
    intro pre e rest heq
    refine formLaw_of_ne ?_
    have he : e ∈ formEvents s run .formEnd inner := by
      rw [heq]
      exact List.mem_append_right _ List.mem_cons_self
    unfold formEvents at he
    split at he
    · split at he
      · cases List.mem_singleton.1 he
        intro info hinfo
        cases hinfo
      · cases he
    · cases he
  | trans _ _ ih₁ ih₂ =>
    obtain ⟨told₁, htold₁, hlaw₁⟩ := ih₁
    obtain ⟨told₂, htold₂, hlaw₂⟩ := ih₂
    refine ⟨told₁ ++ told₂, by rw [htold₂, htold₁, List.append_assoc], ?_⟩
    exact forall_split_append (fun pre e rest heq => (hlaw₁ pre e rest heq).append _) hlaw₂

/-! ## Pages -/

/-- The start of a page. -/
def beginPage (s : Setting) (cancelIn : Option Nat) (resources : Dict) : Processor :=
  { start s cancelIn with stage := .running, resources := ⟨[resources]⟩ }

/-- The law of forms over a whole page. -/
theorem execute_formLaw (s : Setting) (cancelIn : Option Nat) (items : List ItemAt)
    (resources : Dict) {before rest : List Event} {e : Event}
    (h : ((beginPage s cancelIn resources).execute s (runner s s.config.maxDepth) items).events =
      before ++ e :: rest) : FormLaw e rest := by
  obtain ⟨inner, hsteps, -, heq⟩ := execute_steps (runner_steps s s.config.maxDepth)
    (beginPage s cancelIn resources) items
  obtain ⟨told, htold, hlaw⟩ := hsteps.formLaw
  -- Nothing was told before the page.
  have hall : told = before ++ e :: rest := by
    rw [← h, heq]
    exact htold.symm
  exact hlaw before e rest hall

end Processor

end ContentStream
