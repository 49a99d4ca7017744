import ContentStream.Proofs.Confinement

/-!
# Streams nest without repetition

Forms and the procedures of glyphs run inside each other, over stacks that they share.

**Theorem (`Moment.consistent`).** At every moment of every run the stacks fit together: the floors
lie within the stacks, there is one scope and one resource dictionary for each running stream, no more
streams run inside each other than the limit allows, and no form that was reached by a reference, no
font and no glyph procedure runs inside itself. What listeners are told comes from within the limit,
too.

A `Moment` knows the streams that are running, innermost first, and how many more may be started
inside. The invariant (`Consistent`) reads the bookkeeping of the processor off that list. Within a
stream nothing of it changes (`Steps.stays`), so the only case with an argument in it is the start of a
stream, which is where the processor looks whether the stream is running already.
-/

namespace ContentStream

/-- The depth of the stream that an entry tells of. A breakdown concerns them all. -/
def LogEntry.depth : LogEntry → Nat
  | .event e => e.depth
  | .diagnostic d => d.depth
  | .breakdown => 0

namespace NestedSource

/-- The reference by which a form was reached, if there was one. -/
def formRef? : NestedSource → Option ObjectRef
  | .form _ ref => ref
  | .glyph .. => none

/-- The font and the procedure of a glyph. -/
def glyph? : NestedSource → Option (Nat × Nat)
  | .form .. => none
  | .glyph font procedure => some (font, procedure)

end NestedSource

namespace Processor

variable {s : Setting} {n : Nat} {b : Bool} {p q r : Processor}

/-! ## Moments -/

/-- The moments of a run that starts with `p`: those on the way of the page, and those on the way of
the streams that run inside it. `running` are the streams around, innermost first, and `budget` is the
number of those that may still be started inside. -/
inductive Moment (s : Setting) (p : Processor) :
    (budget : Nat) → (running : List NestedSource) → Processor → Prop
  | start : Moment s p s.config.maxDepth [] p
  | course {n : Nat} {b : Bool} {running : List NestedSource} {q r : Processor} :
      Moment s p n running q → Steps s n b q r → Moment s p n running r
  | inside {n : Nat} {running : List NestedSource} {q : Processor} {run : NestedRun}
      {path : Option Path} :
      Moment s p (n + 1) running q → q.Asks s run → q.isActive run.source = false →
      run.clipPath = .ok path → Moment s p n (run.source :: running) (q.beginNested s run path)

/-- Whatever a stream executes from one moment on, it gets from moment to moment. -/
theorem Moment.executeItems {running : List NestedSource} (h : Moment s p n running q)
    (items : List ItemAt) (operands : List Object) :
    Moment s p n running (executeItems s (runner s n) items operands q) :=
  h.course (executeItems_steps (runner_steps s n) items operands q)

/-! ## The depth of what is told -/

/-- From `p` to `q` listeners are told of nothing that lies deeper than `depth`. -/
def ToldWithin (depth : Nat) (p q : Processor) : Prop :=
  ∃ told, q.log = told ++ p.log ∧ ∀ entry ∈ told, entry.depth ≤ depth

namespace ToldWithin

variable {d d' : Nat}

theorem of_log_eq (h : q.log = p.log) : ToldWithin d p q := ⟨[], h, by simp⟩

theorem of_log_cons {entry : LogEntry} (h : q.log = entry :: p.log) (hd : entry.depth ≤ d) :
    ToldWithin d p q :=
  ⟨[entry], h, by simpa using hd⟩

theorem trans (h₁ : ToldWithin d p q) (h₂ : ToldWithin d q r) : ToldWithin d p r := by
  obtain ⟨told₁, hlog₁, hd₁⟩ := h₁
  obtain ⟨told₂, hlog₂, hd₂⟩ := h₂
  refine ⟨told₂ ++ told₁, by rw [hlog₂, hlog₁, List.append_assoc], fun entry hmem => ?_⟩
  exact (List.mem_append.1 hmem).elim (hd₂ entry) (hd₁ entry)

theorem mono (h : ToldWithin d p q) (hd : d ≤ d') : ToldWithin d' p q := by
  obtain ⟨told, hlog, hdepth⟩ := h
  exact ⟨told, hlog, fun entry hmem => Nat.le_trans (hdepth entry hmem) hd⟩

end ToldWithin

theorem emit_toldWithin (s : Setting) (p : Processor) (payload : EventPayload) :
    ToldWithin p.depth p (p.emit s payload) := by
  unfold emit
  split
  · exact .of_log_cons rfl (Nat.le_refl _)
  · exact .of_log_eq rfl

/-- A step tells of nothing but the running stream. -/
theorem Step.toldWithin (h : Step s p q) : ToldWithin p.depth p q := by
  cases h with
  | look =>
    unfold poll
    split <;> exact .of_log_eq rfl
  | report => exact .of_log_cons rfl (Nat.le_refl _)
  | breakdown => exact .of_log_cons rfl (Nat.zero_le _)
  | mark => exact emit_toldWithin ..
  | load h => exact .of_log_eq (loadFont_sameButFonts h).log
  | openSection label => exact emit_toldWithin s { p with sections := label :: p.sections } _
  | closeSection =>
    simp only [closeLatest]
    split
    · exact .of_log_eq rfl
    · exact emit_toldWithin s { p with sections := _ } _
  | _ => exact .of_log_eq rfl

theorem beginNested_toldWithin (s : Setting) (p : Processor) (run : NestedRun)
    (path : Option Path) : ToldWithin (p.depth + 1) p (p.beginNested s run path) := by
  show ToldWithin (p.depth + 1) p (p.enter s run path)
  unfold enter enterForm
  cases run.source with
  | form info ref => cases path <;> exact emit_toldWithin ..
  | glyph font procedure => exact .of_log_eq rfl

theorem noteTruncation_toldWithin (p : Processor) : ToldWithin p.depth p p.noteTruncation := by
  unfold noteTruncation
  split
  · exact .of_log_cons rfl (Nat.le_refl _)
  · exact .of_log_eq rfl

theorem endNested_toldWithin (s : Setting) (p : Processor) (run : NestedRun) (inner : Processor) :
    ToldWithin inner.depth inner (p.endNested s run inner) := by
  let last : Processor := ({ inner with sectionFloor := p.sectionFloor } : Processor).noteTruncation
  have hlast : ToldWithin inner.depth inner last :=
    noteTruncation_toldWithin { inner with sectionFloor := p.sectionFloor }
  have hdepth : last.depth = inner.depth := depth_noteTruncation _
  have hend : ToldWithin inner.depth last (last.endSource s run.source) := by
    cases run.source with
    | form info ref => exact hdepth ▸ emit_toldWithin s last (.formEnd info)
    | glyph font procedure => exact .of_log_eq rfl
  exact hlast.trans hend

/-- **Every course of steps** tells of the running stream and of at most `n` streams inside it. -/
theorem Steps.toldWithin (h : Steps s n b p q) : ToldWithin (p.depth + n) p q := by
  induction h with
  | refl p => exact .of_log_eq rfl
  | step h => exact h.toldWithin.mono (Nat.le_add_right _ _)
  | save p => exact .of_log_eq rfl
  | restore => exact .of_log_eq rfl
  | @nested n b p inner run path _ _ _ hsteps _ ih =>
    have hbegin := depth_beginNested s p run path
    have hinner : inner.depth = p.depth + 1 := (depth_eq hsteps.stays.ground).trans hbegin
    refine ((beginNested_toldWithin s p run path).mono (by omega)).trans ?_
    exact (ih.mono (by omega)).trans ((endNested_toldWithin s p run inner).mono (by omega))
  | trans h₁ _ ih₁ ih₂ => exact ih₁.trans (depth_eq h₁.stays.ground ▸ ih₂)

/-! ## Consistency -/

/-- The bookkeeping of the processor fits together and is about the streams that are running. -/
structure Consistent (s : Setting) (running : List NestedSource) (p : Processor) : Prop where
  gstackFloor_le : p.gstackFloor ≤ p.gstack.length
  sectionFloor_le : p.sectionFloor ≤ p.sections.length
  depth : p.depth = running.length
  scopes : p.scopes.length = p.depth + 1
  resources : p.resources.scopes.length = p.depth + 1
  depth_le : p.depth ≤ s.config.maxDepth
  activeForms : p.activeForms = running.filterMap NestedSource.formRef?
  activeGlyphs : p.activeGlyphs = running.filterMap NestedSource.glyph?
  active_le : p.activeForms.length + p.activeGlyphs.length ≤ p.depth
  forms_nodup : p.activeForms.Nodup
  fonts_nodup : (p.activeGlyphs.map Prod.fst).Nodup
  procedures_nodup : (p.activeGlyphs.map Prod.snd).Nodup
  log : ∀ entry ∈ p.log, entry.depth ≤ s.config.maxDepth

theorem Stays.gstackFloor_le (h : Stays p q) (hfloor : p.gstackFloor ≤ p.gstack.length) :
    q.gstackFloor ≤ q.gstack.length := by
  have hle := h.gstack.length_le
  rw [length_cutTo] at hle
  rw [gstackFloor_eq h.ground]
  omega

/-- Within a stream only the heights of the stacks and the log change. -/
theorem Consistent.stays {running : List NestedSource} (hp : Consistent s running p)
    (h : Stays p q) (hlog : ToldWithin s.config.maxDepth p q) : Consistent s running q := by
  have hdepth : q.depth = p.depth := depth_eq h.ground
  have hscopes : q.scopes = p.scopes := congrArg Ground.scopes h.ground
  have hresources : q.resources = p.resources := congrArg Ground.resources h.ground
  have hforms : q.activeForms = p.activeForms := congrArg Ground.activeForms h.ground
  have hglyphs : q.activeGlyphs = p.activeGlyphs := congrArg Ground.activeGlyphs h.ground
  obtain ⟨told, hlog, hwithin⟩ := hlog
  exact {
    gstackFloor_le := h.gstackFloor_le hp.gstackFloor_le
    sectionFloor_le := h.floor_le hp.sectionFloor_le
    depth := hdepth ▸ hp.depth
    scopes := by rw [hscopes, hdepth]; exact hp.scopes
    resources := by rw [hresources, hdepth]; exact hp.resources
    depth_le := hdepth ▸ hp.depth_le
    activeForms := hforms ▸ hp.activeForms
    activeGlyphs := hglyphs ▸ hp.activeGlyphs
    active_le := by rw [hforms, hglyphs, hdepth]; exact hp.active_le
    forms_nodup := hforms ▸ hp.forms_nodup
    fonts_nodup := hglyphs ▸ hp.fonts_nodup
    procedures_nodup := hglyphs ▸ hp.procedures_nodup
    log := by
      intro entry hmem
      rw [hlog] at hmem
      exact (List.mem_append.1 hmem).elim (hwithin entry) (hp.log entry) }

/-- The ground of a stream at its start, over a floor of its own. -/
theorem beginNested_ground (s : Setting) (p : Processor) (run : NestedRun) (path : Option Path) :
    (p.beginNested s run path).ground =
      { p.innerGround run with sectionFloor := p.sections.length } := by
  rw [← enter_ground s p run path]
  rfl

theorem activeForms_beginNested (s : Setting) (p : Processor) (run : NestedRun)
    (path : Option Path) :
    (p.beginNested s run path).activeForms = run.source.formRef?.toList ++ p.activeForms := by
  refine (congrArg Ground.activeForms (beginNested_ground s p run path)).trans ?_
  unfold innerGround
  cases run.source <;> rfl

theorem activeGlyphs_beginNested (s : Setting) (p : Processor) (run : NestedRun)
    (path : Option Path) :
    (p.beginNested s run path).activeGlyphs = run.source.glyph?.toList ++ p.activeGlyphs := by
  refine (congrArg Ground.activeGlyphs (beginNested_ground s p run path)).trans ?_
  unfold innerGround
  cases run.source <;> rfl

theorem scopes_beginNested (s : Setting) (p : Processor) (run : NestedRun) (path : Option Path) :
    (p.beginNested s run path).scopes.length = p.scopes.length + 1 := by
  refine (congrArg (List.length ∘ Ground.scopes) (beginNested_ground s p run path)).trans ?_
  unfold innerGround
  cases run.source <;> rfl

theorem resources_beginNested (s : Setting) (p : Processor) (run : NestedRun)
    (path : Option Path) :
    (p.beginNested s run path).resources = p.resources.push run.resources :=
  congrArg Ground.resources (beginNested_ground s p run path)

/-- A stream that is not active shares nothing with the active ones: no form by its reference, no
glyph by its font or by its procedure. -/
theorem apart_of_isActive {source : NestedSource} (h : p.isActive source = false) :
    (∀ ref ∈ source.formRef?, ref ∉ p.activeForms) ∧
      (∀ g ∈ source.glyph?, g.1 ∉ p.activeGlyphs.map Prod.fst) ∧
      ∀ g ∈ source.glyph?, g.2 ∉ p.activeGlyphs.map Prod.snd := by
  cases source with
  | form info ref =>
    refine ⟨fun r hr => ?_, by simp [NestedSource.glyph?], by simp [NestedSource.glyph?]⟩
    cases hr
    simpa [isActive] using h
  | glyph font procedure =>
    simp only [isActive, List.any_eq_false, Bool.or_eq_true, beq_iff_eq, not_or] at h
    refine ⟨by simp [NestedSource.formRef?], fun g hg hmem => ?_, fun g hg hmem => ?_⟩
    · cases hg
      obtain ⟨active, hactive, heq⟩ := List.mem_map.1 hmem
      exact (h active hactive).1 heq
    · cases hg
      obtain ⟨active, hactive, heq⟩ := List.mem_map.1 hmem
      exact (h active hactive).2 heq

theorem nodup_toList_append {α : Type} {a : Option α} {l : List α} (ha : ∀ x ∈ a, x ∉ l)
    (hl : l.Nodup) : (a.toList ++ l).Nodup := by
  cases a with
  | none => exact hl
  | some x => exact List.nodup_cons.2 ⟨ha x rfl, hl⟩

theorem nodup_map_toList_append {α β : Type} {f : α → β} {a : Option α} {l : List α}
    (ha : ∀ x ∈ a, f x ∉ l.map f) (hl : (l.map f).Nodup) : ((a.toList ++ l).map f).Nodup := by
  cases a with
  | none => exact hl
  | some x => exact List.nodup_cons.2 ⟨ha x rfl, hl⟩

theorem filterMap_cons_eq {α β : Type} (f : α → Option β) (a : α) (l : List α) :
    (a :: l).filterMap f = (f a).toList ++ l.filterMap f := by
  cases h : f a <;> simp [h]

theorem NestedSource.active_le_one (source : NestedSource) :
    source.formRef?.toList.length + source.glyph?.toList.length ≤ 1 := by
  cases source with
  | form info ref => cases ref <;> simp [NestedSource.formRef?, NestedSource.glyph?]
  | glyph font procedure => simp [NestedSource.formRef?, NestedSource.glyph?]

/-- A stream that starts inside another one joins the running ones. -/
theorem Consistent.beginNested {running : List NestedSource} {run : NestedRun}
    (hp : Consistent s running p) (hactive : p.isActive run.source = false)
    (hdepth : p.depth < s.config.maxDepth) (path : Option Path) :
    Consistent s (run.source :: running) (p.beginNested s run path) := by
  obtain ⟨hforms, hfonts, hprocedures⟩ := apart_of_isActive hactive
  have hdeeper := depth_beginNested s p run path
  obtain ⟨told, hlog, hwithin⟩ := (beginNested_toldWithin s p run path).mono hdepth
  exact {
    gstackFloor_le := by
      show (p.enter s run path).gstackFloor ≤ (p.enter s run path).gstack.length
      rw [enter_gstack]
      exact Nat.le_of_eq (congrArg Ground.gstackFloor (enter_ground s p run path))
    sectionFloor_le := by simp [Processor.beginNested]
    depth := by rw [hdeeper, hp.depth, List.length_cons]
    scopes := by rw [scopes_beginNested, hdeeper, hp.scopes]
    resources := by
      rw [resources_beginNested, hdeeper, ← hp.resources]
      rfl
    depth_le := hdeeper ▸ hdepth
    activeForms := by rw [activeForms_beginNested, hp.activeForms, filterMap_cons_eq]
    activeGlyphs := by rw [activeGlyphs_beginNested, hp.activeGlyphs, filterMap_cons_eq]
    active_le := by
      have hone := NestedSource.active_le_one run.source
      have hle := hp.active_le
      rw [activeForms_beginNested, activeGlyphs_beginNested, hdeeper, List.length_append,
        List.length_append]
      omega
    forms_nodup := by
      rw [activeForms_beginNested]
      exact nodup_toList_append hforms hp.forms_nodup
    fonts_nodup := by
      rw [activeGlyphs_beginNested]
      exact nodup_map_toList_append hfonts hp.fonts_nodup
    procedures_nodup := by
      rw [activeGlyphs_beginNested]
      exact nodup_map_toList_append hprocedures hp.procedures_nodup
    log := by
      intro entry hmem
      rw [hlog] at hmem
      exact (List.mem_append.1 hmem).elim (hwithin entry) (hp.log entry) }

/-! ## Runs -/

theorem consistent_beginPage (s : Setting) (cancelIn : Option Nat) (resources : Dict) :
    Consistent s [] (beginPage s cancelIn resources) where
  gstackFloor_le := Nat.le_refl _
  sectionFloor_le := Nat.le_refl _
  depth := rfl
  scopes := rfl
  resources := rfl
  depth_le := Nat.zero_le _
  activeForms := rfl
  activeGlyphs := rfl
  active_le := Nat.le_refl _
  forms_nodup := .nil
  fonts_nodup := .nil
  procedures_nodup := .nil
  log := by
    intro entry hmem
    cases hmem

/-- **Every moment** of a run is consistent, and what is left of the limit is left for streams inside
the running one. -/
theorem Moment.consistent {cancelIn : Option Nat} {resources : Dict} {running : List NestedSource}
    (h : Moment s (beginPage s cancelIn resources) n running q) :
    Consistent s running q ∧ q.depth + n = s.config.maxDepth := by
  induction h with
  | start => exact ⟨consistent_beginPage .., Nat.zero_add _⟩
  | course _ hsteps ih =>
    obtain ⟨hq, hdepth⟩ := ih
    have htold := hsteps.toldWithin
    rw [hdepth] at htold
    exact ⟨hq.stays hsteps.stays htold, by rw [depth_eq hsteps.stays.ground, hdepth]⟩
  | inside _ _ hactive _ ih =>
    obtain ⟨hq, hdepth⟩ := ih
    refine ⟨hq.beginNested hactive (by omega) _, ?_⟩
    rw [depth_beginNested]
    omega

theorem mem_log_of_mem_events {e : Event} (h : e ∈ p.events) : .event e ∈ p.log := by
  obtain ⟨entry, hmem, hentry⟩ := List.mem_filterMap.1 h
  cases entry with
  | event e' =>
    cases hentry
    exact List.mem_reverse.1 hmem
  | diagnostic d => cases hentry
  | breakdown => cases hentry

theorem mem_log_of_mem_diagnostics {d : Diagnostic} (h : d ∈ p.diagnostics) :
    .diagnostic d ∈ p.log := by
  obtain ⟨entry, hmem, hentry⟩ := List.mem_filterMap.1 h
  cases entry with
  | event e => cases hentry
  | diagnostic d' =>
    cases hentry
    exact List.mem_reverse.1 hmem
  | breakdown => cases hentry

end Processor

end ContentStream
