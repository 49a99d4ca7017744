import ContentStream.Proofs.Steps

/-!
# Streams inside streams leave no trace

**Theorem (`runner_isolated`).** Run any stream inside another. If it cannot be run, the processor is
as it was. If it can, then whatever the stream contains and however it ends, everything that belongs
to the stream around is as it was: its graphics state and saved states, its path, its resources, its
sections, its place.

The proof is an induction over the steps of the inner stream, with an invariant in two parts:

* *the ground*: floors, resources, depth, scopes and running streams change only where a stream starts
  or ends, and
* *what lies below*: the saved states and the sections below the floors stay where they are.

A stream starts with its floors at the height of the stacks, so that all of the stacks of the stream
around lies below.
-/

namespace ContentStream.Processor

variable {s : Setting} {n : Nat} {b : Bool} {p q r : Processor}

/-! ## Stacks and heights -/

section Stacks

variable {α : Type} {base stack stack' : List α} {height : Nat}

theorem cutTo_suffix (height : Nat) (stack : List α) : cutTo height stack <:+ stack :=
  List.drop_suffix _ _

theorem length_cutTo (height : Nat) (stack : List α) :
    (cutTo height stack).length = min stack.length height := by
  rw [cutTo, List.length_drop]
  omega

theorem cutTo_length (stack : List α) : cutTo stack.length stack = stack := by
  rw [cutTo, Nat.sub_self, List.drop_zero]

theorem suffix_cutTo (h : base <:+ stack) (hle : base.length ≤ height) :
    base <:+ cutTo height stack := by
  refine List.suffix_of_suffix_length_le h (cutTo_suffix height stack) ?_
  have := h.length_le
  rw [length_cutTo]
  omega

/-- What lies below a height in one stack, lies there in every stack that keeps it. -/
theorem cutTo_suffix_trans (h : cutTo height stack <:+ stack') {stack'' : List α}
    (h' : cutTo height stack' <:+ stack'') : cutTo height stack <:+ stack'' := by
  refine (suffix_cutTo h ?_).trans h'
  rw [length_cutTo]
  omega

theorem cutTo_of_suffix (h : base <:+ stack) : cutTo base.length stack = base :=
  (List.suffix_iff_eq_drop.1 h).symm

theorem cutTo_cons_suffix (a : α) (h : height < (a :: stack).length) :
    cutTo height (a :: stack) <:+ stack := by
  have hdrop : (a :: stack).length - height = (stack.length - height) + 1 := by
    simp only [List.length_cons] at h ⊢
    omega
  rw [cutTo, hdrop, List.drop_succ_cons]
  exact List.drop_suffix _ _

end Stacks

/-! ## The ground -/

/-- What changes only where a stream starts or ends. -/
structure Ground where
  gstackFloor : Nat
  sectionFloor : Nat
  resources : ResourceChain
  depth : Nat
  scopes : List Scope
  activeForms : List ObjectRef
  activeGlyphs : List (Nat × Nat)

def ground (p : Processor) : Ground :=
  ⟨p.gstackFloor, p.sectionFloor, p.resources, p.depth, p.scopes, p.activeForms, p.activeGlyphs⟩

@[simp] theorem emit_ground (s : Setting) (p : Processor) (payload : EventPayload) :
    (p.emit s payload).ground = p.ground := by
  unfold emit
  split <;> rfl

theorem SameButFonts.ground (h : SameButFonts p q) : q.ground = p.ground := by
  unfold SameButFonts at h
  rw [h]
  rfl

theorem SameButFonts.gstack (h : SameButFonts p q) : q.gstack = p.gstack := by
  unfold SameButFonts at h
  rw [h]

theorem SameButFonts.sections (h : SameButFonts p q) : q.sections = p.sections := by
  unfold SameButFonts at h
  rw [h]

theorem SameButFonts.log (h : SameButFonts p q) : q.log = p.log := by
  unfold SameButFonts at h
  rw [h]

/-- A step leaves the ground and the saved states alone. -/
theorem Step.ground (h : Step s p q) : q.ground = p.ground ∧ q.gstack = p.gstack := by
  cases h with
  | look => unfold poll; split <;> exact ⟨rfl, rfl⟩
  | load h => exact ⟨(loadFont_sameButFonts h).ground, (loadFont_sameButFonts h).gstack⟩
  | mark => exact ⟨emit_ground .., emit_gstack ..⟩
  | openSection => exact ⟨emit_ground .., emit_gstack ..⟩
  | closeSection =>
    simp only [closeLatest]
    split
    · exact ⟨rfl, rfl⟩
    · exact ⟨emit_ground .., emit_gstack ..⟩
  | _ => exact ⟨rfl, rfl⟩

/-- What a step does to the sections: nothing, or it opens one, or it closes one above the floor. -/
theorem Step.sections (h : Step s p q) :
    q.sections = p.sections ∨ (∃ label, q.sections = label :: p.sections) ∨
      p.openSections ≠ 0 ∧ ∃ label, p.sections = label :: q.sections := by
  cases h with
  | look => unfold poll; split <;> exact .inl rfl
  | load h => exact .inl (loadFont_sameButFonts h).sections
  | mark => exact .inl (emit_sections ..)
  | openSection label => exact .inr (.inl ⟨_, emit_sections ..⟩)
  | closeSection h =>
    refine .inr (.inr ⟨h, ?_⟩)
    cases hsec : p.sections with
    | nil => simp [openSections, hsec] at h
    | cons label rest => exact ⟨label, by simp [closeLatest, hsec]⟩
  | _ => exact .inl rfl

/-! ## Staying in a stream -/

/-- From `p` to `q` the same stream has been running, and what lies below its floors is still there. -/
structure Stays (p q : Processor) : Prop where
  ground : q.ground = p.ground
  gstack : cutTo p.gstackFloor p.gstack <:+ q.gstack
  sections : cutTo p.sectionFloor p.sections <:+ q.sections

theorem gstackFloor_eq (h : q.ground = p.ground) : q.gstackFloor = p.gstackFloor :=
  congrArg Ground.gstackFloor h

theorem sectionFloor_eq (h : q.ground = p.ground) : q.sectionFloor = p.sectionFloor :=
  congrArg Ground.sectionFloor h

theorem Stays.of_eq (hground : q.ground = p.ground) (hgstack : q.gstack = p.gstack)
    (hsections : q.sections = p.sections) : Stays p q :=
  ⟨hground, hgstack ▸ cutTo_suffix _ _, hsections ▸ cutTo_suffix _ _⟩

theorem Stays.trans (h₁ : Stays p q) (h₂ : Stays q r) : Stays p r where
  ground := h₂.ground.trans h₁.ground
  gstack := cutTo_suffix_trans h₁.gstack (gstackFloor_eq h₁.ground ▸ h₂.gstack)
  sections := cutTo_suffix_trans h₁.sections (sectionFloor_eq h₁.ground ▸ h₂.sections)

theorem Stays.floor_le (h : Stays p q) (hfloor : p.sectionFloor ≤ p.sections.length) :
    q.sectionFloor ≤ q.sections.length := by
  have hle := h.sections.length_le
  rw [length_cutTo] at hle
  rw [sectionFloor_eq h.ground]
  omega

theorem Step.stays (h : Step s p q) : Stays p q := by
  obtain ⟨hground, hgstack⟩ := h.ground
  rcases h.sections with hsec | ⟨label, hsec⟩ | ⟨hopen, label, hsec⟩
  · exact .of_eq hground hgstack hsec
  · refine ⟨hground, hgstack ▸ cutTo_suffix _ _, ?_⟩
    rw [hsec]
    exact (cutTo_suffix _ _).trans (List.suffix_cons label _)
  · refine ⟨hground, hgstack ▸ cutTo_suffix _ _, ?_⟩
    rw [openSections, hsec] at hopen
    rw [hsec]
    exact cutTo_cons_suffix label (by omega)

/-! ## Starting and leaving a stream -/

/-- Everything that belongs to the running stream is in `q` as it was in `p`. -/
structure Undisturbed (p q : Processor) : Prop where
  gstate : q.gstate = p.gstate
  gstack : q.gstack = p.gstack
  gstackFloor : q.gstackFloor = p.gstackFloor
  path : q.path = p.path
  pendingClip : q.pendingClip = p.pendingClip
  resources : q.resources = p.resources
  sections : q.sections = p.sections
  sectionFloor : q.sectionFloor = p.sectionFloor
  compatDepth : q.compatDepth = p.compatDepth
  depth : q.depth = p.depth
  scopes : q.scopes = p.scopes
  activeForms : q.activeForms = p.activeForms
  activeGlyphs : q.activeGlyphs = p.activeGlyphs
  pos : q.pos = p.pos

theorem Undisturbed.ground (h : Undisturbed p q) : q.ground = p.ground := by
  simp only [Processor.ground, h.gstackFloor, h.sectionFloor, h.resources, h.depth, h.scopes,
    h.activeForms, h.activeGlyphs]

theorem Undisturbed.stays (h : Undisturbed p q) : Stays p q :=
  .of_eq h.ground h.gstack h.sections

/-- The ground of a stream that starts inside another. -/
def innerGround (p : Processor) (run : NestedRun) : Ground where
  gstackFloor := p.gstack.length + 1
  sectionFloor := p.sectionFloor
  resources := p.resources.push run.resources
  depth := p.depth + 1
  scopes :=
    match run.source with
    | .form .. => .form :: p.scopes
    | .glyph .. => .glyph :: p.scopes
  activeForms :=
    match run.source with
    | .form _ ref => ref.toList ++ p.activeForms
    | .glyph .. => p.activeForms
  activeGlyphs :=
    match run.source with
    | .form .. => p.activeGlyphs
    | .glyph font procedure => (font, procedure) :: p.activeGlyphs

theorem enterForm_same (s : Setting) (p : Processor) (info : FormInfo) (ref : Option ObjectRef)
    (clip : Option Path) :
    (p.enterForm s info ref clip).ground =
        { p.ground with scopes := .form :: p.scopes, activeForms := ref.toList ++ p.activeForms } ∧
      (p.enterForm s info ref clip).gstack = p.gstack := by
  unfold enterForm
  dsimp only
  rw [emit_ground, emit_gstack]
  cases clip <;> exact ⟨rfl, rfl⟩

theorem enter_ground (s : Setting) (p : Processor) (run : NestedRun) (clip : Option Path) :
    (p.enter s run clip).ground = p.innerGround run := by
  unfold enter innerGround
  cases hsource : run.source with
  | form info ref => exact (enterForm_same ..).1
  | glyph font procedure => rfl

theorem enter_gstack (s : Setting) (p : Processor) (run : NestedRun) (clip : Option Path) :
    (p.enter s run clip).gstack = p.gstate :: p.gstack := by
  unfold enter
  cases run.source with
  | form info ref => exact (enterForm_same ..).2
  | glyph font procedure => rfl

theorem noteTruncation_same (p : Processor) :
    p.noteTruncation.ground = p.ground ∧ p.noteTruncation.gstack = p.gstack ∧
      p.noteTruncation.sections = p.sections := by
  unfold noteTruncation
  split <;> exact ⟨rfl, rfl, rfl⟩

theorem endSource_same (s : Setting) (p : Processor) (source : NestedSource) :
    (p.endSource s source).gstack = p.gstack ∧ (p.endSource s source).sections = p.sections ∧
      (p.endSource s source).ground =
        { p.ground with
          activeForms := (p.endSource s source).activeForms
          activeGlyphs := (p.endSource s source).activeGlyphs } := by
  cases source with
  | form info ref =>
    refine ⟨emit_gstack .., emit_sections .., ?_⟩
    rw [← emit_ground s p (.formEnd info)]
    rfl
  | glyph font procedure => exact ⟨rfl, rfl, rfl⟩

/-- The end of a stream takes away what its start has put among the running ones. -/
theorem endSource_active {inner : Processor} {run : NestedRun} (s : Setting)
    (hground : inner.ground = p.innerGround run) :
    (inner.endSource s run.source).activeForms = p.activeForms ∧
      (inner.endSource s run.source).activeGlyphs = p.activeGlyphs := by
  have hforms : inner.activeForms = (p.innerGround run).activeForms :=
    congrArg Ground.activeForms hground
  have hglyphs : inner.activeGlyphs = (p.innerGround run).activeGlyphs :=
    congrArg Ground.activeGlyphs hground
  unfold innerGround at hforms hglyphs
  cases hsource : run.source with
  | form info ref =>
    rw [hsource] at hforms hglyphs
    have hemit := emit_ground s inner (.formEnd info)
    refine ⟨?_, (congrArg Ground.activeGlyphs hemit).trans hglyphs⟩
    show ((inner.emit s (.formEnd info)).activeForms.drop ref.toList.length) = p.activeForms
    rw [show (inner.emit s (.formEnd info)).activeForms = ref.toList ++ p.activeForms from
      (congrArg Ground.activeForms hemit).trans hforms, List.drop_left]
  | glyph font procedure =>
    rw [hsource] at hforms hglyphs
    exact ⟨hforms, congrArg List.tail hglyphs⟩

/-- A stream that stayed within its bounds can be left without a trace. -/
theorem leave_undisturbed {inner : Processor} {run : NestedRun} (s : Setting)
    (hground : inner.ground = p.innerGround run) (hgstack : p.gstate :: p.gstack <:+ inner.gstack)
    (hsections : inner.sections = p.sections) : Undisturbed p (inner.leave s p run.source) := by
  obtain ⟨hsaved, hsec, hend⟩ := endSource_same s inner run.source
  obtain ⟨hforms, hglyphs⟩ := endSource_active s hground
  rw [hground] at hend
  exact {
    gstate := rfl
    gstack := by
      show cutTo p.gstack.length (inner.endSource s run.source).gstack = p.gstack
      rw [hsaved]
      exact cutTo_of_suffix ((List.suffix_cons _ _).trans hgstack)
    gstackFloor := rfl
    path := rfl
    pendingClip := rfl
    resources := congrArg (ResourceChain.pop ∘ Ground.resources) hend
    sections := hsec.trans hsections
    sectionFloor := congrArg Ground.sectionFloor hend
    compatDepth := rfl
    depth := congrArg (· - 1) (congrArg Ground.depth hend)
    scopes := by
      refine (congrArg (List.tail ∘ Ground.scopes) hend).trans ?_
      unfold innerGround
      cases run.source <;> rfl
    activeForms := hforms
    activeGlyphs := hglyphs
    pos := rfl }

/-- A stream inside another disturbs nothing if it stays, over its own floors, with what it was
given. -/
theorem nested_undisturbed {inner : Processor} {run : NestedRun} {clip : Option Path}
    (hstays : Stays (p.beginNested s run clip) inner) (hopen : inner.openSections = 0) :
    Undisturbed p (p.endNested s run inner) := by
  obtain ⟨hground, hgstack, hsections⟩ := noteTruncation_same
    { inner with sectionFloor := p.sectionFloor }
  refine leave_undisturbed s ?_ ?_ ?_
  · -- Apart from the floor of the sections, which is put back, the ground has stayed.
    have hinner : inner.ground = { p.innerGround run with sectionFloor := p.sections.length } := by
      rw [hstays.ground, ← enter_ground s p run clip]
      rfl
    rw [hground]
    exact congrArg (fun g : Ground => { g with sectionFloor := p.sectionFloor }) hinner
  · -- All saved states of the stream around lie below the floor, with the save point on top.
    have hfloor : (p.enter s run clip).gstackFloor = (p.enter s run clip).gstack.length := by
      rw [enter_gstack]
      exact congrArg Ground.gstackFloor (enter_ground s p run clip)
    have hkept := hstays.gstack
    simp only [beginNested, hfloor, cutTo_length, enter_gstack] at hkept
    rw [hgstack]
    exact hkept
  · -- So do its sections, and the inner stream has closed its own.
    have hkept := hstays.sections
    simp only [beginNested, enter_sections, cutTo_length] at hkept
    have hfloor : inner.sectionFloor = p.sections.length := sectionFloor_eq hstays.ground
    have hle : inner.sections.length ≤ p.sections.length := by
      unfold openSections at hopen
      omega
    rw [hsections]
    exact (hkept.eq_of_length_le hle).symm

theorem Steps.stays (h : Steps s n b p q) : Stays p q := by
  induction h with
  | refl p => exact .of_eq rfl rfl rfl
  | step h => exact h.stays
  | save p => exact ⟨rfl, (cutTo_suffix _ _).trans (List.suffix_cons _ _), cutTo_suffix _ _⟩
  | restore hfloor hg =>
    refine ⟨rfl, ?_, cutTo_suffix _ _⟩
    rw [hg] at hfloor ⊢
    exact cutTo_cons_suffix _ hfloor
  | nested _ _ _ _ hopen ih => exact (nested_undisturbed ih hopen).stays
  | trans _ _ ih₁ ih₂ => exact ih₁.trans ih₂

/-! ## Isolation -/

theorem runner_cases (s : Setting) (n : Nat) (run : NestedRun) (p : Processor) :
    (∃ e, runner s n run p = .failed p e) ∨ ∃ q, runner s n run p = .done q ∧ Undisturbed p q := by
  cases n with
  | zero => exact .inl ⟨_, rfl⟩
  | succ n =>
    rcases runNested_cases (runner_steps s n) run p with h | ⟨clip, inner, -, -, hsteps, hopen, h⟩
    · exact .inl h
    · exact .inr ⟨_, h, nested_undisturbed hsteps.stays hopen⟩

/-- **Isolation.** Running a stream inside another changes nothing if it fails. If it does not, all
that belongs to the stream around is as it was, whatever the inner stream did. -/
theorem runner_isolated (s : Setting) (n : Nat) (run : NestedRun) (p : Processor) :
    match runner s n run p with
    | .failed q _ => q = p
    | .done q => Undisturbed p q := by
  rcases runner_cases s n run p with ⟨e, h⟩ | ⟨q, h, hq⟩
  · rw [h]
  · rw [h]
    exact hq

end ContentStream.Processor
