import ContentStream.Proofs.Isolation

/-!
# Sections and forms nest

Sections of marked content and forms are told of by two events each, one where they begin and one
where they end.

**Theorem (`execute_wellBracketed`).** Over every execution of a stream, whether it goes through or
stops early, these events are brackets that nest: each end answers the latest beginning that is still
open, and carries its label and its depth.

Reading the events with a stack, as one reads brackets, is the relation `Reads`. The invariant of a
running stream is `Steps.reads`: the stack of open brackets is the list of sections that the stream has
open, at the depth of the stream. A form adds its own pair around a stream that starts and ends with
no section open, so that the brackets around it are not touched.
-/

namespace ContentStream

/-! ## Words of brackets -/

inductive Bracket (α : Type) where
  | opening (label : α)
  | closing (label : α)

/-- Words in which each closing bracket answers an opening one with the same label. -/
inductive WellBracketed {α : Type} : List (Bracket α) → Prop
  | nil : WellBracketed []
  | pair (label : α) {inside rest : List (Bracket α)} : WellBracketed inside → WellBracketed rest →
      WellBracketed (.opening label :: inside ++ .closing label :: rest)

theorem WellBracketed.even_length {α : Type} {w : List (Bracket α)} (h : WellBracketed w) :
    w.length % 2 = 0 := by
  induction h with
  | nil => rfl
  | pair label _ _ ihInside ihRest =>
    simp only [List.cons_append, List.length_cons, List.length_append]
    omega

/-- Reading a word with a stack of the labels that are open, latest first. -/
inductive Reads {α : Type} : (before : List α) → List (Bracket α) → (after : List α) → Prop
  | nil (stack : List α) : Reads stack [] stack
  | opening {label : α} {stack stack' : List α} {w : List (Bracket α)} :
      Reads (label :: stack) w stack' → Reads stack (.opening label :: w) stack'
  | closing {label : α} {stack stack' : List α} {w : List (Bracket α)} :
      Reads stack w stack' → Reads (label :: stack) (.closing label :: w) stack'

section Words

variable {α : Type} {label : α} {stack stack' stack'' : List α} {w w' : List (Bracket α)}

theorem Reads.append (h : Reads stack w stack') (h' : Reads stack' w' stack'') :
    Reads stack (w ++ w') stack'' := by
  induction h with
  | nil => exact h'
  | opening _ ih => exact .opening (ih h')
  | closing _ ih => exact .closing (ih h')

/-- What is open below is not read. -/
theorem Reads.frame (h : Reads stack w stack') (below : List α) :
    Reads (stack ++ below) w (stack' ++ below) := by
  induction h with
  | nil => exact .nil _
  | opening _ ih => exact .opening ih
  | closing _ ih => exact .closing ih

/-- A word that ends as it began can have a pair of brackets around it, or none. -/
theorem Reads.wrapped (h : Reads [] w []) (label : Option α) (stack : List α) :
    Reads stack ((label.map .opening).toList ++ w ++ (label.map .closing).toList) stack := by
  cases label with
  | none => simpa using h.frame stack
  | some label => exact .opening ((h.frame (label :: stack)).append (.closing (.nil stack)))

/-- A word that closes all open brackets: well-bracketed words with a closing bracket for each of them
between. -/
def Closes : (stack : List α) → List (Bracket α) → Prop
  | [], w => WellBracketed w
  | label :: stack, w => ∃ inside rest,
      WellBracketed inside ∧ w = inside ++ .closing label :: rest ∧ Closes stack rest

theorem Closes.pair {inside rest : List (Bracket α)} (label : α) (hinside : WellBracketed inside)
    (hrest : Closes stack rest) :
    Closes stack (.opening label :: inside ++ .closing label :: rest) := by
  cases stack with
  | nil => exact .pair label hinside hrest
  | cons outer stack =>
    obtain ⟨inside', rest', hinside', rfl, hrest'⟩ := hrest
    exact ⟨_, rest', .pair label hinside hinside', by simp, hrest'⟩

theorem Reads.closes (h : Reads stack w stack') (hend : stack' = []) : Closes stack w := by
  induction h with
  | nil stack =>
    subst hend
    exact WellBracketed.nil
  | @opening label stack stack' w _ ih =>
    obtain ⟨inside, rest, hinside, rfl, hrest⟩ := ih hend
    exact hrest.pair label hinside
  | closing _ ih => exact ⟨[], _, .nil, rfl, ih hend⟩

theorem wellBracketed_of_reads (h : Reads [] w []) : WellBracketed w := h.closes rfl

end Words

/-! ## The brackets of a run -/

/-- What a pair of brackets tells of. -/
inductive BracketLabel where
  | marked (label : MarkedContent)
  | form (info : FormInfo)

/-- The bracket that an event at some depth is, labelled with what it carries and the depth. -/
def EventPayload.bracket? (depth : Nat) : EventPayload → Option (Bracket (Nat × BracketLabel))
  | .sectionBegin label => some (.opening (depth, .marked label))
  | .sectionEnd label => some (.closing (depth, .marked label))
  | .formBegin info => some (.opening (depth, .form info))
  | .formEnd info => some (.closing (depth, .form info))
  | _ => none

theorem EventPayload.bracket?_of_isMark {payload : EventPayload} (h : payload.isMark = true)
    (depth : Nat) : payload.bracket? depth = none := by
  cases payload with
  | sectionBegin | sectionEnd | formBegin | formEnd => cases h
  | _ => rfl

def Event.bracket? (e : Event) : Option (Bracket (Nat × BracketLabel)) := e.payload.bracket? e.depth

namespace Processor

variable {s : Setting} {n : Nat} {b : Bool} {p q : Processor}

/-- The brackets among the events that listeners were told, in order. -/
def brackets (p : Processor) : List (Bracket (Nat × BracketLabel)) :=
  p.events.filterMap Event.bracket?

theorem brackets_emit (s : Setting) (p : Processor) (payload : EventPayload) :
    (p.emit s payload).brackets =
      p.brackets ++ if s.listening then (payload.bracket? p.depth).toList else [] := by
  rw [brackets, events_emit, List.filterMap_append]
  split
  · cases h : payload.bracket? p.depth <;> simp [brackets, Event.bracket?, h]
  · rfl

theorem brackets_report (p : Processor) (operator : Option String) (e : Error) :
    (p.report operator e).brackets = p.brackets := by
  rw [brackets, events_report]
  rfl

/-- The brackets that the running stream has open, latest first. -/
def openBrackets (s : Setting) (p : Processor) : List (Nat × BracketLabel) :=
  if s.listening then
    (p.sections.take p.openSections).map fun label => (p.depth, .marked label)
  else []

theorem openBrackets_of_none (s : Setting) (h : p.openSections = 0) : p.openBrackets s = [] := by
  unfold openBrackets
  rw [h]
  split <;> rfl

theorem openBrackets_congr (s : Setting) (hsections : q.sections = p.sections)
    (hfloor : q.sectionFloor = p.sectionFloor) (hdepth : q.depth = p.depth) :
    q.openBrackets s = p.openBrackets s := by
  unfold openBrackets openSections
  rw [hsections, hfloor, hdepth]

theorem depth_eq (h : q.ground = p.ground) : q.depth = p.depth := congrArg Ground.depth h

/-- A section above the floor is the latest open bracket. -/
theorem openBrackets_cons {label : MarkedContent} (s : Setting) (hground : q.ground = p.ground)
    (hsections : q.sections = label :: p.sections) (hfloor : p.sectionFloor ≤ p.sections.length) :
    q.openBrackets s =
      if s.listening then (p.depth, .marked label) :: p.openBrackets s else [] := by
  have hopen : q.openSections = p.openSections + 1 := by
    unfold openSections
    rw [hsections, sectionFloor_eq hground, List.length_cons]
    omega
  unfold openBrackets
  rw [hopen, hsections, depth_eq hground]
  split <;> rfl

/-! ## Steps -/

/-- What a step tells: at most a mark, or the beginning of a section, or the end of one. -/
theorem Step.tells (h : Step s p q) :
    (q.sections = p.sections ∧ q.brackets = p.brackets) ∨
      (∃ label, q = p.openSection s label) ∨ p.openSections ≠ 0 ∧ q = closeLatest s 1 p := by
  cases h with
  | look =>
    unfold poll
    split <;> exact .inl ⟨rfl, rfl⟩
  | report operator e => exact .inl ⟨rfl, brackets_report ..⟩
  | mark payload hmark =>
    refine .inl ⟨emit_sections .., ?_⟩
    rw [brackets_emit, EventPayload.bracket?_of_isMark hmark]
    split <;> exact List.append_nil _
  | load h =>
    refine .inl ⟨(loadFont_sameButFonts h).sections, ?_⟩
    rw [brackets, events, entries, (loadFont_sameButFonts h).log]
    rfl
  | breakdown =>
    exact .inl ⟨rfl, congrArg (List.filterMap Event.bracket?) (events_breakDown p)⟩
  | openSection label => exact .inr (.inl ⟨label, rfl⟩)
  | closeSection hopen => exact .inr (.inr ⟨hopen, rfl⟩)
  | _ => exact .inl ⟨rfl, rfl⟩

theorem closeLatest_tells (s : Setting) (hopen : p.openSections ≠ 0) :
    ∃ label, p.sections = label :: (closeLatest s 1 p).sections ∧
      (closeLatest s 1 p).brackets =
        p.brackets ++ if s.listening then [.closing (p.depth, .marked label)] else [] := by
  cases hsec : p.sections with
  | nil => simp [openSections, hsec] at hopen
  | cons label rest =>
    have hclose : closeLatest s 1 p = { p with sections := rest }.emit s (.sectionEnd label) := by
      simp only [closeLatest, hsec]
    rw [hclose]
    exact ⟨label, by rw [emit_sections], brackets_emit ..⟩

/-- **One step.** What a step tells is read from the open brackets before it to those after it. -/
theorem Step.reads (h : Step s p q) (hfloor : p.sectionFloor ≤ p.sections.length) :
    ∃ w, q.brackets = p.brackets ++ w ∧ Reads (p.openBrackets s) w (q.openBrackets s) := by
  have hground := h.ground.1
  rcases h.tells with ⟨hsections, hbrackets⟩ | ⟨label, rfl⟩ | ⟨hopen, rfl⟩
  · refine ⟨[], by rw [hbrackets, List.append_nil], ?_⟩
    rw [openBrackets_congr s hsections (sectionFloor_eq hground) (depth_eq hground)]
    exact .nil _
  · refine ⟨_, brackets_emit .., ?_⟩
    rw [openBrackets_cons s hground (emit_sections ..) hfloor]
    unfold openBrackets
    split
    · exact .opening (.nil _)
    · exact .nil _
  · obtain ⟨label, hsections, hbrackets⟩ := closeLatest_tells s hopen
    refine ⟨_, hbrackets, ?_⟩
    have habove : (closeLatest s 1 p).sectionFloor ≤ (closeLatest s 1 p).sections.length := by
      unfold openSections at hopen
      rw [hsections, List.length_cons] at hopen
      rw [sectionFloor_eq hground]
      omega
    rw [openBrackets_cons s hground.symm hsections habove, depth_eq hground]
    split
    · exact .closing (.nil _)
    · rename_i hsilent
      unfold openBrackets
      rw [if_neg hsilent]
      exact .nil _

/-! ## Streams inside streams -/

/-- The label of the brackets around a stream inside another: a form has them, if anyone listens. -/
def formLabel? (s : Setting) (p : Processor) (run : NestedRun) : Option (Nat × BracketLabel) :=
  match run.source with
  | .form info _ => if s.listening then some (p.depth + 1, .form info) else none
  | .glyph .. => none

theorem brackets_enterForm (s : Setting) (p : Processor) (info : FormInfo) (ref : Option ObjectRef)
    (clip : Option Path) :
    (p.enterForm s info ref clip).brackets =
      p.brackets ++ if s.listening then [.opening (p.depth, .form info)] else [] := by
  unfold enterForm
  cases clip <;> exact brackets_emit ..

theorem brackets_beginNested (s : Setting) (p : Processor) (run : NestedRun) (clip : Option Path) :
    (p.beginNested s run clip).brackets =
      p.brackets ++ ((p.formLabel? s run).map .opening).toList := by
  show (p.enter s run clip).brackets = _
  unfold enter formLabel?
  cases run.source with
  | form info ref =>
    refine (brackets_enterForm ..).trans ?_
    cases s.listening <;> rfl
  | glyph font procedure => exact (List.append_nil _).symm

theorem brackets_noteTruncation (p : Processor) : p.noteTruncation.brackets = p.brackets := by
  unfold noteTruncation
  split
  · exact brackets_report ..
  · rfl

theorem brackets_endSource {inner : Processor} {run : NestedRun} (s : Setting)
    (hdepth : inner.depth = p.depth + 1) :
    (inner.endSource s run.source).brackets =
      inner.brackets ++ ((p.formLabel? s run).map .closing).toList := by
  unfold formLabel?
  cases run.source with
  | form info ref =>
    refine (brackets_emit s inner (.formEnd info)).trans ?_
    rw [hdepth]
    cases s.listening <;> rfl
  | glyph font procedure => exact (List.append_nil _).symm

/-- **A stream inside another** puts the pair of a form, or nothing, around what it tells itself. -/
theorem nested_reads {inner : Processor} {run : NestedRun} {clip : Option Path}
    {w : List (Bracket (Nat × BracketLabel))} (hstays : Stays (p.beginNested s run clip) inner)
    (hopen : inner.openSections = 0)
    (hbrackets : inner.brackets = (p.beginNested s run clip).brackets ++ w) (hw : Reads [] w []) :
    ∃ w', (p.endNested s run inner).brackets = p.brackets ++ w' ∧
      Reads (p.openBrackets s) w' ((p.endNested s run inner).openBrackets s) := by
  have hsame := nested_undisturbed hstays hopen
  rw [openBrackets_congr s hsame.sections hsame.sectionFloor hsame.depth]
  refine ⟨_, ?_, hw.wrapped (p.formLabel? s run) _⟩
  have hdepth : inner.depth = p.depth + 1 := by
    rw [depth_eq hstays.ground]
    exact congrArg Ground.depth (enter_ground s p run clip)
  obtain ⟨hground, -⟩ := noteTruncation_same { inner with sectionFloor := p.sectionFloor }
  calc (p.endNested s run inner).brackets
      = inner.brackets ++ ((p.formLabel? s run).map .closing).toList := by
        refine (brackets_endSource s ((depth_eq hground).trans hdepth)).trans ?_
        rw [brackets_noteTruncation]
        rfl
    _ = p.brackets ++ (((p.formLabel? s run).map .opening).toList ++ w ++
          ((p.formLabel? s run).map .closing).toList) := by
        rw [hbrackets, brackets_beginNested]
        simp only [List.append_assoc]

/-! ## Runs -/

/-- **Every course of steps.** What is told on the way is read from the open brackets at its start to
those at its end. -/
theorem Steps.reads (h : Steps s n b p q) (hfloor : p.sectionFloor ≤ p.sections.length) :
    ∃ w, q.brackets = p.brackets ++ w ∧ Reads (p.openBrackets s) w (q.openBrackets s) := by
  induction h with
  | refl p => exact ⟨[], (List.append_nil _).symm, .nil _⟩
  | step h => exact h.reads hfloor
  | save p => exact ⟨[], (List.append_nil _).symm, .nil _⟩
  | restore => exact ⟨[], (List.append_nil _).symm, .nil _⟩
  | @nested n b p inner run clip _ _ _ hsteps hopen ih =>
    have hnone : (p.beginNested s run clip).openSections = 0 := by
      simp [beginNested, openSections]
    obtain ⟨w, hbrackets, hw⟩ := ih (by simp [beginNested])
    rw [openBrackets_of_none s hnone, openBrackets_of_none s hopen] at hw
    exact nested_reads hsteps.stays hopen hbrackets hw
  | @trans n b p q r h₁ _ ih₁ ih₂ =>
    obtain ⟨w₁, hw₁, hread₁⟩ := ih₁ hfloor
    obtain ⟨w₂, hw₂, hread₂⟩ := ih₂ (h₁.stays.floor_le hfloor)
    exact ⟨w₁ ++ w₂, by rw [hw₂, hw₁, List.append_assoc], hread₁.append hread₂⟩

/-- **Every execution.** The events at the beginnings and ends of sections and forms, each labelled with
what it carries and with its depth, form a well-bracketed word. -/
theorem execute_wellBracketed {nested : NestedRunner} (hn : Follows s n nested) (p : Processor)
    (items : List ItemAt) :
    ∃ w, (p.execute s nested items).brackets = p.brackets ++ w ∧ WellBracketed w := by
  obtain ⟨inner, hsteps, hopen, heq⟩ := execute_steps hn p items
  obtain ⟨w, hbrackets, hw⟩ := hsteps.reads (Nat.le_refl _)
  have hnone : ({ p with sectionFloor := p.sections.length } : Processor).openSections = 0 :=
    Nat.sub_self _
  rw [openBrackets_of_none s hnone, openBrackets_of_none s hopen] at hw
  rw [heq]
  exact ⟨w, hbrackets, wellBracketed_of_reads hw⟩

end Processor

end ContentStream
