import ContentStream.Proofs.Bookkeeping
import ContentStream.Proofs.Confinement

/-!
# Runs under bounds

A run can be given a limit on its operators, and it can be cancelled after some number of events.
Neither has a part in what an operator does.

**Theorem (`perform_unwatched`).** An instruction that runs no other stream does the same under
whatever bounds.

**Theorem (`Steps.progress`).** Along every course of steps events are added at the end, the count of
operators grows up to the limit and no further, and the number of events until the cancellation goes
down with each event.
-/

namespace ContentStream

/-- The setting with its limit on operators replaced, where nobody cancels from outside. -/
def Setting.bounded (s : Setting) (limit : Option Nat) : Setting :=
  { s with config.maxOperators := limit, cancelled := fun _ => false }

/-- Forgets about a cancellation. -/
def Recast.unwatched : Recast where
  log := id
  executed := id
  cancelIn _ := none
  log_cons _ _ := rfl
  executed_succ _ := rfl
  cancelIn_pred _ := rfl

namespace Processor

/-- The processor when no cancellation is due. -/
def unwatched (p : Processor) : Processor := { p with cancelIn := none }

/-! ## What does not depend on the bounds -/

section Unwatched

variable (s : Setting) (limit : Option Nat) (p : Processor)

theorem emit_unwatched (payload : EventPayload) :
    p.unwatched.emit (s.bounded none) payload = (p.emit (s.bounded limit) payload).unwatched :=
  emit_recast .unwatched (s.bounded limit) (s.bounded none).config _ p payload

theorem closeSections_unwatched :
    p.unwatched.closeSections (s.bounded none) = (p.closeSections (s.bounded limit)).unwatched :=
  closeSections_recast .unwatched (s.bounded limit) (s.bounded none).config _ p

theorem enter_unwatched (run : NestedRun) (path : Option Path) :
    p.unwatched.enter (s.bounded none) run path =
      (p.enter (s.bounded limit) run path).unwatched :=
  enter_recast .unwatched (s.bounded limit) (s.bounded none).config _ p run path

theorem noteTruncation_unwatched : p.unwatched.noteTruncation = p.noteTruncation.unwatched :=
  noteTruncation_recast .unwatched p

theorem leave_unwatched (outer : Processor) (source : NestedSource) :
    p.unwatched.leave (s.bounded none) outer.unwatched source =
      (p.leave (s.bounded limit) outer source).unwatched :=
  leave_recast .unwatched (s.bounded limit) (s.bounded none).config _ p outer source

/-- **Local instructions.** What runs no other stream does the same under whatever bounds. -/
theorem perform_unwatched {nested nested' : NestedRunner} {i : Instruction} (h : i.runs = false) :
    p.unwatched.perform (s.bounded none) nested i =
      (p.perform (s.bounded limit) nested' i).map unwatched :=
  perform_recast .unwatched (s.bounded limit) (s.bounded none).config _ p h (.inr fun _ => rfl)

end Unwatched

/-! ## Progress -/

variable {s : Setting} {limit : Option Nat} {n : Nat} {b : Bool} {p q r : Processor}

/-- What bounds look at has moved on from `p` to `q`, under a limit on operators. -/
structure Progress (limit : Option Nat) (p q : Processor) : Prop where
  events : p.events <+: q.events
  cancelIn : q.cancelIn = p.cancelIn.map (· - (q.events.length - p.events.length))
  executed : p.executed ≤ q.executed
  within : ∀ l ∈ limit, p.executed ≤ l → q.executed ≤ l
  broken : p.broken = true → q.broken = true

namespace Progress

theorem of_same (h : q.events = p.events ∧ q.cancelIn = p.cancelIn ∧ q.executed = p.executed)
    (hbroken : p.broken = true → q.broken = true := by exact id) : Progress limit p q where
  events := h.1 ▸ List.prefix_refl _
  cancelIn := by simp [h]
  executed := Nat.le_of_eq h.2.2.symm
  within := by
    intro l _ hle
    rwa [h.2.2]
  broken := hbroken

theorem trans (h₁ : Progress limit p q) (h₂ : Progress limit q r) : Progress limit p r where
  events := h₁.events.trans h₂.events
  cancelIn := by
    have hle₁ := h₁.events.length_le
    have hle₂ := h₂.events.length_le
    rw [h₂.cancelIn, h₁.cancelIn, Option.map_map]
    congr 1
    funext k
    show k - (q.events.length - p.events.length) - (r.events.length - q.events.length) =
      k - (r.events.length - p.events.length)
    omega
  executed := Nat.le_trans h₁.executed h₂.executed
  within l hl h := h₂.within l hl (h₁.within l hl h)
  broken h := h₂.broken (h₁.broken h)

/-- One more event, from a processor that has not told of anything else since `p`. -/
theorem emit (payload : EventPayload)
    (h : q.events = p.events ∧ q.cancelIn = p.cancelIn ∧ q.executed = p.executed)
    (hbroken : p.broken = true → q.broken = true := by exact id) :
    Progress limit p (q.emit s payload) := by
  refine (of_same h hbroken).trans ?_
  have htold := events_emit s q payload
  refine ⟨?_, ?_, ?_, ?_, fun h => by rwa [broken_emit]⟩
  · rw [htold]
    exact List.prefix_append _ _
  · rw [htold]
    unfold Processor.emit
    split <;> simp
  · unfold Processor.emit
    split <;> exact Nat.le_refl _
  · intro l _ h
    unfold Processor.emit
    split <;> exact h

end Progress

theorem report_progress (p : Processor) (operator : Option String) (e : Error) :
    Progress limit p (p.report operator e) :=
  .of_same ⟨events_report .., rfl, rfl⟩

theorem adjust_progress (p : Processor) (change : GraphicsState → Except Error GraphicsState) :
    Progress limit p (p.adjust change).processor := by
  unfold adjust
  cases change p.gstate <;> exact .of_same ⟨rfl, rfl, rfl⟩

theorem Step.progress (h : Step s p q) : Progress s.config.maxOperators p q := by
  cases h with
  | look =>
    unfold poll
    split <;> exact .of_same ⟨rfl, rfl, rfl⟩
  | count h =>
    refine ⟨List.prefix_refl _, by simp [Processor.events, entries], Nat.le_succ _, ?_, id⟩
    intro l hl _
    have hroom : ¬ l ≤ p.executed := by
      simpa [exhausted, Option.mem_def.1 hl] using h
    show p.executed + 1 ≤ l
    omega
  | report operator e => exact report_progress p operator e
  | breakdown => exact .of_same ⟨events_breakDown p, rfl, rfl⟩ fun _ => broken_breakDown p
  | mark payload => exact .emit payload ⟨rfl, rfl, rfl⟩
  | load h =>
    have hsame := loadFont_sameButFonts h
    unfold SameButFonts at hsame
    rw [hsame]
    exact .of_same ⟨rfl, rfl, rfl⟩
  | openSection label => exact .emit _ ⟨rfl, rfl, rfl⟩
  | closeSection =>
    simp only [closeLatest]
    split
    · exact .of_same ⟨rfl, rfl, rfl⟩
    · exact .emit _ ⟨rfl, rfl, rfl⟩
  | _ => exact .of_same ⟨rfl, rfl, rfl⟩

theorem enter_progress (s : Setting) (p : Processor) (run : NestedRun) (path : Option Path) :
    Progress limit p (p.enter s run path) := by
  unfold enter enterForm
  cases run.source with
  | form info ref => cases path <;> exact .emit _ ⟨rfl, rfl, rfl⟩
  | glyph font procedure => exact .of_same ⟨rfl, rfl, rfl⟩

theorem beginNested_progress (s : Setting) (p : Processor) (run : NestedRun) (path : Option Path) :
    Progress limit p (p.beginNested s run path) :=
  (enter_progress s p run path).trans (.of_same ⟨rfl, rfl, rfl⟩)

theorem broken_noteTruncation (p : Processor) : p.noteTruncation.broken = p.broken := by
  unfold noteTruncation
  split <;> rfl

theorem noteTruncation_progress (p : Processor) : Progress limit p p.noteTruncation := by
  refine .of_same ⟨events_noteTruncation p, ?_, ?_⟩ (broken_noteTruncation p).trans
  all_goals
    unfold noteTruncation
    split <;> rfl

theorem broken_leave (s : Setting) (p outer : Processor) (source : NestedSource) :
    (p.leave s outer source).broken = p.broken := by
  cases source with
  | form info ref => exact broken_emit s p (.formEnd info)
  | glyph font procedure => rfl

theorem leave_progress (s : Setting) (p outer : Processor) (source : NestedSource) :
    Progress limit p (p.leave s outer source) := by
  have hend : Progress limit p (p.endSource s source) := by
    cases source with
    | form info ref =>
      exact (Progress.emit (.formEnd info) ⟨rfl, rfl, rfl⟩).trans (.of_same ⟨rfl, rfl, rfl⟩)
    | glyph font procedure => exact .of_same ⟨rfl, rfl, rfl⟩
  exact hend.trans (.of_same ⟨rfl, rfl, rfl⟩)

theorem endNested_progress (s : Setting) (p : Processor) (run : NestedRun) (inner : Processor) :
    Progress limit inner (p.endNested s run inner) := by
  let last : Processor := { inner with sectionFloor := p.sectionFloor }
  have hfloor : Progress limit inner last := .of_same ⟨rfl, rfl, rfl⟩
  exact (hfloor.trans (noteTruncation_progress last)).trans (leave_progress s _ p run.source)

/-- **Progress.** -/
theorem Steps.progress (h : Steps s n b p q) : Progress s.config.maxOperators p q := by
  induction h with
  | refl p => exact .of_same ⟨rfl, rfl, rfl⟩
  | step h => exact h.progress
  | save p => exact .of_same ⟨rfl, rfl, rfl⟩
  | restore => exact .of_same ⟨rfl, rfl, rfl⟩
  | nested _ _ _ _ _ ih =>
    exact ((beginNested_progress ..).trans ih).trans (endNested_progress ..)
  | trans _ _ ih₁ ih₂ => exact ih₁.trans ih₂

end Processor

end ContentStream
