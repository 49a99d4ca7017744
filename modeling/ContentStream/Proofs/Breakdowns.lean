import ContentStream.Proofs.Visits

/-!
# Runs that break down

A run is broken if a reader broke down in it, in the stream of the page or in one that runs inside it.
Then there is no outcome. Listeners keep what they heard and hear nothing more.

**Theorem (`status_eq_broken_iff`).** A page ends broken exactly if the run comes to an activation with
an item at hand over which the reader breaks down (`Activation.breaksDown`). `ItemOrder` says which
contents have such items.

**Theorem (`process_wellBracketed`).** Over every run of a page that is not broken, finished or not, the
sections and forms nest. In a broken one what is open stays open (`process_broken_unclosed`).

A round that has no such item at hand breaks nothing (`next_broken`). Over the rounds of a run this is
an equivalence (`result_broken_iff`).
-/

namespace ContentStream

namespace Processor

theorem broken_beginNested (s : Setting) (p : Processor) (run : NestedRun) (clip : Option Path) :
    (p.beginNested s run clip).broken = p.broken := by
  unfold beginNested enter
  cases run.source with
  | form info ref => cases clip <;> exact broken_emit ..
  | glyph font procedure => rfl

theorem broken_endNested (s : Setting) (p : Processor) (run : NestedRun) (inner : Processor) :
    (p.endNested s run inner).broken = inner.broken :=
  (broken_leave ..).trans (broken_noteTruncation _)

/-- What a stream does by itself, whatever it tells of and reports, breaks nothing. -/
abbrev Unharmed (p q : Processor) : Prop := Does True (fun _ => True) p q

theorem broken_poll (s : Setting) (p : Processor) : (p.poll s).broken = p.broken := by
  rw [poll_eq]
  rfl

theorem broken_closeSections (s : Setting) (p : Processor) :
    (p.closeSections s).broken = p.broken := by
  have hclose : Unharmed p _ := closeSections_does s p fun _ _ => trivial
  exact hclose.broken

end Processor

namespace Activation

open Processor

variable {s : Setting} {a : Activation} {p : Processor}

/-- The reader breaks down over the item at hand. -/
def breaksDown (a : Activation) : Bool :=
  a.text.isNone && breaksAtOnce a.pending

/-- A round that starts as broken as `before`. It breaks down if `breaks` says so, and ends the stream
then. -/
def RoundBroken (before breaks : Bool) : Next → Prop
  | .done q => q.broken = (before || breaks)
  | .goOn b => breaks = false ∧ b.processor.broken = before
  | .call inner resume =>
    breaks = false ∧ inner.processor.broken = before ∧ ∀ q, (resume q).processor.broken = q.broken

theorem doWith_broken {asked : Option (NestedRun × Processor)} {next : NestedRunner → Activation}
    (hnone : asked = none → (next idle).processor.broken = p.broken)
    (hsome : ∀ run q, asked = some (run, q) → q.broken = p.broken ∧
      (∀ e, (next fun _ _ => .failed q e).processor.broken = q.broken) ∧
      ∀ r, (next fun _ _ => .done r).processor.broken = r.broken) :
    RoundBroken p.broken false (doWith s asked next) := by
  unfold doWith
  split
  · exact ⟨rfl, hnone rfl⟩
  · rename_i run q
    obtain ⟨hq, hfailed, hdone⟩ := hsome run q rfl
    split
    · rename_i e _
      exact ⟨rfl, (hfailed e).trans hq⟩
    · rename_i clip _
      refine ⟨rfl, (broken_beginNested s q run clip).trans hq, fun r => ?_⟩
      exact (hdone _).trans (broken_endNested s q run r)

theorem broken_afterPart (a : Activation) (t : ShownText) (reply : Reply) :
    (a.afterPart t reply).processor.broken = reply.processor.broken := by
  cases reply <;> rfl

theorem showNext_broken (s : Setting) (a : Activation) (t : ShownText) :
    RoundBroken a.processor.broken false (a.showNext s t) := by
  have hadjust : ∀ (r : Processor) f, Unharmed r (r.adjust f).processor := fun r f => .adjust r f
  unfold showNext
  split
  · rename_i c codes _
    apply doWith_broken
    · intro _
      have hshown : Unharmed a.processor _ := showGlyph_idle_does s a.processor t.operator t.font c
      exact (broken_afterPart ..).trans hshown.broken
    · intro run q hasked
      have hanswered : Unharmed a.processor q ∧ _ := showGlyph_answered hasked
      obtain ⟨hq, advance, hanswer⟩ := hanswered
      refine ⟨hq.broken, fun e => ?_, fun r => ?_⟩
      · rw [broken_afterPart, (hanswer _ q).2 e, (hadjust ..).broken, broken_report]
      · rw [broken_afterPart, (hanswer _ r).1, (hadjust ..).broken]
  · exact ⟨rfl, rfl⟩
  · exact ⟨rfl, (broken_afterPart ..).trans (hadjust ..).broken⟩
  · exact ⟨rfl, rfl⟩

theorem broken_startText (a : Activation) (word : String) (p : Processor) (text : Showing) :
    (a.startText word p text).processor.broken = p.broken := by
  unfold startText
  split
  · rfl
  · have hstarted : Unharmed p _ := startLine_does p text
    exact (broken_afterPart ..).trans hstarted.broken

theorem takeOperator_broken (s : Setting) (a : Activation) (word : String) (args : List Object) :
    RoundBroken a.processor.broken false (a.takeOperator s word args) := by
  unfold takeOperator
  split
  · rename_i hexhausted
    have hstopped : Unharmed a.processor _ := dispatch_exhausted_does idle word args hexhausted
    exact ⟨rfl, hstopped.broken⟩
  · dsimp only
    split
    · exact ⟨rfl, broken_startText ..⟩
    · rename_i hshow
      apply doWith_broken
      · intro _
        have hdone : Unharmed { a.processor with executed := a.processor.executed + 1 } _ :=
          executeWord_idle_does s _ hshow (fun _ _ => trivial) fun _ => trivial
        exact hdone.broken
      · intro run q hasked
        obtain ⟨rfl, hanswer⟩ := executeWord_of_asked hasked
        refine ⟨rfl, fun e => ?_, fun r => ?_⟩
        · rw [hanswer]
          rfl
        · rw [hanswer]
          rfl

theorem takeItem_broken (s : Setting) (a : Activation) (pos : Nat) (item : Except Error Item) :
    RoundBroken a.processor.broken (ItemAt.breaksDown (pos, item)) (a.takeItem s pos item) := by
  have hplaced : ({ a.processor.poll s with pos := pos } : Processor).broken = a.processor.broken :=
    broken_poll s a.processor
  unfold takeItem
  dsimp only
  split
  · rename_i hbreaks
    rw [hbreaks]
    exact (broken_closeSections s a.processor.breakDown).trans (Bool.or_true _).symm
  · rename_i hwhole
    rw [Bool.eq_false_iff.2 hwhole, ← hplaced]
    split
    · exact (broken_closeSections ..).trans (Bool.or_false _).symm
    · split
      · exact ⟨rfl, rfl⟩
      · exact takeOperator_broken s _ _ _
      · rename_i image
        have himage : Unharmed { a.processor.poll s with pos := pos } _ :=
          dispatchImage_does s _ image a.operands.reverse fun _ => trivial
        exact ⟨rfl, himage.broken⟩
      · exact (broken_closeSections ..).trans (Bool.or_false _).symm
      · exact ⟨rfl, rfl⟩

/-- **One round** breaks down over the item at hand, and not otherwise. -/
theorem next_broken (s : Setting) (a : Activation) :
    RoundBroken a.processor.broken a.breaksDown (a.next s) := by
  unfold next
  split
  · rename_i t ht
    simp only [breaksDown, ht, Option.isNone_some, Bool.false_and]
    exact showNext_broken s a t
  · rename_i pos item rest ht hpending
    simp only [breaksDown, ht, hpending, Option.isNone_none, Bool.true_and]
    exact takeItem_broken s _ pos item
  · rename_i c b ht hpending hreader
    exact ⟨by simp [breaksDown, hpending, breaksAtOnce], rfl⟩
  · rename_i ht hpending hreader
    simp only [breaksDown, ht, hpending]
    exact (broken_closeSections ..).trans (Bool.or_false _).symm

theorem broken_of_next {next : Next} (h : a.next s = next) :
    RoundBroken a.processor.broken a.breaksDown next := h ▸ next_broken s a

/-- **Every run.** It is broken in the end if it was before, or if it comes to an activation that breaks
down. -/
theorem result_broken_iff (s : Setting) (a : Activation) :
    (a.result s).broken = true ↔
      a.processor.broken = true ∨ ∃ c, a.Visits s c ∧ c.breaksDown = true := by
  refine result_induction (motive := fun a q => q.broken = true ↔
    a.processor.broken = true ∨ ∃ c, a.Visits s c ∧ c.breaksDown = true) ?_ ?_ ?_ a
  · intro a p hnext
    have hround : p.broken = (a.processor.broken || a.breaksDown) := broken_of_next hnext
    simp only [visits_of_done hnext, exists_eq_left, hround, Bool.or_eq_true]
  · intro a b q hnext hrest
    obtain ⟨hwhole, hb⟩ := broken_of_next hnext
    rw [hrest, hb]
    simp only [visits_of_goOn hnext, or_and_right, exists_or, exists_eq_left, hwhole,
      Bool.false_eq_true, false_or]
  · intro a inner resume q hnext hinner hrest
    obtain ⟨hwhole, hstart, hback⟩ := broken_of_next hnext
    rw [hrest, hback, hinner, hstart]
    simp only [visits_of_call hnext, or_and_right, exists_or, exists_eq_left, hwhole,
      Bool.false_eq_true, false_or, or_assoc]

end Activation

namespace Processor

/-- **Every page** ends broken if and only if the run comes to an activation that breaks down. -/
theorem status_eq_broken_iff (s : Setting) (cancelIn : Option Nat) (segments : List (List UInt8))
    (resources : Dict) :
    ((Activation.ofSegments segments (beginPage s cancelIn resources)).result s).outcome.status =
        .broken ↔
      ∃ a, (Activation.ofSegments segments (beginPage s cancelIn resources)).Visits s a ∧
        a.breaksDown = true := by
  rw [outcome_status_eq_broken_iff, Activation.result_broken_iff]
  -- Nothing has broken down before the page.
  exact or_iff_right Bool.false_ne_true

/-! ## Brackets -/

/-- **Brackets.** Unless a reader breaks down, a run of a page gives an outcome, and the events at the
beginnings and ends of sections and forms, each labelled with what it carries and with its depth, form
a well-bracketed word. If one breaks down, what was heard is the first part of such a word. One does
exactly if the run comes to an item over which it has to, in the page or in a stream inside it. -/
theorem process_wellBracketed (s : Setting) (cancelIn : Option Nat) (segments : List (List UInt8))
    (resources : Dict) :
    ∃ outcome q, (start s cancelIn).process s segments resources = .ok (outcome, q) ∧
      (outcome.status ≠ .broken → WellBracketed (q.events.filterMap Event.bracket?)) ∧
      (∃ rest, WellBracketed (q.events.filterMap Event.bracket? ++ rest)) ∧
      (outcome.status = .broken ↔
        ∃ a, (Activation.ofSegments segments (beginPage s cancelIn resources)).Visits s a ∧
          a.breaksDown = true) := by
  let ran := (Activation.ofSegments segments (beginPage s cancelIn resources)).result s
  obtain ⟨w, hbrackets, hw⟩ := execute_wellBracketed (runner_steps s s.config.maxDepth)
    (beginPage s cancelIn resources) (Content.items segments)
  rw [execute_beginPage] at hbrackets
  -- Nothing was told before the run.
  have hall : WellBracketed ran.brackets := by
    rw [hbrackets]
    exact hw
  refine ⟨ran.outcome, ran.ended, ?_, fun hwhole => ?_, ?_, status_eq_broken_iff ..⟩
  · rw [process_start, execute_beginPage]
  · rw [ended_of_not_broken (broken_eq_false hwhole)]
    exact hall
  · obtain ⟨rest, hrest⟩ := ran.ended_events_isPrefix.filterMap Event.bracket?
    exact ⟨rest, hrest ▸ hall⟩

/-- The section of `/P BMC` is closed when the page ends. -/
theorem process_wellBracketed_unclosed :
    ∃ outcome q, (start {}).process {} [[47, 80, 32, 66, 77, 67]] [] = .ok (outcome, q) ∧
      outcome.status ≠ .broken ∧ (q.events.filterMap Event.bracket?).length = 2 ∧
      WellBracketed (q.events.filterMap Event.bracket?) := by
  obtain ⟨outcome, q, hrun, hbrackets, -⟩ :=
    process_wellBracketed {} none [[47, 80, 32, 66, 77, 67]] []
  have hstatus : outcome.status ≠ .broken := by
    cases hrun
    decide +kernel
  have hlength : (q.events.filterMap Event.bracket?).length = 2 := by
    cases hrun
    decide +kernel
  exact ⟨outcome, q, hrun, hstatus, hlength, hbrackets hstatus⟩

/-- **Not closed.** In `/P BMC BI /L 0 ID` a section begins, and then the reader breaks down over the data
of the image. The section has no end. -/
theorem process_broken_unclosed :
    ∃ outcome q, (start {}).process {}
        [[47, 80, 32, 66, 77, 67, 32, 66, 73, 32, 47, 76, 32, 48, 32, 73, 68]] [] = .ok (outcome, q) ∧
      outcome.status = .broken ∧ ¬ WellBracketed (q.events.filterMap Event.bracket?) := by
  refine ⟨_, _, rfl, by decide +kernel, fun hbrackets => ?_⟩
  have heven := hbrackets.even_length
  revert heven
  decide +kernel

end Processor

end ContentStream
