import ContentStream.Proofs.AlikeFonts
import ContentStream.Proofs.Visits

/-!
# The memory of fonts is coherent

**Theorem (`process_fonts_coherent`).** In every activation that a run comes to, in whatever stream,
and at its end, every font that is remembered for a reference is like the one that would now be built
from its object. So texts in a remembered font are shown as in a new one, and the operators that select
fonts select what they would select if nothing was remembered. This is so for every loader that builds
fonts that are alike under all names, such as `Font.load`.

Fonts are remembered when they are selected, also by a graphics state that fails later, and no stream
takes that back when it ends (`fontCache_endNested`). Nothing else touches the memory. So one round
keeps it coherent (`next_keeps`), and what a round keeps holds throughout a run (`Visits.keeps`) and at
its end (`result_keeps`).
-/

namespace ContentStream

namespace Processor

variable {s : Setting} {p q : Processor}

/-! ## What leaves the memory alone -/

@[simp] theorem fontCache_emit (s : Setting) (p : Processor) (payload : EventPayload) :
    (p.emit s payload).fontCache = p.fontCache := by
  unfold emit
  split <;> rfl

@[simp] theorem fontCache_poll (s : Setting) (p : Processor) :
    (p.poll s).fontCache = p.fontCache := by
  rw [poll_eq]

@[simp] theorem fontCache_adjust (p : Processor) (f : GraphicsState → Except Error GraphicsState) :
    (p.adjust f).processor.fontCache = p.fontCache := by
  unfold adjust
  cases f p.gstate <;> rfl

theorem fontCache_closeLatest (s : Setting) (n : Nat) (p : Processor) :
    (closeLatest s n p).fontCache = p.fontCache := by
  induction n generalizing p with
  | zero => rfl
  | succ n ih =>
    unfold closeLatest
    split
    · rfl
    · rw [ih, fontCache_emit]

@[simp] theorem fontCache_closeSections (s : Setting) (p : Processor) :
    (p.closeSections s).fontCache = p.fontCache := by
  unfold closeSections
  split
  · rfl
  · rw [fontCache_closeLatest]
    rfl

theorem fontCache_paint (s : Setting) (p : Processor) (style : PaintStyle) :
    (p.paint s style).processor.fontCache = p.fontCache := by
  have hdevice : ∀ (q : Processor) (device : Path),
      (q.paintDevice s style device).fontCache = q.fontCache := by
    intro q device
    unfold paintDevice
    split <;> simp
  unfold paint
  dsimp only
  split
  · rfl
  · split
    · exact (fontCache_emit ..).trans (hdevice ..)
    · exact hdevice ..

@[simp] theorem fontCache_settle (pos : Nat) (word : String) (reply : Reply) :
    (settle pos word reply).fontCache = reply.processor.fontCache := by
  cases reply <;> rfl

theorem fontCache_commit {result : Except Error Processor}
    (h : ∀ q, result = .ok q → q.fontCache = p.fontCache) :
    (Reply.commit p result).processor.fontCache = p.fontCache := by
  cases hresult : result with
  | ok q => exact h q hresult
  | error e => rfl

theorem fontCache_beginNested (s : Setting) (p : Processor) (run : NestedRun) (clip : Option Path) :
    (p.beginNested s run clip).fontCache = p.fontCache := by
  unfold beginNested enter
  cases run.source with
  | form info ref =>
    dsimp only
    unfold enterForm
    cases clip <;> exact fontCache_emit ..
  | glyph font procedure => rfl

/-- What a stream has remembered stays when it ends. -/
theorem fontCache_endNested (s : Setting) (p : Processor) (run : NestedRun) (inner : Processor) :
    (p.endNested s run inner).fontCache = inner.fontCache := by
  have hnoted : ∀ q : Processor, q.noteTruncation.fontCache = q.fontCache := by
    intro q
    unfold noteTruncation
    split <;> rfl
  unfold endNested leave endSource
  cases run.source with
  | form info ref => exact (fontCache_emit ..).trans (hnoted _)
  | glyph font procedure => exact hnoted _

/-! ## Instructions -/

theorem fontCache_showExternal (s : Setting) (p : Processor) (name : String) :
    (p.showExternal s idle name).processor.fontCache = p.fontCache := by
  unfold showExternal
  cases p.externalObject s name with
  | error e => rfl
  | ok found =>
    obtain ⟨ref, object⟩ := found
    simp only [Reply.attempt]
    split
    · cases p.formRun s name ref object <;> rfl
    · exact fontCache_emit ..
    · rfl

/-- An instruction that runs no other stream keeps the memory coherent. -/
theorem FontsCoherent.perform {i : Instruction} (hblind : s.load.NameBlind)
    (hp : p.FontsCoherent s) (hshow : ∀ text, i ≠ .show text) :
    (p.perform s idle i).processor.FontsCoherent s := by
  cases i with
  | «show» text => exact absurd rfl (hshow text)
  | font name size => exact (selectFont_alike hblind hp name size).2
  | stateDict name => exact (applyStateDict_alike hblind hp name).2
  | state c => exact hp.of_cache (fontCache_adjust p (·.apply c))
  | restore =>
    refine hp.of_cache ?_
    simp only [Processor.perform, restore]
    split
    · rfl
    · split <;> rfl
  | path step =>
    refine hp.of_cache (fontCache_commit fun q hq => ?_)
    obtain ⟨path, -, rfl⟩ := exists_of_map_ok hq
    rfl
  | paint style => exact hp.of_cache (fontCache_paint s p style)
  | glyphMetrics operator metrics =>
    refine hp.of_cache (fontCache_commit fun q hq => ?_)
    unfold declareMetrics at hq
    split at hq
    · cases hq
      rfl
    · cases hq
  | colorSpace side name =>
    refine hp.of_cache (fontCache_commit fun q hq => ?_)
    obtain ⟨space, -, hq⟩ := exists_of_bind_ok hq
    cases hq
    rfl
  | shading name =>
    refine hp.of_cache (fontCache_commit fun q hq => ?_)
    obtain ⟨_, -, hq⟩ := exists_of_bind_ok hq
    cases hq
    exact fontCache_emit ..
  | xobject name => exact hp.of_cache (fontCache_showExternal s p name)
  | inlineImage image => exact hp.of_cache (fontCache_emit ..)
  | markPoint tag props =>
    refine hp.of_cache (fontCache_commit fun q hq => ?_)
    obtain ⟨_, -, hq⟩ := exists_of_bind_ok hq
    cases hq
    exact fontCache_emit ..
  | beginSection tag props =>
    refine hp.of_cache ?_
    simp only [Processor.perform, beginSection]
    split <;> exact fontCache_emit ..
  | endSection =>
    refine hp.of_cache ?_
    simp only [Processor.perform, endSection]
    split
    · rfl
    · exact fontCache_closeLatest s 1 p
  | _ => exact hp.of_cache rfl

/-- A word that stands for no instruction is passed over or reported. -/
theorem executeWord_refused {word : String} {args : List Object}
    (h : Operator.instruction? word args = none) (nested : NestedRunner) :
    p.executeWord s nested word args = p ∨
      ∃ e, p.executeWord s nested word args = p.report (some word) e := by
  unfold Operator.instruction? at h
  unfold executeWord
  cases hfind : Operator.find? word with
  | none =>
    by_cases hcompat : p.compatDepth > 0
    · exact .inl (if_pos hcompat)
    · exact .inr ⟨_, if_neg hcompat⟩
  | some found =>
    obtain ⟨op, arity⟩ := found
    by_cases harity : arity.accepts args.length = true
    · cases hread : op.read ⟨word, args⟩ with
      | ok i => simp [hfind, harity, hread, Except.toOption] at h
      | error e =>
        refine .inr ⟨e, ?_⟩
        simp only [harity, if_true, operate, hread, Reply.attempt]
        rfl
    · exact .inr ⟨_, if_neg harity⟩

theorem FontsCoherent.executeWord {word : String} {args : List Object}
    (hblind : s.load.NameBlind) (hp : p.FontsCoherent s)
    (hshow : ∀ text, Operator.instruction? word args ≠ some (.show text)) :
    (p.executeWord s idle word args).FontsCoherent s := by
  cases hinstruction : Operator.instruction? word args with
  | some i =>
    rw [executeWord_of_instruction hinstruction]
    refine (FontsCoherent.perform hblind hp fun text hi => ?_).of_cache (fontCache_settle ..)
    exact hshow text (hi ▸ hinstruction)
  | none =>
    rcases executeWord_refused (s := s) (p := p) hinstruction idle with hsame | ⟨e, hreport⟩
    · rwa [hsame]
    · rw [hreport]
      exact hp.of_cache rfl

theorem FontsCoherent.dispatchImage (hblind : s.load.NameBlind) (hp : p.FontsCoherent s)
    (image : Stream) (args : List Object) :
    (p.dispatchImage s idle image args).FontsCoherent s := by
  have hinstruction : Operator.instruction? "EI" [image.toObject] = some (.inlineImage image) := rfl
  unfold Processor.dispatchImage
  split
  · unfold dispatch
    split
    · exact hp.of_cache rfl
    · have hcounted : ({ p with executed := p.executed + 1 } : Processor).FontsCoherent s :=
        hp.of_cache rfl
      exact .executeWord hblind hcounted fun text h => by simp [hinstruction] at h
  · exact hp.of_cache rfl

/-! ## Texts -/

theorem fontCache_startLine (p : Processor) (text : Showing) :
    (p.startLine text).processor.fontCache = p.fontCache := by
  have hspaced : (p.setSpacing text.spacing).fontCache = p.fontCache := by
    cases text.spacing <;> rfl
  unfold startLine
  dsimp only
  split
  · exact (fontCache_adjust ..).trans hspaced
  · exact hspaced

theorem fontCache_showGlyph (s : Setting) (p : Processor) (operator : String) (font : SelectedFont)
    (c : CharCode) : (p.showGlyph s idle operator font c).processor.fontCache = p.fontCache := by
  have hrun : ∀ (q : Processor) (m : Matrix),
      (q.runGlyph s idle operator font m c.code).processor.fontCache = q.fontCache := by
    intro q m
    unfold runGlyph
    split
    · rfl
    · split
      · rfl
      · split <;> rfl
  unfold showGlyph
  split
  · rename_i m advance _ _
    dsimp only
    generalize EventPayload.glyph _ = payload
    have hglyph := (hrun (p.emit s payload) m).trans (fontCache_emit s p payload)
    revert hglyph
    cases (p.emit s payload).runGlyph s idle operator font m c.code with
    | done q => exact fun hglyph => (fontCache_adjust q fun g => g.advanceText advance).trans hglyph
    | failed q e => exact id
  · rfl

theorem fontCache_glyphAsked {font : SelectedFont} {c : CharCode} {run : NestedRun}
    (h : p.glyphAsked? s font c = some (run, q)) : q.fontCache = p.fontCache := by
  obtain ⟨⟨info, rfl⟩, -⟩ := glyphAsked?_ok h
  exact fontCache_emit ..

end Processor

/-! ## Rounds -/

namespace Activation

open Processor

variable {s : Setting} {a : Activation} {p : Processor}

theorem doWith_keeps {asked : Option (NestedRun × Processor)} {next : NestedRunner → Activation}
    (hnone : asked = none → (next idle).processor.FontsCoherent s)
    (hsome : ∀ run q, asked = some (run, q) → q.FontsCoherent s ∧
      (∀ e, (next fun _ _ => .failed q e).processor.FontsCoherent s) ∧
      ∀ r, r.FontsCoherent s → (next fun _ _ => .done r).processor.FontsCoherent s) :
    Keeps (FontsCoherent s) (doWith s asked next) := by
  unfold doWith
  split
  · exact hnone rfl
  · rename_i run q
    obtain ⟨hq, hfailed, hdone⟩ := hsome run q rfl
    split
    · rename_i e _
      exact hfailed e
    · rename_i clip _
      refine ⟨hq.of_cache (fontCache_beginNested s q run clip), fun r hr => ?_⟩
      exact hdone _ (hr.of_cache (fontCache_endNested s q run r))

theorem fontCache_afterPart (a : Activation) (t : ShownText) (reply : Reply) :
    (a.afterPart t reply).processor.fontCache = reply.processor.fontCache := by
  cases reply <;> rfl

theorem showNext_keeps (a : Activation) (t : ShownText) (ha : a.processor.FontsCoherent s) :
    Keeps (FontsCoherent s) (a.showNext s t) := by
  unfold showNext
  split
  · rename_i c codes _
    apply doWith_keeps
    · intro _
      exact ha.of_cache ((fontCache_afterPart ..).trans (fontCache_showGlyph ..))
    · intro run q hasked
      have hanswered : Does False (fun _ => True) a.processor q ∧ _ := showGlyph_answered hasked
      obtain ⟨-, advance, hanswer⟩ := hanswered
      have hq : q.FontsCoherent s := ha.of_cache (fontCache_glyphAsked hasked)
      refine ⟨hq, fun e => hq.of_cache ?_, fun r hr => hr.of_cache ?_⟩
      · rw [fontCache_afterPart, (hanswer _ q).2 e, fontCache_adjust]
        rfl
      · rw [fontCache_afterPart, (hanswer _ r).1, fontCache_adjust]
  · exact ha
  · exact ha.of_cache ((fontCache_afterPart ..).trans (fontCache_adjust ..))
  · exact ha

theorem startText_coherent (a : Activation) (word : String) (text : Showing)
    (hp : p.FontsCoherent s) : (a.startText word p text).processor.FontsCoherent s := by
  unfold startText
  split
  · exact hp.of_cache rfl
  · exact hp.of_cache ((fontCache_afterPart ..).trans (fontCache_startLine p text))

theorem takeOperator_keeps (hblind : s.load.NameBlind) (word : String) (args : List Object)
    (ha : a.processor.FontsCoherent s) :
    Keeps (FontsCoherent s) (a.takeOperator s word args) := by
  unfold takeOperator
  split
  · rename_i hexhausted
    refine ha.of_cache ?_
    unfold dispatch
    rw [if_pos hexhausted]
  · have hcounted : ({ a.processor with executed := a.processor.executed + 1 } :
        Processor).FontsCoherent s := ha.of_cache rfl
    dsimp only
    split
    · exact startText_coherent a word _ hcounted
    · rename_i hshow
      apply doWith_keeps
      · intro _
        exact .executeWord hblind hcounted hshow
      · intro run q hasked
        obtain ⟨rfl, hanswer⟩ := executeWord_of_asked hasked
        refine ⟨hcounted, fun e => ?_, fun r hr => ?_⟩
        · rw [hanswer]
          exact hcounted.of_cache rfl
        · rw [hanswer]
          exact hr

theorem takeItem_keeps (hblind : s.load.NameBlind) (pos : Nat) (item : Except Error Item)
    (ha : a.processor.FontsCoherent s) :
    Keeps (FontsCoherent s) (a.takeItem s pos item) := by
  have hpoll : (a.processor.poll s).FontsCoherent s := ha.of_cache (fontCache_poll ..)
  have hplaced : ({ a.processor.poll s with pos := pos } : Processor).FontsCoherent s :=
    hpoll.of_cache rfl
  unfold takeItem
  dsimp only
  split
  · exact ha.of_cache (fontCache_closeSections s a.processor.breakDown)
  · split
    · exact hpoll.of_cache (fontCache_closeSections ..)
    · split
      · exact hplaced
      · exact takeOperator_keeps hblind _ _ hplaced
      · exact .dispatchImage hblind hplaced _ _
      · exact hpoll.of_cache (fontCache_closeSections ..)
      · exact hplaced.of_cache rfl

/-- **One round** keeps the memory coherent. -/
theorem next_keeps (hblind : s.load.NameBlind) (a : Activation)
    (ha : a.processor.FontsCoherent s) :
    Keeps (FontsCoherent s) (a.next s) := by
  unfold next
  split
  · exact showNext_keeps a _ ha
  · exact takeItem_keeps hblind _ _ ha
  · exact ha
  · exact ha.of_cache (fontCache_closeSections ..)

end Activation

namespace Processor

theorem FontsCoherent.ended {s : Setting} {p : Processor} (h : p.FontsCoherent s) :
    p.ended.FontsCoherent s := by
  unfold Processor.ended
  split
  · exact .of_empty rfl
  · exact h.of_cache rfl

/-- **The memory of fonts is coherent**, at the end of a run and in every activation that it comes to,
if the loader builds fonts alike under all names (`Font.load_nameBlind`). A text in a remembered font is
shown just as in the font that would be built now, under whatever name. The operators that select fonts
tell the same as without the memory, and select fonts that are alike, so that strings have the same
codes, texts and advances. -/
theorem process_fonts_coherent (s : Setting) (hblind : s.load.NameBlind) (cancelIn : Option Nat)
    (segments : List (List UInt8)) (resources : Dict) :
    (∃ outcome q, (start s cancelIn).process s segments resources = .ok (outcome, q) ∧
      q.FontsCoherent s) ∧
    ∀ a, (Activation.ofSegments segments (beginPage s cancelIn resources)).Visits s a →
      a.processor.FontsCoherent s ∧
      (∀ r load font name fresh, a.processor.fontCache.lookup r = some (load, font) →
        s.buildFont name (.ref r) = .ok fresh → ∀ nested operator items p,
          showItems s nested operator ⟨name, load, font⟩ items p =
            showItems s nested operator ⟨name, load, fresh⟩ items p) ∧
      ∀ word ∈ ["Tf", "gs"], ∀ nested args,
        let q := a.processor.executeWord s nested word args
        let q' := a.processor.forgetFonts.executeWord s nested word args
        q.gstate.Alike q'.gstate ∧ q.log = q'.log ∧
          ∀ bytes, q.gstate.glyphs bytes = q'.gstate.glyphs bytes := by
  have hpage : (beginPage s cancelIn resources).FontsCoherent s := .of_empty rfl
  constructor
  · let page := Activation.ofSegments segments (beginPage s cancelIn resources)
    have hresult : (page.result s).FontsCoherent s :=
      Activation.result_keeps (Activation.next_keeps hblind) hpage
    refine ⟨(page.result s).outcome, (page.result s).ended, ?_, hresult.ended⟩
    rw [process_start, execute_beginPage]
  · intro a hvisits
    have ha : a.processor.FontsCoherent s := hvisits.keeps (Activation.next_keeps hblind) hpage
    refine ⟨ha, ?_, ?_⟩
    · intro r load font name fresh hr hfresh nested operator items p
      obtain ⟨fresh', hfresh', halike⟩ := ha r load font hr name
      obtain rfl : fresh = fresh' := Except.ok.inj (hfresh.symm.trans hfresh')
      have hselected : SelectedFont.Alike ⟨name, load, font⟩ ⟨name, load, fresh⟩ := ⟨rfl, halike⟩
      exact showItems_alike hselected rfl s nested operator items p
    · intro word hword nested args
      obtain ⟨hgstate, hlog⟩ := executeWord_alike hblind ha hword nested args
      exact ⟨hgstate, hlog, hgstate.glyphs⟩

/-- A document whose fifth object is a Type 3 font. -/
def type3Table : ObjectTable := [(⟨5, 0⟩, .dict [("Subtype", .name "Type3")])]

/-- Resources with two names for that font. -/
def twoNames : Dict := [("Font", .dict [("A", .ref ⟨5, 0⟩), ("B", .ref ⟨5, 0⟩)])]

/-- The page `/A 1 Tf /B 1 Tf` remembers the font under the name that led to it first, and selects it
by the other one. -/
theorem process_fonts_coherent_twoNames :
    let s : Setting := { table := type3Table }
    let content : List UInt8 := [47, 65, 32, 49, 32, 84, 102, 32, 47, 66, 32, 49, 32, 84, 102]
    ∃ outcome q, (start s).process s [content] twoNames = .ok (outcome, q) ∧ q.FontsCoherent s ∧
      ((q.fontCache.lookup ⟨5, 0⟩).bind fun known => known.2.fontName?) = some "A" ∧
      q.gstate.text.font.map SelectedFont.name = some "B" := by
  intro s content
  obtain ⟨outcome, q, hrun, hcoherent⟩ :=
    (process_fonts_coherent s Font.load_nameBlind none [content] twoNames).1
  have hpage := hrun
  rw [process_start, Except.ok.injEq, Prod.mk.injEq] at hpage
  refine ⟨outcome, q, hrun, hcoherent, ?_, ?_⟩
  · rw [← hpage.2]
    decide +kernel
  · rw [← hpage.2]
    decide +kernel

end Processor

end ContentStream
