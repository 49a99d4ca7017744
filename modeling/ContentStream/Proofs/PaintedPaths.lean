import ContentStream.Proofs.Rectangles
import ContentStream.Proofs.Visits

/-!
# Paths are painted as they were built

Listeners are told of a path where it is painted. This module traces each such event back to the round
that told of it, in whatever stream that round was.

* `Activation.Paints`: a round that takes up a painting operator, and the event of the pending path,
  closed if the operator closes it, in the space of the device.

**Theorem (`process_paints_pending`).** The pending path can be drawn at every moment. Every event of
a path was told by the round of a painting operator, and shows the path that was pending there. A
painting operator leaves no path and no clip behind.

A round tells of at most one path, and if so, of nothing before it (`paint_tells`). Everything else
that a round does tells of none (`next_paints`), so the run accounts for its paths. That the event has a
first move and a box is a matter of the pending path, which can be drawn at every moment.
-/

namespace ContentStream

/-! ## Painting operators -/

namespace Operator

/-- The words of the painting operators, and whether they close the path. -/
def paintingWords : List (String × Bool) :=
  [("S", false), ("s", true), ("f", false), ("F", false), ("f*", false), ("B", false), ("B*", false),
    ("b", true), ("b*", true), ("n", false)]

variable {word : String} {args : List Object} {close : Bool} {style : PaintStyle}

theorem instruction?_of_paintingWords (h : (word, close) ∈ paintingWords) :
    ∃ style, instruction? word [] = some (.paint style) ∧ style.close = close := by
  simp only [paintingWords, List.mem_cons, List.not_mem_nil, or_false, Prod.mk.injEq] at h
  rcases h with ⟨rfl, rfl⟩ | ⟨rfl, rfl⟩ | ⟨rfl, rfl⟩ | ⟨rfl, rfl⟩ | ⟨rfl, rfl⟩ | ⟨rfl, rfl⟩ |
    ⟨rfl, rfl⟩ | ⟨rfl, rfl⟩ | ⟨rfl, rfl⟩ | ⟨rfl, rfl⟩
  all_goals exact ⟨_, rfl, rfl⟩

theorem table_paint : ∀ entry ∈ table, entry.2.1 ∈ (Instruction.paint {}).operators →
    entry.2.2 = .exact 0 ∧ entry.1 ∈ paintingWords.map Prod.fst := by
  decide

theorem mem_paintingWords (h : instruction? word args = some (.paint style)) :
    args = [] ∧ (word, style.close) ∈ paintingWords := by
  obtain ⟨op, arity, hfind, harity, hread⟩ := instruction?_eq_some.1 h
  have hop : op ∈ (Instruction.paint style).operators := mem_operators_of_read hread
  obtain ⟨rfl, hword⟩ := table_paint _ (mem_table_of_find? hfind) hop
  have hlength : 0 = args.length := by simpa [Arity.accepts] using harity
  obtain rfl := List.eq_nil_of_length_eq_zero hlength.symm
  obtain ⟨⟨word, close⟩, hmem, rfl⟩ := List.mem_map.1 hword
  obtain ⟨style', hstyle, rfl⟩ := instruction?_of_paintingWords hmem
  obtain rfl : style' = style := by simpa [hstyle] using h
  exact ⟨rfl, hmem⟩

end Operator

/-! ## Paths in the space of the device -/

namespace Path

variable {m : Matrix} {path device : Path}

theorem BeginsWithMove.transform (h : path.BeginsWithMove)
    (hdevice : path.transform? m = some device) : device.BeginsWithMove := by
  obtain ⟨p, rest, rfl⟩ := h
  simp only [transform?, List.mapM_cons, Option.bind_eq_bind, Option.bind_eq_some_iff] at hdevice
  obtain ⟨s, hs, rest', -, hdevice⟩ := hdevice
  cases hdevice
  obtain ⟨q, -, rfl⟩ := Option.map_eq_some_iff.1 hs
  exact ⟨q, rest', rfl⟩

theorem BeginsWithMove.bbox (h : path.BeginsWithMove) :
    ∃ r, path.bbox? = some r ∧ r.Tight path.points := by
  obtain ⟨p, rest, rfl⟩ := h
  exact ⟨_, rfl, Rect.bound?_tight rfl⟩

end Path

/-! ## Events without paths -/

namespace Processor

variable {s : Setting} {p q r : Processor}

/-- From `p` to `q` no path is told of. -/
abbrev NoPaths : Processor → Processor → Prop := Silent fun e => e.payload.isPath = true

theorem noPaths_of_does (h : Does False (fun _ => True) p q) : NoPaths p q := h.events

theorem formEvents_noPath {run : NestedRun} {payload : FormInfo → EventPayload}
    (h : ∀ info, (payload info).isPath = false) :
    ∀ e ∈ formEvents s run payload p, ¬ e.payload.isPath = true := by
  intro e he
  unfold formEvents at he
  split at he
  · split at he
    · cases List.mem_singleton.1 he
      exact Bool.eq_false_iff.1 (h _)
    · cases he
  · cases he

theorem beginNested_noPaths (s : Setting) (p : Processor) (run : NestedRun) (clip : Option Path) :
    NoPaths p (p.beginNested s run clip) :=
  ⟨_, events_beginNested s p run clip, formEvents_noPath fun _ => rfl⟩

theorem endNested_noPaths (s : Setting) (p : Processor) (run : NestedRun) (inner : Processor) :
    NoPaths inner (p.endNested s run inner) :=
  ⟨_, events_endNested s p run inner, formEvents_noPath fun _ => rfl⟩

theorem noPaths_closeSections (h : NoPaths p q) : NoPaths p (q.closeSections s) :=
  h.trans (noPaths_of_does (closeSections_does s q fun _ _ => trivial))

theorem settle_same (pos : Nat) (word : String) (reply : Reply) :
    (settle pos word reply).path = reply.processor.path ∧
      (settle pos word reply).pendingClip = reply.processor.pendingClip ∧
      (settle pos word reply).events = reply.processor.events := by
  cases reply with
  | done q => exact ⟨rfl, rfl, rfl⟩
  | failed q e => exact ⟨rfl, rfl, events_report ..⟩

/-! ## Painting -/

@[simp] theorem pendingClip_emit (s : Setting) (p : Processor) (payload : EventPayload) :
    (p.emit s payload).pendingClip = p.pendingClip := by
  unfold emit
  split <;> rfl

theorem paintDevice_same (s : Setting) (p : Processor) (style : PaintStyle) (device : Path) :
    (p.paintDevice s style device).path = p.path ∧
      (p.paintDevice s style device).pendingClip = p.pendingClip := by
  unfold paintDevice
  split <;> simp

theorem applyClip_same (s : Setting) (p : Processor) (device : Path) (rule : FillRule) :
    (p.applyClip s device rule).path = p.path ∧
      (p.applyClip s device rule).pendingClip = p.pendingClip := by
  simp [applyClip]

/-- Painting uses up the path and the clip, also if the path has no place in device space. -/
theorem paint_clears (s : Setting) (p : Processor) (style : PaintStyle) :
    (p.paint s style).processor.path = {} ∧ (p.paint s style).processor.pendingClip = none := by
  unfold paint
  dsimp only
  split
  · exact ⟨rfl, rfl⟩
  · rename_i device _
    obtain ⟨hpath, hclip⟩ :=
      paintDevice_same s { p with path := {}, pendingClip := none } style device
    split
    · rename_i rule _
      obtain ⟨hpath', hclip'⟩ := applyClip_same s
        (paintDevice s { p with path := {}, pendingClip := none } style device) device rule
      exact ⟨hpath'.trans hpath, hclip'.trans hclip⟩
    · exact ⟨hpath, hclip⟩

/-- Behind the painted path comes at most a clip. -/
theorem paint_noPaths {style : PaintStyle} {device : Path}
    (h : Path.transform? p.gstate.ctm (p.path.finished style.close) = some device) :
    NoPaths (paintDevice s { p with path := {}, pendingClip := none } style device)
      (p.paint s style).processor := by
  unfold paint
  rw [h]
  dsimp only
  split
  · exact noPaths_of_does (applyClip_does s _ device _)
  · exact .of_eq rfl

/-- The event of a painted path. -/
def pathEvent (p : Processor) (info : PathInfo) : Event := ⟨p.depth, p.gstate, .path info⟩

/-- Painting tells of one path at most, and of that first. -/
theorem paint_tells (s : Setting) (p : Processor) (style : PaintStyle) :
    NoPaths p (p.paint s style).processor ∨ ∃ device later,
      Path.transform? p.gstate.ctm (p.path.finished style.close) = some device ∧ device ≠ [] ∧
      (p.paint s style).processor.events =
        p.events ++ p.pathEvent ⟨device, style.stroke, style.fill, Path.bbox? device⟩ :: later ∧
      ∀ e ∈ later, ¬ e.payload.isPath = true := by
  cases hdevice : Path.transform? p.gstate.ctm (p.path.finished style.close) with
  | none =>
    refine .inl (.of_eq ?_)
    simp only [paint, hdevice]
    rfl
  | some device =>
    have hclip : NoPaths _ (p.paint s style).processor := paint_noPaths (s := s) hdevice
    unfold paintDevice at hclip
    split at hclip
    · rename_i hpaints
      by_cases hlistening : s.listening = true
      · obtain ⟨later, hevents, hlater⟩ := hclip
        rw [events_emit, if_pos hlistening, List.append_assoc] at hevents
        refine .inr ⟨device, later, rfl, ?_, hevents, hlater⟩
        rintro rfl
        simp at hpaints
      · refine .inl (Silent.trans (.of_eq ?_) hclip)
        rw [events_emit, if_neg hlistening, List.append_nil]
        rfl
    · exact .inl hclip

end Processor

/-! ## The rounds of a run -/

namespace Activation

open Processor

variable {s : Setting} {a : Activation} {p q : Processor} {law : Event → Prop}

/-- The round takes up a painting operator without operands, and `e` is about the pending path in the
space of the device, which has a first move and a box that fits. -/
structure Paints (a : Activation) (e : Event) (info : PathInfo) : Prop where
  text : a.text = none
  operands : a.operands = []
  path : ∃ word close pos rest, (word, close) ∈ Operator.paintingWords ∧
    a.pending = (pos, .ok (.operator word)) :: rest ∧
    Path.transform? a.processor.gstate.ctm
      (a.processor.path.path ++ a.processor.path.closing close) = some info.path
  event : e = a.processor.pathEvent info
  begins : info.path.BeginsWithMove
  bbox : ∃ r, info.bbox = some r ∧ r.Tight info.path.points

/-- A round that tells of a path first, under a law, or of none. -/
abbrev RoundPaints (law : Event → Prop) : Processor → Next → Prop :=
  RoundTells (fun e => e.payload.isPath = true) law

theorem doWith_paints {asked : Option (NestedRun × Processor)} {next : NestedRunner → Activation}
    (hnone : asked = none → TellsFirst (fun e => e.payload.isPath = true) law p (next idle).processor)
    (hsome : ∀ run q, asked = some (run, q) → NoPaths p q ∧
      (∀ e, NoPaths q (next fun _ _ => .failed q e).processor) ∧
      ∀ r, NoPaths r (next fun _ _ => .done r).processor) :
    RoundPaints law p (doWith s asked next) := by
  unfold doWith
  split
  · exact hnone rfl
  · rename_i run q
    obtain ⟨hq, hfailed, hdone⟩ := hsome run q rfl
    split
    · rename_i e _
      exact .inl (hq.trans (hfailed e))
    · rename_i clip _
      refine ⟨.inl (hq.trans (beginNested_noPaths s q run clip)), fun r => ?_⟩
      exact (endNested_noPaths s q run r).trans (hdone _)

theorem afterPart_noPaths {t : ShownText} {reply : Reply} (h : NoPaths p reply.processor) :
    NoPaths p (a.afterPart t reply).processor := by
  cases reply with
  | done q => exact h
  | failed q e =>
    obtain ⟨-, -, hevents⟩ := settle_same t.pos t.word (.failed q e)
    exact h.trans (.of_eq hevents)

theorem showNext_paints (s : Setting) (a : Activation) (t : ShownText) :
    RoundPaints law a.processor (a.showNext s t) := by
  unfold showNext
  split
  · rename_i c codes _
    apply doWith_paints
    · intro _
      exact .inl (afterPart_noPaths (noPaths_of_does (showGlyph_idle_does s _ _ t.font c)))
    · intro run q hasked
      obtain ⟨hq, advance, hanswer⟩ := showGlyph_answered hasked
      refine ⟨noPaths_of_does hq, fun e => afterPart_noPaths ?_, fun r => afterPart_noPaths ?_⟩
      · rw [(hanswer _ q).2 e]
        exact noPaths_of_does (.trans (.report trivial) (.adjust _ _))
      · rw [(hanswer _ r).1]
        exact noPaths_of_does (.adjust r _)
  · exact .inl (.of_eq rfl)
  · exact .inl (afterPart_noPaths (noPaths_of_does (.adjust _ _)))
  · exact .inl (.of_eq rfl)

theorem startText_noPaths (a : Activation) (word : String) (p : Processor) (text : Showing) :
    NoPaths p (a.startText word p text).processor := by
  unfold startText
  split
  · exact noPaths_of_does (.fail (fun _ => trivial) (.invalidValue .noFont))
  · exact afterPart_noPaths (noPaths_of_does (startLine_does p text))

/-- An operator other than to paint tells of no path. -/
theorem takeOperator_paints {word : String} {args : List Object}
    (hpaint : ∀ style, Operator.instruction? word args = some (.paint style) →
      let p := { a.processor with executed := a.processor.executed + 1 }
      TellsFirst (fun e => e.payload.isPath = true) law p (settle p.pos word (p.paint s style))) :
    RoundPaints law a.processor (a.takeOperator s word args) := by
  unfold takeOperator
  split
  · rename_i hexhausted
    exact .inl (noPaths_of_does (dispatch_exhausted_does idle word args hexhausted))
  · apply RoundTells.of_eq (q := { a.processor with executed := a.processor.executed + 1 }) rfl
    dsimp only
    split
    · exact .inl (startText_noPaths ..)
    · rename_i hshow
      apply doWith_paints
      · intro _
        by_cases hstyle : ∃ style, Operator.instruction? word args = some (.paint style)
        · obtain ⟨style, hstyle⟩ := hstyle
          rw [executeWord_of_instruction hstyle]
          exact hpaint style hstyle
        · refine .inl (noPaths_of_does ?_)
          exact executeWord_idle_does s _ hshow (fun style h => hstyle ⟨style, h⟩) fun _ => trivial
      · intro run q hasked
        obtain ⟨rfl, hanswer⟩ := executeWord_of_asked hasked
        refine ⟨.of_eq rfl, fun e => ?_, fun r => ?_⟩
        · rw [hanswer]
          exact noPaths_of_does (.fail (fun _ => trivial) e)
        · rw [hanswer]
          exact .of_eq rfl

/-- A painting operator tells of the path at hand. -/
theorem paint_paints {word : String} {pos : Nat} {rest : List ItemAt} {style : PaintStyle}
    (ha : a.processor.path.Drawable) (htext : a.text = none)
    (hpending : a.pending = (pos, .ok (.operator word)) :: rest)
    (hstyle : Operator.instruction? word a.operands.reverse = some (.paint style))
    (hpath : p.path = a.processor.path) (hgstate : p.gstate = a.processor.gstate)
    (hdepth : p.depth = a.processor.depth) :
    TellsFirst (fun e => e.payload.isPath = true)
      (fun e => ∀ info, e.payload = .path info → a.Paints e info) p
      (settle p.pos word (p.paint s style)) := by
  obtain ⟨hoperands, hword⟩ := Operator.mem_paintingWords hstyle
  obtain ⟨-, -, htold⟩ := settle_same p.pos word (p.paint s style)
  rcases paint_tells s p style with hnone | ⟨device, later, hdevice, hne, hpaint, hlater⟩
  · exact .inl (hnone.trans (.of_eq htold))
  · rw [hpath, hgstate] at hdevice
    have hbegins : device.BeginsWithMove := by
      refine (ha.finished_begins style.close fun hempty => hne ?_).transform hdevice
      rw [hempty] at hdevice
      exact (Option.some.inj hdevice).symm
    refine .inr ⟨_, later, htold.trans hpaint, fun info hinfo => ?_, hlater⟩
    cases hinfo
    exact {
      text := htext
      operands := List.reverse_eq_nil_iff.1 hoperands
      path := by
        refine ⟨word, style.close, pos, rest, hword, hpending, ?_⟩
        rw [← PathBuilder.finished_eq, hdevice]
      event := by simp only [pathEvent, hgstate, hdepth]
      begins := hbegins
      bbox := hbegins.bbox }

theorem takeItem_paints {pos : Nat} {item : Except Error Item} {rest : List ItemAt}
    (ha : a.processor.path.Drawable) (htext : a.text = none)
    (hpending : a.pending = (pos, item) :: rest) :
    RoundPaints (fun e => ∀ info, e.payload = .path info → a.Paints e info) a.processor
      ({ a with pending := rest }.takeItem s pos item) := by
  have hpath : (a.processor.poll s).path = a.processor.path := by rw [poll_eq]
  have hgstate : (a.processor.poll s).gstate = a.processor.gstate := by rw [poll_eq]
  have hdepth : (a.processor.poll s).depth = a.processor.depth := by rw [poll_eq]
  have hevents : (a.processor.poll s).events = a.processor.events := by
    rw [poll_eq]
    rfl
  have hpoll : NoPaths a.processor (a.processor.poll s) := .of_eq hevents
  have hplaced : NoPaths a.processor { a.processor.poll s with pos := pos } := .of_eq hevents
  unfold takeItem
  dsimp only
  split
  · exact noPaths_closeSections (.of_eq (events_breakDown _))
  · split
    · exact noPaths_closeSections hpoll
    · split
      · exact .inl hplaced
      · apply RoundTells.of_eq (q := { a.processor.poll s with pos := pos }) hevents
        refine takeOperator_paints fun style hstyle => ?_
        exact paint_paints ha htext hpending hstyle hpath hgstate hdepth
      · exact .inl (hplaced.trans
          (noPaths_of_does (dispatchImage_does s _ _ _ fun _ => trivial)))
      · exact noPaths_closeSections hplaced
      · exact .inl (hplaced.trans (noPaths_of_does (.report trivial)))

/-- **One round** paints the pending path, or tells of no path. -/
theorem next_paints (s : Setting) (ha : a.processor.path.Drawable) :
    RoundPaints (fun e => ∀ info, e.payload = .path info → a.Paints e info) a.processor
      (a.next s) := by
  unfold next
  split
  · exact showNext_paints s a _
  · rename_i ht hpending
    exact takeItem_paints ha ht hpending
  · exact .inl (.of_eq rfl)
  · exact noPaths_closeSections (.of_eq rfl)

end Activation

namespace Processor

theorem dispatch_paint_clears (s : Setting) (nested : NestedRunner) (p : Processor) {word : String}
    {close : Bool} (hword : (word, close) ∈ Operator.paintingWords) (h : p.exhausted s = false) :
    (p.dispatch s nested word []).path = {} ∧ (p.dispatch s nested word []).pendingClip = none := by
  obtain ⟨style, hstyle, -⟩ := Operator.instruction?_of_paintingWords hword
  rw [dispatch, h, if_neg Bool.false_ne_true, executeWord_of_instruction hstyle, perform]
  obtain ⟨hpath, hclip, -⟩ := settle_same p.pos word
    (paint s { p with executed := p.executed + 1 } style)
  obtain ⟨hpath', hclip'⟩ := paint_clears s { p with executed := p.executed + 1 } style
  exact ⟨hpath.trans hpath', hclip.trans hclip'⟩

/-- **Paths are painted as they were built.** At every moment of a run, and in every activation that
it comes to, the pending path can be drawn. Each path among the events that are heard was told of by the
round of a painting operator, behind the events before it. The path is the one that was pending there,
closed if the operator closes it, in the space of the device. It begins with a move, and its box is the
smallest around its points. A painting operator that is dispatched leaves neither a path nor a clip
behind, whatever becomes of the path. -/
theorem process_paints_pending (s : Setting) (cancelIn : Option Nat) (segments : List (List UInt8))
    (resources : Dict) :
    let page := Activation.ofSegments segments (beginPage s cancelIn resources)
    (∀ n running q, Moment s (beginPage s cancelIn resources) n running q → q.path.Drawable) ∧
    (∀ a, page.Visits s a → a.processor.path.Drawable) ∧
    (∃ outcome q, (start s cancelIn).process s segments resources = .ok (outcome, q) ∧
      ∀ before e after info, q.events = before ++ e :: after → e.payload = .path info →
        ∃ a, page.Visits s a ∧ a.Tells s before e ∧ a.Paints e info) ∧
    ∀ (word : String) (close : Bool) (nested : NestedRunner) (p : Processor),
      (word, close) ∈ Operator.paintingWords → p.exhausted s = false →
        (p.dispatch s nested word []).path = {} ∧
          (p.dispatch s nested word []).pendingClip = none := by
  intro page
  have hdrawable : ∀ a, page.Visits s a → a.processor.path.Drawable := by
    intro a ha
    obtain ⟨n, running, hmoment⟩ := ha.moment_of_page
    exact hmoment.drawable
  refine ⟨fun n running q h => h.drawable, hdrawable, ?_,
    fun word close nested p hword h => dispatch_paint_clears s nested p hword h⟩
  refine ⟨(page.result s).outcome, (page.result s).ended, ?_, ?_⟩
  · rw [process_start, execute_beginPage]
  · intro before e after info heq hpath
    obtain ⟨a, ha, htells, hpaints⟩ := process_accounts
      (fun c hc => Activation.next_paints s (hdrawable c hc)) heq (by rw [hpath]; rfl)
    exact ⟨a, ha, htells, hpaints info hpath⟩

/-- The page `0 0 m 1 0 l s` tells of one path, which the operator closes. -/
example :
    ((start {}).process {} [[48, 32, 48, 32, 109, 32, 49, 32, 48, 32, 108, 32, 115]] []).toOption.map
        (fun run => run.2.events.map Event.payload) =
      some [.path ⟨[.moveTo ⟨0, 0⟩, .lineTo ⟨1, 0⟩, .close], true, none, some ⟨0, 0, 1, 0⟩⟩] := by
  with_unfolding_all rfl

end Processor

end ContentStream
