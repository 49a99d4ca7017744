import ContentStream.Proofs.OperatorOffsets
import ContentStream.Proofs.RoundEffects
import ContentStream.Proofs.Termination

/-!
# Diagnostics point into their stream

All streams of a run share one place at hand, which each of them overwrites with offsets of its own. A
diagnostic takes its offset from there.

* `Recorded`: a diagnostic, with the stream that was running when it was recorded and the item that the
  stream had at hand.
* `Activation.Records`: the diagnostics that come up round by round, each with the stream whose round it
  is. A stream inside has rounds of its own.
* `Recorded.Placed`: the diagnostic has the depth of its stream and an offset within it, and if it is
  about an operator, then the operator is the item at hand and its word stands at that offset.

**Theorem (`process_diagnostics_placed`).** There is one way in which the diagnostics of a page come up,
and every one of them is placed.

Two facts carry the proof from round to round (`Activation.Stands`). The place at hand is the offset of
the item at hand, also behind a stream that ran inside, which puts the place back. And a stream that
has not taken up any item has no section open, so there is nothing to report at its end.
-/

namespace ContentStream

namespace Processor

/-! ## The ends of streams -/

theorem abort_emit (s : Setting) (p : Processor) (payload : EventPayload) :
    (p.emit s payload).abort = p.abort := by
  unfold emit
  split <;> rfl

theorem beginNested_adds (s : Setting) (p : Processor) (run : NestedRun) (clip : Option Path) :
    (p.beginNested s run clip).abort = p.abort ∧
      (p.beginNested s run clip).diagnostics = p.diagnostics := by
  show (p.enter s run clip).abort = p.abort ∧ (p.enter s run clip).diagnostics = p.diagnostics
  unfold enter enterForm
  cases run.source with
  | form info ref => cases clip <;> exact ⟨abort_emit .., diagnostics_emit ..⟩
  | glyph font procedure => exact ⟨rfl, rfl⟩

theorem noteTruncation_abort (p : Processor) (pos : Nat) :
    p.noteTruncation.abort ≠ some (.truncated pos) := by
  intro h
  unfold noteTruncation at h
  split at h
  · cases h
  · rename_i hother
    exact hother pos h

/-- Behind a stream that ran inside, the place is the old one again. What was reported of the inner
stream breaking off is the last that came up in it. -/
theorem endNested_adds (s : Setting) (p : Processor) (run : NestedRun) (inner : Processor) :
    (p.endNested s run inner).pos = p.pos ∧
      (∀ pos, (p.endNested s run inner).abort ≠ some (.truncated pos)) ∧
      (p.endNested s run inner).diagnostics = inner.noteTruncation.diagnostics := by
  have hfloor : ({ inner with sectionFloor := p.sectionFloor } : Processor).noteTruncation =
      { inner.noteTruncation with sectionFloor := p.sectionFloor } := by
    cases habort : inner.abort with
    | none => simp only [noteTruncation, habort]
    | some reason =>
      cases reason with
      | truncated pos =>
        simp only [noteTruncation, habort]
        rfl
      | _ => simp only [noteTruncation, habort]
  have hend : ∀ q : Processor, (q.endSource s run.source).abort = q.abort ∧
      (q.endSource s run.source).diagnostics = q.diagnostics := by
    intro q
    cases run.source with
    | form info ref => exact ⟨abort_emit s q (.formEnd info), diagnostics_emit ..⟩
    | glyph font procedure => exact ⟨rfl, rfl⟩
  unfold endNested
  rw [hfloor]
  obtain ⟨habort, hdiagnostics⟩ := hend { inner.noteTruncation with sectionFloor := p.sectionFloor }
  refine ⟨rfl, fun pos h => ?_, hdiagnostics⟩
  exact noteTruncation_abort inner pos (habort.symm.trans h)

end Processor

/-- The operator that shows a text is known by its word. -/
theorem Operator.operator_of_show {word : String} {args : List Object} {text : Showing}
    (h : Operator.instruction? word args = some (.show text)) : text.operator = word := by
  obtain ⟨op, arity, -, -, hread⟩ := Operator.instruction?_eq_some.1 h
  have hop := mem_operators_of_read hread
  simp only [Instruction.operators, List.mem_cons, List.not_mem_nil, or_false] at hop
  rcases hop with rfl | rfl | rfl | rfl
  all_goals
    simp only [Operator.read, bind, Except.bind, pure, Except.pure] at hread
    repeat' split at hread
  all_goals cases hread
  all_goals rfl

/-! ## Records -/

/-- A stream that is running, and how many streams lie around it. -/
structure RunningStream where
  content : List (List UInt8)
  depth : Nat

/-- A diagnostic, with the stream that was running and the item that it had at hand. -/
structure Recorded where
  stream : RunningStream
  item : Option ItemAt
  diagnostic : Diagnostic

/-- A diagnostic points to where it belongs. -/
structure Recorded.Placed (r : Recorded) : Prop where
  depth : r.diagnostic.depth = r.stream.depth
  pos_le : r.diagnostic.pos ≤ r.stream.content.flatten.length
  operator : ∀ word, r.diagnostic.operator = some word →
    Content.HasToken r.stream.content r.diagnostic.pos (.operator word) ∧
      ∃ value, r.item = some (r.diagnostic.pos, .ok value) ∧
        (r.diagnostic.pos, .ok value) ∈ Content.items r.stream.content ∧ value.word? = some word

namespace Activation

open Processor

variable {s : Setting} {a b inner : Activation} {p q : Processor} {stream : RunningStream}
  {item last : Option ItemAt}

/-- The item that a round takes up, or the one that was taken up last. -/
def itemAt (a : Activation) (last : Option ItemAt) : Option ItemAt :=
  match a.text, a.pending with
  | none, item :: _ => some item
  | _, _ => last

/-- The bytes that have not been read. For a stream that starts, these are all its bytes. -/
def ahead (a : Activation) : List UInt8 :=
  match a.reader with
  | none => []
  | some (c, _) => c.rest

/-- The diagnostics that came up from `p` to `q`, all in one stream. -/
def recorded (stream : RunningStream) (item : Option ItemAt) (p q : Processor) : List Recorded :=
  (q.diagnostics.drop p.diagnostics.length).map (Recorded.mk stream item)

/-- An activation of a stream comes to its end, and these diagnostics come up on the way. A stream that
runs inside is over when it has been noted whether it broke off. -/
inductive Records (s : Setting) :
    RunningStream → (last : Option ItemAt) → Activation → List Recorded → Processor → Prop
  | done {stream : RunningStream} {last : Option ItemAt} {a : Activation} {p : Processor} :
      a.next s = .done p → Records s stream last a (recorded stream (a.itemAt last) a.processor p) p
  | goOn {stream : RunningStream} {last : Option ItemAt} {a b : Activation} {p : Processor}
      {later : List Recorded} :
      a.next s = .goOn b → Records s stream (a.itemAt last) b later p →
      Records s stream last a (recorded stream (a.itemAt last) a.processor b.processor ++ later) p
  | call {stream : RunningStream} {last : Option ItemAt} {a inner : Activation}
      {resume : Processor → Activation} {p q : Processor} {within later : List Recorded} :
      a.next s = .call inner resume →
      Records s ⟨[inner.ahead], stream.depth + 1⟩ none inner within q →
      Records s stream (a.itemAt last) (resume q) later p →
      Records s stream last a
        (within ++ recorded ⟨[inner.ahead], stream.depth + 1⟩ none q q.noteTruncation ++
          recorded stream (a.itemAt last) q.noteTruncation (resume q).processor ++ later) p

/-! ## Where a stream stands -/

/-- The place at hand is that of the item at hand, and without an item there is no section open. -/
structure StandsAt (stream : RunningStream) (item : Option ItemAt) (p : Processor) : Prop where
  depth : p.depth = stream.depth
  pos : ∀ i, item = some i → p.pos = i.1
  fresh : item = none → p.openSections = 0
  abort : ∀ pos, p.abort ≠ some (.truncated pos)

/-- An activation of a stream, with the item that was taken up last. -/
structure Stands (stream : RunningStream) (item : Option ItemAt) (a : Activation) : Prop where
  processor : StandsAt stream item a.processor
  taken : ∀ i, item = some i → i ∈ Content.items stream.content
  unread : ∀ i ∈ a.pending ++ a.reader.items, i ∈ Content.items stream.content
  text : ∀ t, a.text = some t →
    t.operator = t.word ∧ item = some (t.pos, .ok (.operator t.word))

/-- The law for diagnostics that come up while an item is at hand. -/
def PlacedAt (stream : RunningStream) (item : Option ItemAt) (d : Diagnostic) : Prop :=
  Recorded.Placed ⟨stream, item, d⟩

theorem StandsAt.does {i : ItemAt} {law : Diagnostic → Prop} (hp : StandsAt stream (some i) p)
    (h : Does True law p q) : StandsAt stream (some i) q where
  depth := h.depth.trans hp.depth
  pos := fun j hj => h.pos.trans (hp.pos j hj)
  fresh := fun hnone => by cases hnone
  abort := fun pos hpos => hp.abort pos (h.abort pos hpos)

/-- What is reported of the operator or the image at hand is placed. -/
theorem StandsAt.placed_word {pos : Nat} {value : Item} {word : String}
    (hp : StandsAt stream (some (pos, .ok value)) p)
    (hmem : (pos, .ok value) ∈ Content.items stream.content) (hword : value.word? = some word)
    (e : Error) :
    PlacedAt stream (some (pos, .ok value)) ⟨p.pos, p.depth, some word, e⟩ := by
  have hpos : p.pos = pos := hp.pos _ rfl
  refine ⟨hp.depth, ?_, fun word' hword' => ?_⟩
  · rw [hpos]
    exact Content.pos_le_of_mem_items hmem
  · obtain rfl : word = word' := Option.some.inj hword'
    dsimp only
    rw [hpos]
    exact ⟨Content.atWord_of_mem_items hmem value word rfl hword, value, rfl, hmem, hword⟩

/-- What is reported of no operator is placed if the place lies within the stream. -/
theorem placed_plain {d : Diagnostic} (hdepth : d.depth = stream.depth)
    (hpos : d.pos ≤ stream.content.flatten.length) (hplain : d.operator = none) :
    PlacedAt stream item d :=
  ⟨hdepth, hpos, fun word hword => by rw [hplain] at hword; cases hword⟩

/-- A stream with sections open has taken up an item, and stands there. -/
theorem Stands.pos_le (ha : a.Stands stream item) (hopen : a.processor.openSections ≠ 0) :
    a.processor.pos ≤ stream.content.flatten.length := by
  cases item with
  | none => exact absurd (ha.processor.fresh rfl) hopen
  | some i =>
    rw [ha.processor.pos i rfl]
    exact Content.pos_le_of_mem_items (ha.taken i rfl)

/-! ## One round -/

/-- The diagnostics that come up are placed. -/
def Brings (stream : RunningStream) (item : Option ItemAt) (before after : List Diagnostic) : Prop :=
  ∃ told, after = before ++ told ∧ ∀ d ∈ told, PlacedAt stream item d

theorem Brings.refl {before : List Diagnostic} : Brings stream item before before :=
  ⟨[], (List.append_nil _).symm, by simp⟩

/-- An activation that a stream goes on with, and what comes up until then. -/
def Arrives (stream : RunningStream) (item : Option ItemAt) (before : List Diagnostic)
    (b : Activation) : Prop :=
  b.Stands stream item ∧ Brings stream item before b.processor.diagnostics

/-- The end of a stream. -/
def Ends (stream : RunningStream) (p : Processor) : Prop :=
  p.depth = stream.depth ∧
    ∀ pos, p.abort = some (.truncated pos) → pos ≤ stream.content.flatten.length

/-- What a round comes to. -/
def Round (stream : RunningStream) (item : Option ItemAt) (before : List Diagnostic) : Next → Prop
  | .done p => Ends stream p ∧ Brings stream item before p.diagnostics
  | .goOn b => Arrives stream item before b
  | .call inner resume =>
    inner.Stands ⟨[inner.ahead], stream.depth + 1⟩ none ∧
      inner.processor.diagnostics = before ∧
      ∀ q, q.depth = stream.depth + 1 →
        Arrives stream item q.noteTruncation.diagnostics (resume q)

/-- A stream that starts has taken up nothing. -/
theorem stands_ofSegments {segments : List (List UInt8)}
    (hcontent : stream.content = segments) (hdepth : p.depth = stream.depth)
    (hsections : p.openSections = 0) (habort : ∀ pos, p.abort ≠ some (.truncated pos)) :
    (ofSegments segments p).Stands stream none where
  processor := ⟨hdepth, fun i hi => (by cases hi), fun _ => hsections, habort⟩
  taken := fun i hi => by cases hi
  unread := fun i hi => by
    rw [hcontent]
    exact hi
  text := fun t ht => by cases ht

/-- A stream ends, and its sections with it. -/
theorem closeSections_round (hdepth : p.depth = stream.depth)
    (hpos : p.openSections ≠ 0 → p.pos ≤ stream.content.flatten.length)
    (habort : ∀ pos, p.abort = some (.truncated pos) → pos ≤ stream.content.flatten.length) :
    Round stream item p.diagnostics (.done (p.closeSections s)) := by
  have hclose : Does True (PlacedAt stream item) p (p.closeSections s) :=
    closeSections_does s p fun hopen _ => placed_plain hdepth (hpos hopen) rfl
  refine ⟨⟨hclose.depth.trans hdepth, fun pos h => ?_⟩, hclose.diagnostics⟩
  exact habort pos (hclose.abort pos h)

/-- Something that asks for at most one stream, and goes on with the answer. -/
theorem doWith_round {i : ItemAt} {asked : Option (NestedRun × Processor)}
    {next : NestedRunner → Activation}
    (hnone : asked = none → Arrives stream (some i) p.diagnostics (next idle))
    (hsome : ∀ run q, asked = some (run, q) →
      q.diagnostics = p.diagnostics ∧ StandsAt stream (some i) q ∧
      (∀ e, Arrives stream (some i) q.diagnostics (next fun _ _ => .failed q e)) ∧
      ∀ r, StandsAt stream (some i) r →
        Arrives stream (some i) r.diagnostics (next fun _ _ => .done r)) :
    Round stream (some i) p.diagnostics (doWith s asked next) := by
  unfold doWith
  split
  · exact hnone rfl
  · rename_i run q
    obtain ⟨hsame, hq, hfailed, hdone⟩ := hsome run q rfl
    split
    · rename_i e _
      exact hsame ▸ hfailed e
    · rename_i clip _
      obtain ⟨habort, hdiagnostics⟩ := beginNested_adds s q run clip
      refine ⟨stands_ofSegments ?_ ?_ ?_ ?_, hdiagnostics.trans hsame, fun inner hinner => ?_⟩
      · exact congrArg (fun data => [data]) (List.append_nil run.data)
      · rw [depth_beginNested, hq.depth]
      · simp [beginNested, openSections]
      · rw [habort]
        exact hq.abort
      · obtain ⟨hpos, habort, hback⟩ := endNested_adds s q run inner
        have hstands : StandsAt stream (some i) (q.endNested s run inner) := by
          refine ⟨?_, fun j hj => hpos.trans (hq.pos j hj), fun h => (by cases h), habort⟩
          rw [depth_endNested, hinner, Nat.add_sub_cancel]
        exact hback ▸ hdone _ hstands

/-- A part of a text has been shown, and the rest of it is still to be shown. -/
theorem afterPart_reaches {t : ShownText} {reply : Reply} {word : String} {pos : Nat}
    (hword : t.word = word) (hpos : t.pos = pos) (hoperator : t.operator = word)
    (hp : StandsAt stream (some (pos, .ok (.operator word))) p)
    (hmem : (pos, .ok (.operator word)) ∈ Content.items stream.content)
    (hunread : ∀ i ∈ a.pending ++ a.reader.items, i ∈ Content.items stream.content)
    (h : Does True (PlacedAt stream (some (pos, .ok (.operator word)))) p reply.processor) :
    Arrives stream (some (pos, .ok (.operator word))) p.diagnostics (a.afterPart t reply) := by
  subst hword hpos
  have htaken : ∀ i, some (t.pos, Except.ok (.operator t.word)) = some i →
      i ∈ Content.items stream.content := by
    rintro i ⟨⟩
    exact hmem
  cases reply with
  | done q =>
    refine ⟨⟨hp.does h, htaken, hunread, fun t' ht' => ?_⟩, h.diagnostics⟩
    obtain rfl : t = t' := Option.some.inj ht'
    exact ⟨hoperator, rfl⟩
  | failed q e =>
    have hsettled := h.settle fun e => hp.placed_word hmem rfl e
    rw [hp.pos _ rfl] at hsettled
    exact ⟨⟨hp.does hsettled, htaken, hunread, fun t' ht' => by cases ht'⟩, hsettled.diagnostics⟩

theorem showNext_round {t : ShownText} (ha : a.Stands stream item) (ht : a.text = some t) :
    Round stream item a.processor.diagnostics (a.showNext s t) := by
  obtain ⟨hword, rfl⟩ := ha.text t ht
  have hmem := ha.taken _ rfl
  have hp := ha.processor
  unfold showNext
  split
  · rename_i c codes _
    apply doWith_round
    · intro _
      exact afterPart_reaches rfl rfl hword hp hmem ha.unread (showGlyph_idle_does s _ _ t.font c)
    · intro run q hasked
      obtain ⟨hq, advance, hanswer⟩ := showGlyph_answered hasked
      refine ⟨hq.diagnostics_eq, hp.does hq, fun e => ?_, fun r hr => ?_⟩
      · refine afterPart_reaches rfl rfl hword (hp.does hq) hmem ha.unread ?_
        rw [(hanswer _ q).2 e, hword]
        exact (Does.report ((hp.does hq).placed_word hmem rfl e)).trans (.adjust _ _)
      · refine afterPart_reaches rfl rfl hword hr hmem ha.unread ?_
        rw [(hanswer _ r).1]
        exact .adjust r _
  · rename_i bytes items _
    refine ⟨⟨hp, ha.taken, ha.unread, fun t' ht' => ?_⟩, .refl⟩
    obtain rfl := Option.some.inj ht'
    exact ⟨hword, rfl⟩
  · exact afterPart_reaches rfl rfl hword hp hmem ha.unread (.adjust _ _)
  · exact ⟨⟨hp, ha.taken, ha.unread, fun t' ht' => by cases ht'⟩, .refl⟩

/-- An operator starts to show a text. -/
theorem startText_reaches {word : String} {pos : Nat} {text : Showing} (hword : text.operator = word)
    (hp : StandsAt stream (some (pos, .ok (.operator word))) p)
    (hmem : (pos, .ok (.operator word)) ∈ Content.items stream.content)
    (ha : a.Stands stream (some (pos, .ok (.operator word)))) (htext : a.text = none) :
    Arrives stream (some (pos, .ok (.operator word))) p.diagnostics (a.startText word p text) := by
  unfold startText
  split
  · have hsettled : Does True _ p _ := .fail (hp.placed_word hmem rfl) (.invalidValue .noFont)
    refine ⟨⟨hp.does hsettled, ha.taken, ha.unread, fun t ht => ?_⟩, hsettled.diagnostics⟩
    rw [htext] at ht
    cases ht
  · exact afterPart_reaches rfl (hp.pos _ rfl) hword hp hmem ha.unread (startLine_does p text)

theorem takeOperator_round {word : String} {args : List Object} {pos : Nat}
    (ha : a.Stands stream (some (pos, .ok (.operator word)))) (htext : a.text = none) :
    Round stream (some (pos, .ok (.operator word))) a.processor.diagnostics
      (a.takeOperator s word args) := by
  have hmem := ha.taken _ rfl
  have hwith : ∀ q, StandsAt stream (some (pos, .ok (.operator word))) q →
      ({ a with processor := q } : Activation).Stands stream (some (pos, .ok (.operator word))) :=
    fun q hq => ⟨hq, ha.taken, ha.unread, ha.text⟩
  unfold takeOperator
  split
  · rename_i hexhausted
    have hstopped : Does True (PlacedAt stream (some (pos, .ok (.operator word)))) a.processor _ :=
      dispatch_exhausted_does idle word args hexhausted
    exact ⟨hwith _ (ha.processor.does hstopped), hstopped.diagnostics⟩
  · have hcounted : Does True (PlacedAt stream (some (pos, .ok (.operator word)))) a.processor
        { a.processor with executed := a.processor.executed + 1 } := .of_same rfl rfl rfl rfl id
    have hp := ha.processor.does hcounted
    dsimp only
    split
    · rename_i text hinstruction
      exact startText_reaches (Operator.operator_of_show hinstruction) hp hmem ha htext
    · rename_i hshow
      apply doWith_round
      · intro _
        have hword := executeWord_idle_does s _ hshow (fun _ _ => trivial) (hp.placed_word hmem rfl)
        exact ⟨hwith _ (hp.does hword), hword.diagnostics⟩
      · intro run q hasked
        obtain ⟨rfl, hanswer⟩ := executeWord_of_asked hasked
        refine ⟨rfl, hp, fun e => ?_, fun r hr => ?_⟩
        · have hsettled : Does True _ _ _ := .fail (hp.placed_word hmem rfl) e
          rw [hanswer]
          exact ⟨hwith _ (hp.does hsettled), hsettled.diagnostics⟩
        · rw [hanswer]
          exact ⟨hwith _ hr, .refl⟩

/-- An item is taken up. From here on the place is its own. -/
theorem takeItem_round {pos : Nat} {value : Except Error Item} {rest : List ItemAt}
    (ha : a.Stands stream last) (htext : a.text = none) (hpending : a.pending = (pos, value) :: rest) :
    Round stream (some (pos, value)) a.processor.diagnostics
      ({ a with pending := rest }.takeItem s pos value) := by
  have hpoll : Does True (fun _ => False) a.processor (a.processor.poll s) := poll_does s _
  have hdepth : (a.processor.poll s).depth = stream.depth := hpoll.depth.trans ha.processor.depth
  have habort : ∀ pos, (a.processor.poll s).abort ≠ some (.truncated pos) := fun pos h =>
    ha.processor.abort pos (hpoll.abort pos h)
  have hmem : (pos, value) ∈ Content.items stream.content := ha.unread _ (by simp [hpending])
  have hle : pos ≤ stream.content.flatten.length := Content.pos_le_of_mem_items hmem
  have hp : StandsAt stream (some (pos, value)) { a.processor.poll s with pos := pos } := by
    refine ⟨hdepth, ?_, fun h => (by cases h), habort⟩
    rintro i ⟨⟩
    rfl
  have hstands : ∀ (operands : List Object) (q : Processor), StandsAt stream (some (pos, value)) q →
      ({ a with pending := rest, operands := operands, processor := q } : Activation).Stands stream
        (some (pos, value)) := by
    intro operands q hq
    refine ⟨hq, ?_, fun i hi => ha.unread i ?_, fun t ht => ?_⟩
    · rintro i ⟨⟩
      exact hmem
    · rw [hpending]
      exact List.mem_cons_of_mem _ hi
    · rw [htext] at ht
      cases ht
  have hgoOn : ∀ (operands : List Object) (q : Processor),
      Does True (PlacedAt stream (some (pos, value))) { a.processor.poll s with pos := pos } q →
      Arrives stream (some (pos, value)) (a.processor.poll s).diagnostics
        { a with pending := rest, operands := operands, processor := q } :=
    fun operands q hq => ⟨hstands operands q (hp.does hq), hq.diagnostics⟩
  unfold takeItem
  dsimp only
  split
  · rw [← diagnostics_breakDown]
    exact closeSections_round ha.processor.depth ha.pos_le fun pos h => by cases h
  rw [← hpoll.diagnostics_eq]
  split
  · refine closeSections_round hdepth (fun hopen => ?_) fun pos h => absurd h (habort pos)
    have hsections : (a.processor.poll s).openSections = a.processor.openSections := by
      rw [poll_eq]
      rfl
    rw [hpoll.pos]
    exact ha.pos_le (hsections ▸ hopen)
  · split
    · exact hgoOn _ _ (.refl _)
    · exact takeOperator_round (hstands [] _ hp) htext
    · exact hgoOn [] _ (dispatchImage_does s _ _ _ (hp.placed_word hmem rfl))
    · refine closeSections_round hdepth (fun _ => hle) ?_
      rintro pos' ⟨⟩
      exact hle
    · exact hgoOn _ _ (.report (placed_plain hdepth hle rfl))

/-- **One round.** What comes up in it is placed, by the item that the round takes up or the last
one. -/
theorem next_round (s : Setting) (ha : a.Stands stream last) :
    Round stream (a.itemAt last) a.processor.diagnostics (a.next s) := by
  unfold next
  split
  · rename_i t ht
    have hat : a.itemAt last = last := by simp only [itemAt, ht]
    rw [hat]
    exact showNext_round ha ht
  · rename_i pos value rest ht hpending
    have hat : a.itemAt last = some (pos, value) := by simp only [itemAt, ht, hpending]
    rw [hat]
    exact takeItem_round ha ht hpending
  · rename_i c b ht hpending hreader
    have hat : a.itemAt last = last := by simp only [itemAt, ht, hpending]
    rw [hat]
    refine ⟨⟨ha.processor, ha.taken, fun i hi => ha.unread i ?_, ha.text⟩, .refl⟩
    simp only [hpending, hreader, Reader.items, (c.readOn_spec b).1, List.nil_append]
    exact hi
  · rename_i ht hpending hreader
    have hat : a.itemAt last = last := by simp only [itemAt, ht, hpending]
    rw [hat]
    refine closeSections_round ha.processor.depth ha.pos_le fun pos h => ?_
    exact absurd h (ha.processor.abort pos)

theorem round_of_next {next : Next} (ha : a.Stands stream last) (h : a.next s = next) :
    Round stream (a.itemAt last) a.processor.diagnostics next := h ▸ next_round s ha

/-! ## Runs -/

/-- What comes up from `p` to `q` is recorded in full, and placed. -/
theorem Brings.recorded (h : Brings stream item p.diagnostics q.diagnostics) :
    q.diagnostics = p.diagnostics ++ (recorded stream item p q).map Recorded.diagnostic ∧
      ∀ r ∈ recorded stream item p q, r.Placed := by
  obtain ⟨told, htold, hplaced⟩ := h
  have hrecorded : Activation.recorded stream item p q = told.map (Recorded.mk stream item) := by
    rw [Activation.recorded, htold, List.drop_left]
  rw [hrecorded]
  refine ⟨?_, List.forall_mem_map.2 hplaced⟩
  rw [htold, List.map_map]
  exact congrArg _ (List.map_id told).symm

/-- That a stream broke off is noted where it did. -/
theorem Ends.noteTruncation (h : Ends stream q) :
    Brings stream item q.diagnostics q.noteTruncation.diagnostics := by
  unfold Processor.noteTruncation
  split
  · rename_i pos habort
    refine ⟨_, diagnostics_report .., List.forall_mem_singleton.2 ?_⟩
    exact placed_plain h.1 (h.2 pos habort) rfl
  · exact .refl

/-- The diagnostics of a run are those that are recorded, and all of them are placed. -/
theorem Records.placed {told : List Recorded} (h : Records s stream last a told p)
    (ha : a.Stands stream last) :
    Ends stream p ∧
      p.diagnostics = a.processor.diagnostics ++ told.map Recorded.diagnostic ∧
      ∀ r ∈ told, r.Placed := by
  induction h with
  | done hnext =>
    obtain ⟨hends, hbrings⟩ := round_of_next ha hnext
    exact ⟨hends, hbrings.recorded⟩
  | goOn hnext _ ih =>
    obtain ⟨hb, hbrings⟩ := round_of_next ha hnext
    obtain ⟨htold, hplaced⟩ := hbrings.recorded
    obtain ⟨hends, hlater, hrest⟩ := ih hb
    refine ⟨hends, ?_, List.forall_mem_append.2 ⟨hplaced, hrest⟩⟩
    rw [hlater, htold, List.map_append, List.append_assoc]
  | call hnext _ _ ihInner ihRest =>
    obtain ⟨hinner, hsame, hresume⟩ := round_of_next ha hnext
    obtain ⟨hends, hwithin, hplaced⟩ := ihInner hinner
    have hnote : Brings _ none _ _ := hends.noteTruncation
    obtain ⟨hcut, hcutPlaced⟩ := hnote.recorded
    obtain ⟨hb, hbrings⟩ := hresume _ hends.1
    obtain ⟨hback, hbackPlaced⟩ := hbrings.recorded
    obtain ⟨hends, hlater, hrest⟩ := ihRest hb
    refine ⟨hends, ?_, ?_⟩
    · rw [hlater, hback, hcut, hwithin, hsame]
      simp only [List.map_append, List.append_assoc]
    · simp only [List.forall_mem_append]
      exact ⟨⟨⟨hplaced, hcutPlaced⟩, hbackPlaced⟩, hrest⟩

/-- There is one way in which the diagnostics come up. -/
theorem Records.unique {told told' : List Recorded} (h : Records s stream last a told p)
    (h' : Records s stream last a told' q) : told' = told ∧ q = p := by
  induction h generalizing told' q with
  | done hnext =>
    cases h' with
    | done hnext' =>
      cases hnext.symm.trans hnext'
      exact ⟨rfl, rfl⟩
    | goOn hnext' _ => cases hnext.symm.trans hnext'
    | call hnext' _ _ => cases hnext.symm.trans hnext'
  | goOn hnext _ ih =>
    cases h' with
    | done hnext' => cases hnext.symm.trans hnext'
    | goOn hnext' hlater =>
      cases hnext.symm.trans hnext'
      obtain ⟨rfl, rfl⟩ := ih hlater
      exact ⟨rfl, rfl⟩
    | call hnext' _ _ => cases hnext.symm.trans hnext'
  | call hnext _ _ ihInner ihRest =>
    cases h' with
    | done hnext' => cases hnext.symm.trans hnext'
    | goOn hnext' _ => cases hnext.symm.trans hnext'
    | call hnext' hwithin hlater =>
      cases hnext.symm.trans hnext'
      obtain ⟨rfl, rfl⟩ := ihInner hwithin
      obtain ⟨rfl, rfl⟩ := ihRest hlater
      exact ⟨rfl, rfl⟩

/-- The diagnostics of an activation come up on the way to its result. -/
theorem exists_records_result (s : Setting) (stream : RunningStream) (last : Option ItemAt)
    (a : Activation) : ∃ told, Records s stream last a told (a.result s) := by
  refine result_induction (motive := fun a q => ∀ stream last, ∃ told,
    Records s stream last a told q) ?_ ?_ ?_ a stream last
  · intro a p hnext stream last
    exact ⟨_, .done hnext⟩
  · intro a b q hnext hrest stream last
    obtain ⟨later, hlater⟩ := hrest stream (a.itemAt last)
    exact ⟨_, .goOn hnext hlater⟩
  · intro a inner resume q hnext hinner hrest stream last
    obtain ⟨within, hwithin⟩ := hinner ⟨[inner.ahead], stream.depth + 1⟩ none
    obtain ⟨later, hlater⟩ := hrest stream (a.itemAt last)
    exact ⟨_, .call hnext hwithin hlater⟩

end Activation

/-- **Diagnostics point into their stream.** There is one way in which the diagnostics of a page come up
round by round, in the streams of the run, and the outcome of the page lists them in that order. If
the page breaks down, those were heard that had come up by then. Each has the depth of the stream that
was running and an offset within it. If it is about an operator, then the operator is the item that the
stream had at hand, and its word stands at the offset, whatever ran inside meanwhile. -/
theorem Processor.process_diagnostics_placed (s : Setting) (cancelIn : Option Nat)
    (segments : List (List UInt8)) (resources : Dict) :
    ∃ ran told,
      (∀ told' q, (Activation.ofSegments segments (beginPage s cancelIn resources)).Records s
          ⟨segments, 0⟩ none told' q ↔ told' = told ∧ q = ran) ∧
        (start s cancelIn).process s segments resources = .ok (ran.outcome, ran.ended) ∧
        (ran.outcome.status ≠ .broken →
          ran.outcome.diagnostics = told.map Recorded.diagnostic) ∧
        ran.outcome.diagnostics <+: told.map Recorded.diagnostic ∧ ∀ r ∈ told, r.Placed := by
  let page := Activation.ofSegments segments (beginPage s cancelIn resources)
  have hpage : page.Stands ⟨segments, 0⟩ none :=
    Activation.stands_ofSegments rfl rfl rfl fun pos h => by cases h
  obtain ⟨told, hrecords⟩ := Activation.exists_records_result s ⟨segments, 0⟩ none page
  obtain ⟨-, hdiagnostics, hplaced⟩ := hrecords.placed hpage
  -- No diagnostic has come up before the page.
  have htold : (page.result s).diagnostics = told.map Recorded.diagnostic := hdiagnostics
  refine ⟨page.result s, told, fun told' q => ⟨hrecords.unique, ?_⟩, ?_, fun hwhole => ?_, ?_,
    hplaced⟩
  · rintro ⟨rfl, rfl⟩
    exact hrecords
  · rw [process_start, execute_beginPage]
  · rw [← htold, outcome_of_not_broken (broken_eq_false hwhole)]
  · rw [← htold]
    exact outcome_diagnostics_isPrefix _

end ContentStream
