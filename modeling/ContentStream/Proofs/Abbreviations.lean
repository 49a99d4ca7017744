import ContentStream.Proofs.Bookkeeping
import ContentStream.Proofs.GlyphPlacement
import Mathlib.Data.List.Forall2

/-!
# Abbreviated operators

Two operators for text are there for shortness only: `'` starts a new line and shows text, and `"`
sets the spacing before that.

**Theorem (`dispatch_quotes`).** With a font and without a limit on operators, `'` does what `T*` and
`Tj` do, if `T*` succeeds, and `"` does what `Tw`, `Tc` and `'` do, whatever happens on the way. The
same is told, but that a diagnostic of the operator itself names the abbreviation and its place.

The two runs stay in tune (`InTune`): they differ in what they have written down and where they stand,
and in nothing else. A stream that runs inside looks at neither. It starts from the same processor
stripped of both (`bare`), and what it writes is put in front of what was written before
(`runner_dress`).
-/

namespace ContentStream

/-- A record that starts behind what was written before. -/
def Recast.after (past : List LogEntry) (count : Nat) : Recast where
  log told := told ++ past
  executed k := count + k
  cancelIn k := k
  log_cons _ _ := rfl
  executed_succ _ := rfl
  cancelIn_pred _ := rfl

/-- An operator and the place where it stands. -/
structure Label where
  word : String
  pos : Nat

/-- The same is told, except that a diagnostic of an operator itself bears another label. -/
inductive Renamed (long short : Label) : LogEntry → LogEntry → Prop
  | same (entry : LogEntry) : Renamed long short entry entry
  | own (depth : Nat) (e : Error) :
      Renamed long short (.diagnostic ⟨long.pos, depth, some long.word, e⟩)
        (.diagnostic ⟨short.pos, depth, some short.word, e⟩)

namespace Processor

/-- The processor at another place. -/
def placed (pos : Nat) (p : Processor) : Processor := { p with pos := pos }

/-- The processor without what it has written down and without the place where it stands. -/
def bare (p : Processor) : Processor := { p with log := [], executed := 0, pos := 0 }

/-- Puts what `q` has written down in front of what `p` had written, at the place of `p`. -/
def dress (p q : Processor) : Processor := (q.recast (.after p.log p.executed)).placed p.pos

variable {s : Setting} {n : Nat} {nested : NestedRunner} {p q : Processor} {long short : Label}

/-! ## Streams inside do not look at the place around them -/

theorem closeSections_of_none (h : p.openSections = 0) : p.closeSections s = p := if_pos h

theorem poll_placed (s : Setting) (p : Processor) (pos : Nat) :
    (p.placed pos).poll s = (p.poll s).placed pos := by
  have habort : (p.placed pos).abort = p.abort := rfl
  simp only [poll, habort, apply_ite (placed pos)]
  rfl

/-- A stream goes to the place of its first item at once. If it has none, breaks down over it or has
been cancelled, the place stays, and there is nothing to tell of. -/
theorem executeItems_placed (s : Setting) (nested : NestedRunner) (items : List ItemAt) (pos : Nat)
    (hnone : p.openSections = 0) :
    executeItems s nested items [] (p.placed pos) = executeItems s nested items [] p ∨
      (executeItems s nested items [] p).openSections = 0 ∧
        executeItems s nested items [] (p.placed pos) =
          (executeItems s nested items [] p).placed pos := by
  cases items with
  | nil => exact .inr ⟨hnone, rfl⟩
  | cons item rest =>
    have hpoll : (p.poll s).openSections = 0 := by
      unfold poll
      split <;> exact hnone
    by_cases hbreaks : ItemAt.breaksDown item = true
    · simp only [executeItems, if_pos hbreaks]
      exact .inr ⟨hnone, rfl⟩
    simp only [executeItems, if_neg hbreaks]
    by_cases habort : (p.poll s).abort.isSome = true
    · have habort' : ((p.poll s).placed pos).abort.isSome = true := habort
      refine .inr ?_
      simp only [poll_placed, if_pos habort, if_pos habort']
      exact ⟨hpoll, trivial⟩
    · have habort' : ¬((p.poll s).placed pos).abort.isSome = true := habort
      refine .inl ?_
      simp only [poll_placed, if_neg habort, if_neg habort']
      rfl

theorem execute_placed (s : Setting) (nested : NestedRunner) (p : Processor) (items : List ItemAt)
    (pos : Nat) :
    ∃ pos', (p.placed pos).execute s nested items = (p.execute s nested items).placed pos' := by
  let inner : Processor := { p with sectionFloor := p.sections.length }
  have hplaced : (p.placed pos).execute s nested items =
    { (executeItems s nested items [] (inner.placed pos)).closeSections s with
      sectionFloor := p.sectionFloor } := rfl
  rw [hplaced]
  rcases executeItems_placed (p := inner) s nested items pos (Nat.sub_self _) with
    heq | ⟨hopen, heq⟩
  · refine ⟨(p.execute s nested items).pos, ?_⟩
    rw [heq]
    rfl
  · refine ⟨pos, ?_⟩
    have hopen' : ((executeItems s nested items [] inner).placed pos).openSections = 0 := hopen
    simp only [heq, closeSections_of_none hopen', execute, inner, closeSections_of_none hopen]
    rfl

theorem noteTruncation_placed (p : Processor) (pos : Nat) :
    ∃ pos', (p.placed pos).noteTruncation = p.noteTruncation.placed pos' := by
  have habort : (p.placed pos).abort = p.abort := rfl
  simp only [noteTruncation, habort]
  cases p.abort with
  | none => exact ⟨pos, rfl⟩
  | some reason =>
    cases reason with
    | truncated last => exact ⟨last, rfl⟩
    | _ => exact ⟨pos, rfl⟩

theorem emit_placed (s : Setting) (p : Processor) (pos : Nat) (payload : EventPayload) :
    (p.placed pos).emit s payload = (p.emit s payload).placed pos := by
  unfold emit
  split <;> rfl

theorem enter_placed (s : Setting) (p : Processor) (run : NestedRun) (clip : Option Path)
    (pos : Nat) : (p.placed pos).enter s run clip = (p.enter s run clip).placed pos := by
  unfold enter enterForm
  cases run.source with
  | form info ref =>
    cases clip <;> refine Eq.trans ?_ (emit_placed s _ pos (.formBegin info)) <;> rfl
  | glyph font procedure => rfl

theorem leave_placed (s : Setting) (p outer : Processor) (source : NestedSource) (pos pos' : Nat) :
    (p.placed pos').leave s (outer.placed pos) source = (p.leave s outer source).placed pos := by
  cases source with
  | form info ref =>
    simp only [leave, endSource, emit_placed]
    rfl
  | glyph font procedure => rfl

theorem runNested_placed (s : Setting) (nested : NestedRunner) (run : NestedRun) (p : Processor)
    (pos : Nat) :
    (p.placed pos).runNested s nested run = (p.runNested s nested run).map (placed pos) := by
  have hactive : (p.placed pos).isActive run.source = p.isActive run.source := by
    cases run.source <;> rfl
  simp only [runNested, hactive, apply_ite (Reply.map (placed pos)), Reply.map_attempt]
  refine congrArg (ite _ _) (congrArg (Reply.attempt _ _) (funext fun clip => ?_))
  obtain ⟨pos₁, hexecute⟩ :=
    execute_placed s nested (p.enter s run clip) (Content.itemsOf run.data) pos
  obtain ⟨pos₂, hnote⟩ := noteTruncation_placed
    ((p.enter s run clip).execute s nested (Content.itemsOf run.data)) pos₁
  rw [enter_placed, hexecute, hnote, leave_placed]
  rfl

theorem runner_placed (s : Setting) (n : Nat) (run : NestedRun) (p : Processor) (pos : Nat) :
    runner s n run (p.placed pos) = (runner s n run p).map (placed pos) := by
  cases n with
  | zero => rfl
  | succ n => exact runNested_placed s (runner s n) run p pos

/-- **What a stream inside does** depends on the bare processor alone. -/
theorem runner_dress (hlimit : s.config.maxOperators = none) (n : Nat) (run : NestedRun)
    (p : Processor) : runner s n run p = (runner s n run p.bare).map (dress p) := by
  have hp : p = (p.bare.recast (.after p.log p.executed)).placed p.pos := rfl
  have hrecast : runner s n run (p.bare.recast (.after p.log p.executed)) = _ :=
    runner_recast (.inl hlimit) (fun _ => rfl) n run p.bare
  calc runner s n run p
      = runner s n run ((p.bare.recast (.after p.log p.executed)).placed p.pos) := by rw [← hp]
    _ = ((runner s n run p.bare).map (recast (.after p.log p.executed))).map (placed p.pos) := by
        rw [runner_placed, hrecast]
    _ = (runner s n run p.bare).map (dress p) := by
        cases runner s n run p.bare <;> rfl

/-! ## Runs in tune -/

/-- The second processor stands where the abbreviation stands, and the first one at what it is short
for. Otherwise they differ in what they have written down only, and there in the labels. -/
structure InTune (long short : Label) (p q : Processor) : Prop where
  bare : q.bare = p.bare
  told : List.Forall₂ (Renamed long short) p.log q.log
  long_pos : p.pos = long.pos
  short_pos : q.pos = short.pos

inductive InTuneReply (long short : Label) : Reply → Reply → Prop
  | done {p q : Processor} : InTune long short p q → InTuneReply long short (.done p) (.done q)
  | failed {p q : Processor} (e : Error) :
      InTune long short p q → InTuneReply long short (.failed p e) (.failed q e)

theorem forall₂_same (told : List LogEntry) : List.Forall₂ (Renamed long short) told told :=
  List.forall₂_same.2 fun entry _ => .same entry

namespace InTune

theorem gstate (h : InTune long short p q) : q.gstate = p.gstate := congrArg (·.gstate) h.bare

theorem depth (h : InTune long short p q) : q.depth = p.depth := congrArg (·.depth) h.bare

theorem setState (h : InTune long short p q) (g : GraphicsState) :
    InTune long short { p with gstate := g } { q with gstate := g } where
  bare := congrArg (fun r : Processor => { r with gstate := g }) h.bare
  told := h.told
  long_pos := h.long_pos
  short_pos := h.short_pos

theorem adjust (h : InTune long short p q) (change : GraphicsState → Except Error GraphicsState) :
    InTuneReply long short (p.adjust change) (q.adjust change) := by
  simp only [Processor.adjust, h.gstate]
  cases change p.gstate with
  | error e => exact .failed e h
  | ok g => exact .done (h.setState g)

theorem emit (h : InTune long short p q) (s : Setting) (payload : EventPayload) :
    InTune long short (p.emit s payload) (q.emit s payload) := by
  have hentry : (LogEntry.event ⟨q.depth, q.gstate, payload⟩) = .event ⟨p.depth, p.gstate, payload⟩ := by
    rw [h.gstate, h.depth]
  unfold Processor.emit
  split
  · refine ⟨?_, ?_, h.long_pos, h.short_pos⟩
    · exact congrArg (fun r : Processor => { r with cancelIn := r.cancelIn.map (· - 1) }) h.bare
    · rw [hentry]
      exact .cons (.same _) h.told
  · exact h

/-- An operator's own diagnostics bear its own label. -/
theorem report (h : InTune long short p q) (e : Error) :
    InTune long short (p.report (some long.word) e) (q.report (some short.word) e) := by
  refine ⟨h.bare, ?_, h.long_pos, h.short_pos⟩
  simp only [Processor.report, h.long_pos, h.short_pos, h.depth]
  exact .cons (.own p.depth e) h.told

theorem runner (h : InTune long short p q) (hlimit : s.config.maxOperators = none) (n : Nat)
    (run : NestedRun) :
    InTuneReply long short (ContentStream.runner s n run p) (ContentStream.runner s n run q) := by
  rw [runner_dress hlimit n run p, runner_dress hlimit n run q, h.bare]
  have hdress : ∀ r : Processor, InTune long short (p.dress r) (q.dress r) := fun r =>
    ⟨rfl, List.rel_append (forall₂_same r.log) h.told, h.long_pos, h.short_pos⟩
  cases ContentStream.runner s n run p.bare with
  | done r => exact .done (hdress r)
  | failed r e => exact .failed e (hdress r)

end InTune

theorem InTuneReply.andThen {reply reply' : Reply} {next next' : Processor → Reply}
    (h : InTuneReply long short reply reply')
    (hnext : ∀ p q, InTune long short p q → InTuneReply long short (next p) (next' q)) :
    InTuneReply long short (reply.andThen next) (reply'.andThen next') := by
  cases h with
  | done h => exact hnext _ _ h
  | failed e h => exact .failed e h

section Show

variable (hlimit : s.config.maxOperators = none) (n : Nat) (font : SelectedFont)
include hlimit

theorem runGlyph_inTune (h : InTune long short p q) (m : Matrix) (code : Nat) :
    InTuneReply long short (p.runGlyph s (runner s n) long.word font m code)
      (q.runGlyph s (runner s n) short.word font m code) := by
  unfold runGlyph
  split
  · exact .done h
  · cases font.font.procedure? code with
    | none => exact .done h
    | some procedure =>
      cases font.font.matrix.mul? m with
      | none => exact .failed _ h
      | some ctm =>
        have hn := h.runner hlimit n
          { source := .glyph font.load procedure.serial
            data := procedure.data
            resources := font.font.resources?.getD []
            ctm }
        dsimp only
        generalize runner s n _ p = reply at hn ⊢
        generalize runner s n _ q = reply' at hn ⊢
        cases hn with
        | done h => exact .done h
        | failed e h => exact .done (h.report e)

theorem showGlyph_inTune (h : InTune long short p q) (c : CharCode) :
    InTuneReply long short (p.showGlyph s (runner s n) long.word font c)
      (q.showGlyph s (runner s n) short.word font c) := by
  simp only [showGlyph, h.gstate]
  split
  · refine (runGlyph_inTune hlimit n font (h.emit s _) _ _).andThen fun p q h => ?_
    exact h.adjust _
  · exact .failed _ h

theorem showCodes_inTune (codes : List CharCode) (h : InTune long short p q) :
    InTuneReply long short (showCodes s (runner s n) long.word font codes p)
      (showCodes s (runner s n) short.word font codes q) := by
  induction codes generalizing p q with
  | nil => exact .done h
  | cons c rest ih => exact (showGlyph_inTune hlimit n font h c).andThen fun _ _ => ih

theorem showItems_inTune (items : List TextItem) (h : InTune long short p q) :
    InTuneReply long short (showItems s (runner s n) long.word font items p)
      (showItems s (runner s n) short.word font items q) := by
  induction items generalizing p q with
  | nil => exact .done h
  | cons item rest ih =>
    cases item with
    | shift amount => exact (h.adjust _).andThen fun _ _ => ih
    | string bytes => exact (showCodes_inTune hlimit n font _ h).andThen fun _ _ => ih

theorem showText_inTune (h : InTune long short p q) (text : Showing) :
    InTuneReply long short (p.showText s (runner s n) { text with operator := long.word })
      (q.showText s (runner s n) { text with operator := short.word }) := by
  have hspaced : InTune long short (p.setSpacing text.spacing) (q.setSpacing text.spacing) := by
    cases text.spacing with
    | none => exact h
    | some spacing =>
      simp only [setSpacing, h.gstate]
      exact h.setState _
  simp only [showText, h.gstate]
  split
  · exact .failed _ h
  · refine InTuneReply.andThen ?_ fun _ _ => showItems_inTune hlimit n _ _
    split
    · exact hspaced.adjust _
    · exact .done hspaced

end Show

theorem InTuneReply.settle {reply reply' : Reply} (h : InTuneReply long short reply reply') :
    InTune long short (Processor.settle long.pos long.word reply)
      (Processor.settle short.pos short.word reply') := by
  cases h with
  | done h => exact h
  | @failed p q e h =>
    have hplaced : InTune long short (p.placed long.pos) (q.placed short.pos) :=
      ⟨h.bare, h.told, rfl, rfl⟩
    exact hplaced.report e

theorem filterMap_event?_of_renamed {told told' : List LogEntry}
    (h : List.Forall₂ (Renamed long short) told told') :
    told'.filterMap LogEntry.event? = told.filterMap LogEntry.event? := by
  induction h with
  | nil => rfl
  | cons hentry _ ih =>
    cases hentry with
    | same entry => simp only [List.filterMap_cons, ih]
    | own depth e => exact ih

theorem InTune.events (h : InTune long short p q) : q.events = p.events := by
  simp only [Processor.events, entries, List.filterMap_reverse, filterMap_event?_of_renamed h.told]

/-! ## The abbreviations -/

/-- Executes an operator that stands at a place. -/
def dispatchAt (s : Setting) (nested : NestedRunner) (p : Processor) (pos : Nat) (word : String)
    (args : List Object) : Processor :=
  (p.placed pos).dispatch s nested word args

/-- One run ends like another: with the same events, in the same state but for the count of operators
and the place, and with the same diagnostics but for the label of the last operator's own ones. -/
structure EndsLike (long short : Label) (p q : Processor) : Prop where
  events : q.events = p.events
  state : q.bare = p.bare
  told : List.Forall₂ (Renamed long short) p.log q.log

theorem InTune.endsLike (h : InTune long short p q) : EndsLike long short p q :=
  ⟨h.events, h.bare, h.told⟩

/-- The processor when one more operator has been counted. -/
def counted (p : Processor) : Processor := { p with executed := p.executed + 1 }

theorem dispatchAt_eq (hlimit : s.config.maxOperators = none) (p : Processor) (pos : Nat)
    (word : String) (args : List Object) :
    p.dispatchAt s nested pos word args = (p.placed pos).counted.executeWord s nested word args :=
  if_neg (by simp [exhausted, hlimit])

section Font

variable {font : SelectedFont} (hfont : p.gstate.text.font = some font)
include hfont

/-- A new line in front of the text might as well be started beforehand. -/
theorem showText_newLine {g : GraphicsState} (h : p.gstate.nextLine = .ok g) (operator : String)
    (items : List TextItem) :
    p.showText s nested { operator, newLine := true, items } =
      ({ p with gstate := g } : Processor).showText s nested { operator, items } := by
  obtain ⟨m, -, hg⟩ := exists_of_bind_ok h
  have hfont' : g.text.font = some font := by
    cases hg
    exact hfont
  simp only [showText, hfont, hfont', setSpacing, adjust, h]
  rfl

/-- So might the spacing be set. -/
theorem showText_spacing (word char : Decimal) (operator : String) (items : List TextItem) :
    p.showText s nested { operator, spacing := some (word, char), newLine := true, items } =
      (p.setSpacing (some (word, char))).showText s nested { operator, newLine := true, items } := by
  have hfont' : (p.setSpacing (some (word, char))).gstate.text.font = some font := hfont
  simp only [showText, hfont, hfont']
  rfl

end Font

theorem nextLine_of_done {args : Operands} (h : p.operate s nested .nextLine args = .done q) :
    ∃ g, p.gstate.nextLine = .ok g := by
  cases hg : p.gstate.nextLine with
  | ok g => exact ⟨g, rfl⟩
  | error e =>
    have hadjust : p.operate s nested .nextLine args =
      Reply.commit p (p.gstate.nextLine.map fun g => { p with gstate := g }) := rfl
    rw [hadjust, hg] at h
    cases h

theorem executeWord_nextLine {g : GraphicsState} (h : p.gstate.nextLine = .ok g) :
    p.executeWord s nested "T*" [] = { p with gstate := g } := by
  have hadjust : p.executeWord s nested "T*" [] =
    settle p.pos "T*" (Reply.commit p (p.gstate.nextLine.map fun g => { p with gstate := g })) := rfl
  rw [hadjust, h]
  rfl

/-- **The quote operators are abbreviations**, wherever the operators stand. -/
theorem dispatch_quotes (s : Setting) (n : Nat) (p : Processor) (font : SelectedFont)
    (hlimit : s.config.maxOperators = none) (hfont : p.gstate.text.font = some font) :
    let execute := dispatchAt s (runner s n)
    (∀ q text x y z, p.operate s (runner s n) .nextLine ⟨"T*", []⟩ = .done q →
      EndsLike ⟨"Tj", z⟩ ⟨"'", x⟩
        (execute (execute p y "T*" []) z "Tj" [.string text])
        (execute p x "'" [.string text])) ∧
      ∀ word char text x y z u,
        EndsLike ⟨"'", u⟩ ⟨"\"", x⟩
          (execute (execute (execute p y "Tw" [.number word]) z "Tc" [.number char]) u "'"
            [.string text])
          (execute p x "\"" [.number word, .number char, .string text]) := by
  intro execute
  have hexecute : ∀ p pos word args,
      execute p pos word args = (placed pos p).counted.executeWord s (runner s n) word args :=
    dispatchAt_eq hlimit
  refine ⟨fun q text x y z hdone => ?_, fun word char text x y z u => ?_⟩
  · obtain ⟨g, hg⟩ := nextLine_of_done hdone
    let items : List TextItem := [.string text.bytes]
    let line : Processor := { p with gstate := g }
    have hshort : execute p x "'" [.string text] = settle x "'"
        ((line.placed x).counted.showText s (runner s n) { operator := "'", items }) := by
      rw [hexecute]
      exact congrArg (settle x "'")
        (showText_newLine (p := (p.placed x).counted) hfont hg "'" items)
    have hlong : execute (execute p y "T*" []) z "Tj" [.string text] = settle z "Tj"
        (((line.placed y).counted.placed z).counted.showText s (runner s n)
          { operator := "Tj", items }) := by
      rw [hexecute, hexecute, executeWord_nextLine (p := (p.placed y).counted) hg]
      rfl
    rw [hshort, hlong]
    have hstart : InTune ⟨"Tj", z⟩ ⟨"'", x⟩ ((line.placed y).counted.placed z).counted
      (line.placed x).counted := ⟨rfl, forall₂_same _, rfl, rfl⟩
    exact (showText_inTune hlimit n hstart { operator := "", items }).settle.endsLike
  · let items : List TextItem := [.string text.bytes]
    let spaced : Processor := p.setSpacing (some (word, char))
    have hshort : execute p x "\"" [.number word, .number char, .string text] = settle x "\""
        ((spaced.placed x).counted.showText s (runner s n)
          { operator := "\"", newLine := true, items }) := by
      rw [hexecute]
      exact congrArg (settle x "\"")
        (showText_spacing (p := (p.placed x).counted) hfont word char "\"" items)
    have hstart : InTune ⟨"'", u⟩ ⟨"\"", x⟩
        ((((spaced.placed y).counted.placed z).counted.placed u).counted)
        (spaced.placed x).counted := ⟨rfl, forall₂_same _, rfl, rfl⟩
    rw [hshort, hexecute, hexecute, hexecute]
    exact (showText_inTune hlimit n hstart
      { operator := "", newLine := true, items }).settle.endsLike

/-- Two glyphs whose procedures are refused, which is reported under the operator that shows them. -/
theorem dispatch_quotes_refused :
    let p : Processor :=
      { gstate.text.font := some spacingFont, gstate.text.fontSize := 10, gstate.text.leading := 10 }
    let execute := dispatchAt {} (runner {} 0)
    let text : ByteString := ⟨[97, 97], .literal⟩
    (execute p 3 "'" [.string text]).diagnostics.map (·.operator) = [some "'", some "'"] ∧
      EndsLike ⟨"Tj", 9⟩ ⟨"'", 3⟩
        (execute (execute p 0 "T*" []) 9 "Tj" [.string text])
        (execute p 3 "'" [.string text]) ∧
      EndsLike ⟨"'", 9⟩ ⟨"\"", 3⟩
        (execute (execute (execute p 0 "Tw" [.number 1]) 5 "Tc" [.number 100]) 9 "'" [.string text])
        (execute p 3 "\"" [.number 1, .number 100, .string text]) := by
  intro p execute text
  obtain ⟨hline, hspaced⟩ := dispatch_quotes {} 0 p spacingFont rfl rfl
  have hdone : Reply.casesOn (motive := fun _ => Bool)
      (p.operate {} (runner {} 0) .nextLine ⟨"T*", []⟩) (fun _ => true) (fun _ _ => false) = true := by
    decide +kernel
  cases hq : p.operate {} (runner {} 0) .nextLine ⟨"T*", []⟩ with
  | failed q e =>
    rw [hq] at hdone
    cases hdone
  | done q => exact ⟨by decide +kernel, hline q text 3 0 9 hq, hspaced 1 100 text 3 0 5 9⟩

end Processor

end ContentStream
