import ContentStream.Proofs.Isolation

/-!
# Operators that fail

An operator fails if its word is unknown, if it has the wrong number of operands, or in the middle of
its work. The failure is reported and the stream goes on.

**Theorem (`dispatch_failed`).** For want of room in the decimals an operator may stop half way. In all
other cases a failure is all or nothing, with one exception: a section whose property list is no good
is opened all the same, without properties.

What each instruction leaves behind when it fails is said once, in `Leftover`. The instructions that
leave something are few:

* a dictionary of graphics states keeps the fonts that it loaded in front of the bad entry,
* a path that does not fit into device space is used up,
* text that runs out of room has been shown up to there, and
* a section without properties is opened.
-/

namespace ContentStream

/-! ## Failing for want of room -/

/-- A result that fails only for want of room. -/
def RoomOnly {α : Type} (x : Except Error α) : Prop := ∀ e, x = .error e → e = .overflow

theorem roomOnly_orOverflow {α : Type} (x : Option α) : RoomOnly (orOverflow x) := by
  intro e h
  cases x with
  | none => cases h; rfl
  | some a => cases h

theorem roomOnly_pure {α : Type} (a : α) : RoomOnly (pure a) := by
  intro e h
  cases h

theorem RoomOnly.bind {α β : Type} {x : Except Error α} {f : α → Except Error β} (hx : RoomOnly x)
    (hf : ∀ a, RoomOnly (f a)) : RoomOnly (x >>= f) := by
  intro e h
  cases x with
  | ok a => exact hf a e h
  | error e' => exact hx e (congrArg Except.error (Except.error.inj h))

namespace GraphicsState

theorem roomOnly_advanceText (g : GraphicsState) (distance : Decimal) :
    RoomOnly (g.advanceText distance) :=
  (roomOnly_orOverflow _).bind fun _ => roomOnly_pure _

theorem roomOnly_nextLine (g : GraphicsState) : RoomOnly g.nextLine :=
  (roomOnly_orOverflow _).bind fun _ => roomOnly_pure _

theorem roomOnly_shiftText (g : GraphicsState) (amount : Decimal) :
    RoomOnly (g.shiftText amount) := by
  refine (roomOnly_orOverflow _).bind fun size => (roomOnly_orOverflow _).bind fun scaled => ?_
  exact (roomOnly_orOverflow _).bind fun distance => g.roomOnly_advanceText _

end GraphicsState

namespace Reply

/-- An operator that fails only for want of room. -/
def RoomOnly (r : Reply) : Prop := ∀ q e, r = .failed q e → e = .overflow

theorem roomOnly_done (p : Processor) : RoomOnly (.done p) := by
  intro q e h
  cases h

theorem RoomOnly.andThen {r : Reply} {next : Processor → Reply} (hr : r.RoomOnly)
    (hnext : ∀ p, (next p).RoomOnly) : (r.andThen next).RoomOnly := by
  intro q e h
  cases r with
  | done p => exact hnext p q e h
  | failed p e' => exact hr q e h

theorem roomOnly_adjust {change : GraphicsState → Except Error GraphicsState}
    (h : ∀ g, ContentStream.RoomOnly (change g)) (p : Processor) : (p.adjust change).RoomOnly := by
  intro q e hq
  unfold Processor.adjust at hq
  cases hg : change p.gstate with
  | ok g => rw [hg] at hq; cases hq
  | error e' => rw [hg] at hq; cases hq; exact h _ _ hg

/-! ## What a failure leaves behind -/

theorem attempt_failed {α : Type} {found : Except Error α} {next : α → Reply} {p q : Processor}
    {e : Error} (h : attempt p found next = .failed q e) :
    found = .error e ∧ q = p ∨ ∃ a, found = .ok a ∧ next a = .failed q e := by
  cases found with
  | ok a => exact .inr ⟨a, rfl, h⟩
  | error e' => cases h; exact .inl ⟨rfl, rfl⟩

theorem commit_failed {result : Except Error Processor} {p q : Processor} {e : Error}
    (h : commit p result = .failed q e) : q = p := by
  rcases attempt_failed h with ⟨-, rfl⟩ | ⟨a, -, h⟩
  · rfl
  · cases h

end Reply

namespace Processor

variable {s : Setting} {n : Nat} {p q : Processor} {nested : NestedRunner} {e : Error}
  {i : Instruction} {word : String} {args : List Object}

/-- A way to run streams inside others of which a failure leaves nothing behind. -/
def AllOrNothing (nested : NestedRunner) : Prop := ∀ run p q e, nested run p = .failed q e → q = p

theorem runner_allOrNothing (s : Setting) (n : Nat) : AllOrNothing (runner s n) := by
  intro run p q e h
  rcases runner_cases s n run p with ⟨e', h'⟩ | ⟨q', h', -⟩
  · rw [h'] at h; cases h; rfl
  · rw [h'] at h; cases h

/-- What the processor can be after an instruction that failed. -/
def Leftover (s : Setting) (p q : Processor) (e : Error) : Instruction → Prop
  | .stateDict _ => SameButFonts p q
  | .paint _ => e = .overflow ∧ q = { p with path := {}, pendingClip := none }
  | .show _ => q = p ∨ e = .overflow
  | .beginSection tag props => props.isSome ∧ q = p.openSection s ⟨tag, none⟩
  | _ => q = p

/-! ### Text -/

theorem runGlyph_roomOnly (s : Setting) (nested : NestedRunner) (operator : String)
    (font : SelectedFont) (m : Matrix) (code : Nat) (p : Processor) :
    (p.runGlyph s nested operator font m code).RoomOnly := by
  intro q e h
  unfold runGlyph at h
  split at h
  · cases h
  · split at h
    · cases h
    · split at h
      · cases h; rfl
      · dsimp only at h
        split at h <;> cases h

theorem showGlyph_roomOnly (s : Setting) (nested : NestedRunner) (operator : String)
    (font : SelectedFont) (c : CharCode) (p : Processor) :
    (p.showGlyph s nested operator font c).RoomOnly := by
  unfold showGlyph
  split
  · exact Reply.RoomOnly.andThen (runGlyph_roomOnly _ _ _ _ _ _ _)
      (Reply.roomOnly_adjust fun g => g.roomOnly_advanceText _)
  · intro q e h
    cases h
    rfl

theorem showCodes_roomOnly (s : Setting) (nested : NestedRunner) (operator : String)
    (font : SelectedFont) (codes : List CharCode) (p : Processor) :
    (showCodes s nested operator font codes p).RoomOnly := by
  induction codes generalizing p with
  | nil => exact Reply.roomOnly_done p
  | cons c rest ih => exact Reply.RoomOnly.andThen (showGlyph_roomOnly _ _ _ _ _ _) ih

theorem showItems_roomOnly (s : Setting) (nested : NestedRunner) (operator : String)
    (font : SelectedFont) (items : List TextItem) (p : Processor) :
    (showItems s nested operator font items p).RoomOnly := by
  induction items generalizing p with
  | nil => exact Reply.roomOnly_done p
  | cons item rest ih =>
    cases item with
    | shift amount => exact (Reply.roomOnly_adjust (fun g => g.roomOnly_shiftText amount) p).andThen ih
    | string bytes => exact Reply.RoomOnly.andThen (showCodes_roomOnly _ _ _ _ _ _) ih

/-- Apart from want of room, text fails at the start or not at all. -/
theorem showText_failed {text : Showing} (h : p.showText s nested text = .failed q e) :
    q = p ∨ e = .overflow := by
  unfold showText at h
  split at h
  · cases h
    exact .inl rfl
  · dsimp only at h
    refine .inr (Reply.RoomOnly.andThen ?_ (showItems_roomOnly s nested _ _ _) q e h)
    split
    · exact Reply.roomOnly_adjust GraphicsState.roomOnly_nextLine _
    · exact Reply.roomOnly_done _

/-! ### All instructions -/

theorem applyStateDict_failed {name : String} (h : p.applyStateDict s name = .failed q e) :
    SameButFonts p q := by
  unfold applyStateDict at h
  split at h
  · cases h
    rfl
  · rename_i d _
    have hsame := (applyEntries_steps (s := s) (n := 0) (b := false) d p p.gstate).2
    split at h
    · cases h
    · rename_i heq
      cases h
      rwa [heq] at hsame

theorem paint_failed {style : PaintStyle} (h : p.paint s style = .failed q e) :
    e = .overflow ∧ q = { p with path := {}, pendingClip := none } := by
  unfold paint at h
  dsimp only at h
  split at h
  · cases h
    exact ⟨rfl, rfl⟩
  · split at h <;> cases h

theorem showExternal_failed (hn : AllOrNothing nested) {name : String}
    (h : p.showExternal s nested name = .failed q e) : q = p := by
  rcases Reply.attempt_failed h with ⟨-, rfl⟩ | ⟨⟨ref, object⟩, -, h⟩
  · rfl
  · dsimp only at h
    split at h
    · rcases Reply.attempt_failed h with ⟨-, rfl⟩ | ⟨run, -, h⟩
      · rfl
      · exact hn run p q e h
    · cases h
    · cases h

theorem beginSection_failed {tag : String} {props : Option Object}
    (h : p.beginSection s tag props = .failed q e) :
    props.isSome ∧ q = p.openSection s ⟨tag, none⟩ := by
  cases props with
  | none => cases h
  | some props =>
    refine ⟨rfl, ?_⟩
    unfold beginSection at h
    split at h <;> cases h
    rfl

theorem perform_failed (hn : AllOrNothing nested) (h : p.perform s nested i = .failed q e) :
    Leftover s p q e i := by
  cases i with
  | nothing => cases h
  | state c => exact Reply.commit_failed h
  | save => cases h
  | restore =>
    simp only [perform, restore] at h
    split at h
    · cases h; rfl
    · split at h <;> cases h
  | stateDict name => exact applyStateDict_failed h
  | path step => exact Reply.commit_failed h
  | paint style => exact paint_failed h
  | clip rule => cases h
  | font name size => exact Reply.commit_failed h
  | «show» text => exact showText_failed h
  | glyphMetrics operator metrics => exact Reply.commit_failed h
  | colorSpace side name => exact Reply.commit_failed h
  | shading name => exact Reply.commit_failed h
  | xobject name => exact showExternal_failed hn h
  | inlineImage image => cases h
  | strayImage fault => cases h; rfl
  | markPoint tag props => exact Reply.commit_failed h
  | beginSection tag props => exact beginSection_failed h
  | endSection =>
    simp only [perform, endSection] at h
    split at h <;> cases h
    rfl
  | beginCompat => cases h
  | endCompat => cases h

end Processor

/-! ## The words of the exceptions -/

namespace Operator

variable {word : String} {op : Operator} {arity : Arity} {args : List Object}

theorem table_show : ∀ entry ∈ table,
    entry.2.1 ∈ [showText, showAdjusted, nextLineShow, nextLineShowSpaced] →
      entry.1 ∈ ["Tj", "TJ", "'", "\""] := by
  decide

theorem table_beginMarkedProperties : ∀ entry ∈ table, entry.2.1 = beginMarkedProperties →
    entry = ("BDC", beginMarkedProperties, .exact 2) := by
  decide

theorem word_of_show {text : Showing} (hop : find? word = some (op, arity))
    (h : op.read ⟨word, args⟩ = .ok (.show text)) : word ∈ ["Tj", "TJ", "'", "\""] :=
  table_show _ (mem_table_of_find? hop) (mem_operators_of_read h)

theorem operands_of_beginSection {tag : String} {props : Object} (hop : find? word = some (op, arity))
    (harity : arity.accepts args.length = true)
    (h : op.read ⟨word, args⟩ = .ok (.beginSection tag (some props))) :
    word = "BDC" ∧ args = [.name tag, props] := by
  obtain rfl := List.mem_singleton.1 (mem_operators_of_read h)
  cases table_beginMarkedProperties _ (mem_table_of_find? hop) rfl
  refine ⟨rfl, ?_⟩
  obtain ⟨tag', htag, h⟩ := exists_of_bind_ok h
  obtain ⟨props', hprops, h⟩ := exists_of_bind_ok h
  cases h
  match args, harity with
  | [first, second], _ =>
    cases hprops
    cases first <;> cases htag
    rfl

end Operator

namespace Processor

variable {s : Setting} {n : Nat} {p q : Processor} {nested : NestedRunner} {e : Error}
  {i : Instruction} {word : String} {args : List Object}

/-! ## Operators -/

/-- Executing the operator that a word stands for ends with an error. -/
inductive Fails (s : Setting) (nested : NestedRunner) (p : Processor) (word : String)
    (args : List Object) : Error → Prop
  | unknown : Operator.find? word = none → p.compatDepth = 0 →
      Fails s nested p word args (.unknownOperator word)
  | arity {op : Operator} {arity : Arity} : Operator.find? word = some (op, arity) →
      arity.accepts args.length = false → Fails s nested p word args (.arity word arity args.length)
  | operator {op : Operator} {arity : Arity} {q : Processor} {e : Error} :
      Operator.find? word = some (op, arity) → arity.accepts args.length = true →
      p.operate s nested op ⟨word, args⟩ = .failed q e → Fails s nested p word args e

/-- What the processor can be after an operator that failed, but for the report. -/
inductive Remains (s : Setting) (p : Processor) (word : String) (args : List Object) (e : Error) :
    Processor → Prop
  | unread : (∀ op arity i, Operator.find? word = some (op, arity) →
      arity.accepts args.length = true → op.read ⟨word, args⟩ ≠ .ok i) → Remains s p word args e p
  | leftover {op : Operator} {arity : Arity} {i : Instruction} {q : Processor} :
      Operator.find? word = some (op, arity) → arity.accepts args.length = true →
      op.read ⟨word, args⟩ = .ok i → Leftover s p q e i → Remains s p word args e q

/-- A failure is reported at the operator's own place, on top of what remains. -/
theorem executeWord_failed (hn : AllOrNothing nested) (h : Fails s nested p word args e) :
    ∃ q, Remains s p word args e q ∧
      p.executeWord s nested word args =
        ({ q with pos := p.pos } : Processor).report (some word) e := by
  unfold executeWord
  cases h with
  | unknown hop hcompat =>
    refine ⟨p, .unread fun op arity i hop' => by simp [hop] at hop', ?_⟩
    simp only [hop]
    rw [if_neg (by omega)]
  | arity hop harity =>
    refine ⟨p, .unread fun op arity i hop' harity' => ?_, by simp only [hop, harity]; rfl⟩
    rw [hop] at hop'
    cases hop'
    rw [harity] at harity'
    cases harity'
  | @operator op arity q e hop harity hreply =>
    refine ⟨q, ?_, by simp only [hop, harity, hreply, if_true, settle]⟩
    rcases Reply.attempt_failed hreply with ⟨hread, rfl⟩ | ⟨i, hread, hfailed⟩
    · refine .unread fun op' arity' i hop' _ hread' => ?_
      rw [hop] at hop'
      cases hop'
      rw [hread] at hread'
      cases hread'
    · exact .leftover hop harity hread (perform_failed hn hfailed)

/-- What an operator must not have changed if it was all or nothing. -/
structure Untouched (p q : Processor) : Prop where
  gstate : q.gstate = p.gstate
  gstack : q.gstack = p.gstack
  path : q.path = p.path
  pendingClip : q.pendingClip = p.pendingClip
  compatDepth : q.compatDepth = p.compatDepth
  glyphMetrics : q.glyphMetrics = p.glyphMetrics
  inlineImages : q.inlineImages = p.inlineImages
  depth : q.depth = p.depth
  scopes : q.scopes = p.scopes
  resources : q.resources = p.resources

theorem SameButFonts.untouched (h : SameButFonts p q) : Untouched p q := by
  unfold SameButFonts at h
  rw [h]
  exact ⟨rfl, rfl, rfl, rfl, rfl, rfl, rfl, rfl, rfl, rfl⟩

theorem Untouched.settled {k : Nat} (h : Untouched { p with executed := k } q) (pos : Nat)
    (operator : Option String) (e : Error) :
    Untouched p (({ q with pos := pos } : Processor).report operator e) :=
  ⟨h.gstate, h.gstack, h.path, h.pendingClip, h.compatDepth, h.glyphMetrics, h.inlineImages, h.depth,
    h.scopes, h.resources⟩

theorem openSection_untouched (s : Setting) (p : Processor) (label : MarkedContent) :
    Untouched p (p.openSection s label) := by
  unfold openSection emit
  split <;> exact ⟨rfl, rfl, rfl, rfl, rfl, rfl, rfl, rfl, rfl, rfl⟩

theorem openSection_events (s : Setting) (p : Processor) (label : MarkedContent) :
    (p.openSection s label).events =
      p.events ++ if s.listening then [⟨p.depth, p.gstate, .sectionBegin label⟩] else [] :=
  events_emit ..

namespace Remains

/-- Unless there is no room, all that can remain is a section without properties. -/
theorem sameButFonts_or_opened (h : Remains s p word args e q) (he : e ≠ .overflow) :
    SameButFonts p q ∨ ∃ tag props, word = "BDC" ∧ args = [.name tag, props] ∧
      q = p.openSection s ⟨tag, none⟩ := by
  cases h with
  | unread => exact .inl rfl
  | @leftover op arity i q hop harity hread hleft =>
    cases i with
    | stateDict name => exact .inl hleft
    | paint style => exact absurd hleft.1 he
    | «show» text =>
      obtain rfl := hleft.resolve_right he
      exact .inl rfl
    | beginSection tag props =>
      obtain ⟨hprops, rfl⟩ := hleft
      obtain ⟨props, rfl⟩ := Option.isSome_iff_exists.1 hprops
      obtain ⟨rfl, rfl⟩ := Operator.operands_of_beginSection hop harity hread
      exact .inr ⟨tag, props, rfl, rfl, rfl⟩
    | _ =>
      cases hleft
      exact .inl rfl

theorem untouched (h : Remains s p word args e q) (he : e ≠ .overflow) :
    Untouched p q ∧ q.diagnostics = p.diagnostics := by
  rcases h.sameButFonts_or_opened he with hsame | ⟨tag, props, -, -, rfl⟩
  · refine ⟨hsame.untouched, ?_⟩
    rw [diagnostics, entries, hsame.log]
    rfl
  · exact ⟨openSection_untouched .., diagnostics_emit ..⟩

theorem sections_events (h : Remains s p word args e q) (he : e ≠ .overflow)
    (hbare : ∀ tag props, word = "BDC" → args = [.name tag, props] → False) :
    q.sections = p.sections ∧ q.events = p.events := by
  rcases h.sameButFonts_or_opened he with hsame | ⟨tag, props, hword, hargs, -⟩
  · refine ⟨hsame.sections, ?_⟩
    rw [events, entries, hsame.log]
    rfl
  · exact (hbare tag props hword hargs).elim

/-- A section is opened whatever its property list is. -/
theorem opened {tag : String} {props : Object} (h : Remains s p "BDC" [.name tag, props] e q) :
    q = p.openSection s ⟨tag, none⟩ := by
  cases h with
  | unread h => exact absurd rfl (h .beginMarkedProperties (.exact 2) _ rfl rfl)
  | leftover hop harity hread hleft =>
    cases hop
    cases hread
    exact hleft.2

/-- Even without room the graphics state is kept, unless text was being shown. -/
theorem gstate (h : Remains s p word args e q) (hw : word ∉ ["Tj", "TJ", "'", "\""]) :
    q.gstate = p.gstate := by
  cases h with
  | unread => rfl
  | @leftover op arity i q hop harity hread hleft =>
    cases i with
    | stateDict name => exact hleft.gstate
    | paint style => rw [hleft.2]
    | «show» text => exact absurd (Operator.word_of_show hop hread) hw
    | beginSection tag props =>
      rw [hleft.2]
      exact (openSection_untouched s p _).gstate
    | _ =>
      cases hleft
      rfl

end Remains

/-- **Failures.** An operator that fails, other than for want of room, is reported once and changes
nothing else, but that `BDC` with a tag and a property list that is no good opens its section without
properties. For want of room the graphics state is kept as well, unless text was being shown. -/
theorem dispatch_failed (s : Setting) (n : Nat) (p : Processor) (word : String) (args : List Object)
    (e : Error) (hlimit : p.exhausted s = false)
    (hfail : Fails s (runner s n) { p with executed := p.executed + 1 } word args e) :
    let q := p.dispatch s (runner s n) word args
    (e ≠ .overflow →
      Untouched p q ∧
        q.diagnostics = p.diagnostics ++ [⟨p.pos, p.depth, some word, e⟩] ∧
        (∀ tag props, word = "BDC" → args = [.name tag, props] →
          q.sections = ⟨tag, none⟩ :: p.sections ∧
            q.events = p.events ++
              if s.listening then [⟨p.depth, p.gstate, .sectionBegin ⟨tag, none⟩⟩] else []) ∧
        ((∀ tag props, word = "BDC" → args ≠ [.name tag, props]) →
          q.sections = p.sections ∧ q.events = p.events)) ∧
      (e = .overflow → word ∉ ["Tj", "TJ", "'", "\""] → q.gstate = p.gstate) := by
  intro q
  obtain ⟨r, hremains, hq⟩ := executeWord_failed (runner_allOrNothing s n) hfail
  have hq : q = ({ r with pos := p.pos } : Processor).report (some word) e := by
    rw [← hq]
    exact if_neg (by simp [hlimit])
  rw [hq]
  refine ⟨fun he => ?_, fun _ hw => hremains.gstate hw⟩
  obtain ⟨huntouched, hdiagnostics⟩ := hremains.untouched he
  refine ⟨huntouched.settled _ _ _, ?_, ?_, ?_⟩
  · rw [diagnostics_report]
    show r.diagnostics ++ [⟨p.pos, r.depth, some word, e⟩] = _
    rw [hdiagnostics, huntouched.depth]
    rfl
  · rintro tag props rfl rfl
    rw [events_report]
    obtain rfl := hremains.opened
    exact ⟨emit_sections .., openSection_events ..⟩
  · intro hbare
    rw [events_report]
    exact hremains.sections_events he hbare

/-- The resources of a page with a dictionary of graphics states whose second entry is wrong. -/
def badEntry : Dict :=
  [("ExtGState", .dict [("G", .dict [("LW", .number 0), ("LC", .null)])])]

/-- The bad entry undoes the one in front of it, and a bad property list does not undo its section. -/
theorem dispatch_failed_badEntry :
    let p : Processor := { resources := ⟨[badEntry]⟩ }
    let byDict := p.dispatch {} (runner {} 32) "gs" [.name "G"]
    let marked := p.dispatch {} (runner {} 32) "BDC" [.name "Span", .null]
    (byDict.gstate = p.gstate ∧ byDict.events = [] ∧
        byDict.diagnostics = [⟨0, 0, some "gs", .invalidValue (.stateEntry "LC" .number .null)⟩]) ∧
      marked.gstate = p.gstate ∧ marked.sections = [⟨"Span", none⟩] ∧
        marked.diagnostics = [⟨0, 0, some "BDC", .shape .propertyList .null⟩] := by
  intro p byDict marked
  obtain ⟨hsame, hreport, -, hkept⟩ := (dispatch_failed {} 32 p "gs" [.name "G"]
    (.invalidValue (.stateEntry "LC" .number .null)) rfl (.operator rfl rfl rfl)).1 nofun
  obtain ⟨hsame', hreport', hopened, -⟩ := (dispatch_failed {} 32 p "BDC" [.name "Span", .null]
    (.shape .propertyList .null) rfl (.operator rfl rfl rfl)).1 nofun
  exact ⟨⟨hsame.gstate, (hkept nofun).2, hreport⟩, hsame'.gstate, (hopened _ _ rfl rfl).1, hreport'⟩

/-- Without a property list there is no section either: `BDC` with a tag alone opens nothing. -/
theorem dispatch_lacking_properties :
    ∃ e, Fails {} (runner {} 32) { executed := 1 } "BDC" [.name "Span"] e ∧ e ≠ .overflow ∧
      (({} : Processor).dispatch {} (runner {} 32) "BDC" [.name "Span"]).sections = [] ∧
      (({} : Processor).dispatch {} (runner {} 32) "BDC" [.name "Span"]).events = [] :=
  ⟨.arity "BDC" (.exact 2) 1, .arity rfl rfl, nofun, rfl, rfl⟩

end Processor

end ContentStream
