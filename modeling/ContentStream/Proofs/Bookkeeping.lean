import ContentStream.Proofs.Steps

/-!
# What a run only writes down

Operators write into the log, they are counted, and the events until a cancellation are counted down.
No operator reads any of this back. The count of open compatibility sections is read by the two
operators that change it, and where a word stands for no operator, and not otherwise.

**Theorem (`perform_recast`).** An instruction that runs no other stream does the same whatever was
written down before, and under whatever bounds.

**Theorem (`runner_recast`).** So do whole streams that run inside others, as long as the limit on
operators and the cancellation are as near: they add the same to what was told before.

A `Recast` replaces what was written down. It commutes with every way to write more.
-/

namespace ContentStream

/-- The setting with other bounds. -/
def Setting.under (s : Setting) (config : Config) (cancelled : Nat → Bool) : Setting :=
  { s with config, cancelled }

/-- Whether an instruction may run other streams. -/
def Instruction.runs : Instruction → Bool
  | .show _ | .xobject _ => true
  | _ => false

/-- Whether an instruction begins or ends a compatibility section. -/
def Instruction.countsCompat : Instruction → Bool
  | .beginCompat | .endCompat => true
  | _ => false

namespace Reply

/-- Changes the processor behind a reply, failed or not. -/
def map (f : Processor → Processor) : Reply → Reply
  | .done p => .done (f p)
  | .failed p e => .failed (f p) e

theorem map_attempt {α : Type} (f : Processor → Processor) (p : Processor) (found : Except Error α)
    (next : α → Reply) :
    (attempt p found next).map f = attempt (f p) found fun a => (next a).map f := by
  cases found <;> rfl

theorem map_commit (f : Processor → Processor) (p : Processor) (result : Except Error Processor) :
    (commit p result).map f = commit (f p) (result.map f) := by
  cases result <;> rfl

theorem map_andThen (f : Processor → Processor) (reply : Reply) {next next' : Processor → Reply}
    (h : ∀ p, next' (f p) = (next p).map f) :
    (reply.map f).andThen next' = (reply.andThen next).map f := by
  cases reply with
  | done p => exact h p
  | failed p e => rfl

theorem processor_map (f : Processor → Processor) (reply : Reply) :
    (reply.map f).processor = f reply.processor := by
  cases reply <;> rfl

end Reply

/-- A change of what was written down that commutes with writing more. -/
structure Recast where
  log : List LogEntry → List LogEntry
  executed : Nat → Nat
  cancelIn : Option Nat → Option Nat
  /-- The count of open compatibility sections, which only some changes touch. -/
  compat : Nat → Nat := id
  log_cons : ∀ entry told, log (entry :: told) = entry :: log told
  executed_succ : ∀ k, executed (k + 1) = executed k + 1
  cancelIn_pred : ∀ k, cancelIn (k.map (· - 1)) = (cancelIn k).map (· - 1)

/-- The change as a stream inside sees it, which counts its own compatibility sections. -/
def Recast.inner (f : Recast) : Recast := { f with compat := id }

namespace Processor

def recast (f : Recast) (p : Processor) : Processor :=
  { p with
    log := f.log p.log
    executed := f.executed p.executed
    cancelIn := f.cancelIn p.cancelIn
    compatDepth := f.compat p.compatDepth }

/-! ## Fonts -/

/-- A change of the processor that has nothing to do with its fonts. -/
structure FontBlind (f : Processor → Processor) : Prop where
  cache : ∀ p, (f p).fontCache = p.fontCache
  loads : ∀ p, (f p).fontLoads = p.fontLoads
  depth : ∀ p, (f p).depth = p.depth
  remember : ∀ p cache loads,
    { f p with fontCache := cache, fontLoads := loads } =
      f { p with fontCache := cache, fontLoads := loads }

theorem fontBlind_recast (f : Recast) : FontBlind (recast f) :=
  ⟨fun _ => rfl, fun _ => rfl, fun _ => rfl, fun _ _ _ => rfl⟩

section Fonts

variable {f : Processor → Processor} (s : Setting) (config : Config) (cancelled : Nat → Bool)
  (p : Processor)

theorem FontBlind.loadFont (hf : FontBlind f) (name : String) (ref : Option ObjectRef)
    (spec : Object) :
    (f p).loadFont (s.under config cancelled) name ref spec =
      (p.loadFont s name ref spec).map (Prod.map id f) := by
  unfold Processor.loadFont
  simp only [hf.cache, hf.loads, hf.remember, Setting.under]
  cases ref.bind fun r => p.fontCache.lookup r with
  | some known => rfl
  | none =>
    cases (s.table.resolve spec).asDict with
    | error e => rfl
    | ok dict =>
      dsimp only [bind, Except.bind]
      cases s.load s.table name dict <;> rfl

theorem FontBlind.applyFont (hf : FontBlind f) (value : Object) (g : GraphicsState) :
    StateDict.applyFont (s.under config cancelled) (f p) value g =
      Prod.map id f (StateDict.applyFont s p value g) := by
  unfold StateDict.applyFont
  split
  · rfl
  · dsimp only
    rw [hf.loadFont, hf.depth]
    cases p.loadFont s _ _ _ <;> rfl
  · rfl

theorem FontBlind.applyEntries (hf : FontBlind f) (g : GraphicsState) (d : List (String × Object)) :
    StateDict.applyEntries (s.under config cancelled) (f p) g d =
      Prod.map id f (StateDict.applyEntries s p g d) := by
  induction d generalizing p g with
  | nil => rfl
  | cons entry rest ih =>
    obtain ⟨key, raw⟩ := entry
    have htable : (s.under config cancelled).table = s.table := rfl
    simp only [StateDict.applyEntries, hf.applyFont, htable]
    by_cases hkey : key = "Font"
    · simp only [if_pos hkey]
      cases StateDict.applyFont s p (s.table.resolve raw) g with
      | mk result q =>
        cases result with
        | ok g' => exact ih q g'
        | error e => rfl
    · simp only [if_neg hkey]
      cases StateDict.applyEntry s.table key (s.table.resolve raw) g with
      | ok g' => exact ih p g'
      | error e => rfl

end Fonts

/-! ## What runs no other stream -/

section Local

variable (f : Recast) (s : Setting) (config : Config) (cancelled : Nat → Bool) (p : Processor)

theorem emit_recast (payload : EventPayload) :
    (p.recast f).emit (s.under config cancelled) payload = (p.emit s payload).recast f := by
  cases h : s.listening <;>
    simp [emit, Setting.under, recast, h, f.log_cons, f.cancelIn_pred]

theorem report_recast (operator : Option String) (e : Error) :
    (p.recast f).report operator e = (p.report operator e).recast f := by
  simp [report, recast, f.log_cons]

theorem breakDown_recast : (p.recast f).breakDown = p.breakDown.recast f := by
  simp [breakDown, recast, f.log_cons]

theorem lookup_recast (category name : String) :
    (p.recast f).lookup (s.under config cancelled) category name = p.lookup s category name :=
  rfl

theorem adjust_recast (change : GraphicsState → Except Error GraphicsState) :
    (p.recast f).adjust change = (p.adjust change).map (recast f) := by
  have hgstate : (p.recast f).gstate = p.gstate := rfl
  simp only [adjust, hgstate]
  cases change p.gstate <;> rfl

theorem restore_recast : (p.recast f).restore = p.restore.map (recast f) := by
  have hgstack : (p.recast f).gstack = p.gstack := rfl
  have hfloor : (p.recast f).gstackFloor = p.gstackFloor := rfl
  simp only [restore, hgstack, hfloor, apply_ite (Reply.map (recast f))]
  cases p.gstack <;> rfl

theorem applyStateDict_recast (name : String) :
    (p.recast f).applyStateDict (s.under config cancelled) name =
      (p.applyStateDict s name).map (recast f) := by
  simp only [applyStateDict, lookup_recast]
  cases p.lookup s "ExtGState" name >>= fun found => found.object.asDict with
  | error e => rfl
  | ok d =>
    have hgstate : (p.recast f).gstate = p.gstate := rfl
    simp only [(fontBlind_recast f).applyEntries, hgstate]
    cases StateDict.applyEntries s p p.gstate d with
    | mk result q => cases result <;> rfl

theorem selectFont_recast (name : String) (size : Decimal) :
    (p.recast f).selectFont (s.under config cancelled) name size =
      (p.selectFont s name size).map (recast f) := by
  simp only [selectFont, lookup_recast, (fontBlind_recast f).loadFont]
  cases p.lookup s "Font" name with
  | error e => rfl
  | ok found =>
    dsimp only [bind, Except.bind]
    cases p.loadFont s name found.ref found.object <;> rfl

theorem paintDevice_recast (style : PaintStyle) (device : Path) :
    (p.recast f).paintDevice (s.under config cancelled) style device =
      (p.paintDevice s style device).recast f := by
  simp only [paintDevice, emit_recast, apply_ite (recast f)]

theorem applyClip_recast (device : Path) (rule : FillRule) :
    (p.recast f).applyClip (s.under config cancelled) device rule =
      (p.applyClip s device rule).recast f :=
  emit_recast f s config cancelled
    { p with gstate.clip := p.gstate.clip.intersect device rule } _

theorem paint_recast (style : PaintStyle) :
    (p.recast f).paint (s.under config cancelled) style = (p.paint s style).map (recast f) := by
  have hgstate : (p.recast f).gstate = p.gstate := rfl
  have hpath : (p.recast f).path = p.path := rfl
  have hclip : (p.recast f).pendingClip = p.pendingClip := rfl
  let dropped : Processor := { p with path := {}, pendingClip := none }
  simp only [paint, hgstate, hpath, hclip]
  cases Path.transform? p.gstate.ctm (p.path.finished style.close) with
  | none => rfl
  | some device =>
    have hpainted := paintDevice_recast f s config cancelled dropped style device
    cases p.pendingClip with
    | none => exact congrArg Reply.done hpainted
    | some rule =>
      have hclipped := applyClip_recast f s config cancelled
        (dropped.paintDevice s style device) device rule
      rw [← hpainted] at hclipped
      exact congrArg Reply.done hclipped

theorem openSection_recast (label : MarkedContent) :
    (p.recast f).openSection (s.under config cancelled) label = (p.openSection s label).recast f :=
  emit_recast f s config cancelled { p with sections := label :: p.sections } (.sectionBegin label)

theorem beginSection_recast (tag : String) (props : Option Object) :
    (p.recast f).beginSection (s.under config cancelled) tag props =
      (p.beginSection s tag props).map (recast f) := by
  have hprops : (p.recast f).propertyList (s.under config cancelled) = p.propertyList s := rfl
  simp only [beginSection, hprops, openSection_recast]
  cases props.mapM (p.propertyList s) <;> rfl

theorem closeLatest_recast (n : Nat) :
    closeLatest (s.under config cancelled) n (p.recast f) = (closeLatest s n p).recast f := by
  induction n generalizing p with
  | zero => rfl
  | succ n ih =>
    have hsections : (p.recast f).sections = p.sections := rfl
    simp only [closeLatest, hsections]
    cases p.sections with
    | nil => rfl
    | cons label rest =>
      rw [← ih, ← emit_recast f s config cancelled]
      rfl

theorem closeSections_recast :
    (p.recast f).closeSections (s.under config cancelled) = (p.closeSections s).recast f := by
  have hsections : (p.recast f).sections = p.sections := rfl
  have hopen : (p.recast f).openSections = p.openSections := rfl
  simp only [closeSections, hsections, hopen, report_recast, closeLatest_recast,
    apply_ite (recast f)]

theorem enter_recast (run : NestedRun) (path : Option Path) :
    (p.recast f).enter (s.under config cancelled) run path =
      (p.enter s run path).recast f.inner := by
  unfold enter enterForm
  cases run.source with
  | form info ref =>
    cases path <;>
      refine Eq.trans ?_ (emit_recast f.inner s config cancelled _ (.formBegin info)) <;> rfl
  | glyph font procedure => rfl

theorem noteTruncation_recast : (p.recast f).noteTruncation = p.noteTruncation.recast f := by
  have habort : (p.recast f).abort = p.abort := rfl
  simp only [noteTruncation, habort]
  cases p.abort with
  | none => rfl
  | some reason =>
    cases reason with
    | truncated pos => exact report_recast f { p with abort := none, pos := pos } none .truncated
    | _ => rfl

theorem leave_recast (outer : Processor) (source : NestedSource) :
    (p.recast f.inner).leave (s.under config cancelled) (outer.recast f) source =
      (p.leave s outer source).recast f := by
  cases source with
  | form info ref =>
    simp only [leave, endSource, emit_recast]
    rfl
  | glyph font procedure => rfl

/-- **Local instructions.** What runs no other stream does the same whatever was written down. -/
theorem perform_recast {nested nested' : NestedRunner} {i : Instruction} (h : i.runs = false)
    (hcompat : i.countsCompat = false ∨ ∀ k, f.compat k = k) :
    (p.recast f).perform (s.under config cancelled) nested i =
      (p.perform s nested' i).map (recast f) := by
  cases i with
  | «show» | xobject => cases h
  | state c => exact adjust_recast f p (·.apply c)
  | restore => exact restore_recast f p
  | stateDict name => exact applyStateDict_recast f s config cancelled p name
  | path step =>
    have hpath : (p.recast f).path = p.path := rfl
    simp only [perform, hpath]
    cases p.path.step step <;> rfl
  | paint style => exact paint_recast f s config cancelled p style
  | font name size => simp only [perform, Reply.map_commit, selectFont_recast]
  | glyphMetrics operator metrics =>
    have hscopes : (p.recast f).scopes = p.scopes := rfl
    simp only [perform, Reply.map_commit, declareMetrics, hscopes, apply_ite (Except.map (recast f))]
    rfl
  | colorSpace side name =>
    have hspace : ColorSpace.ofName (s.under config cancelled).table (p.recast f).resources name =
      ColorSpace.ofName s.table p.resources name := rfl
    simp only [perform, selectColorSpace, hspace]
    cases ColorSpace.ofName s.table p.resources name <;> rfl
  | shading name =>
    simp only [perform, Reply.map_commit, showShading, lookup_recast, emit_recast]
    cases p.lookup s "Shading" name <;> rfl
  | inlineImage image =>
    exact congrArg Reply.done (emit_recast f s config cancelled
      { p with inlineImages := p.inlineImages + 1 } _)
  | markPoint tag props =>
    have hprops : (p.recast f).propertyList (s.under config cancelled) = p.propertyList s := rfl
    simp only [perform, Reply.map_commit, markPoint, hprops, emit_recast]
    cases props.mapM (p.propertyList s) <;> rfl
  | beginSection tag props => exact beginSection_recast f s config cancelled p tag props
  | endSection =>
    have hopen : (p.recast f).openSections = p.openSections := rfl
    simp only [perform, endSection, closeLatest_recast, hopen, apply_ite (Reply.map (recast f))]
    rfl
  | beginCompat | endCompat =>
    have hsame := hcompat.resolve_left Bool.noConfusion
    simp only [perform, recast, Reply.map, hsame]
  | _ => rfl

end Local

/-! ## Whole streams -/

/-- Running streams commutes with the change. -/
def Recast.Commutes (f : Recast) (nested : NestedRunner) : Prop :=
  ∀ run p, nested run (recast f p) = (nested run p).map (recast f)

section Streams

variable {f : Recast} {s : Setting} {nested : NestedRunner}

theorem runGlyph_recast (hn : Recast.Commutes f nested) (operator : String) (font : SelectedFont)
    (m : Matrix) (code : Nat) (p : Processor) :
    (p.recast f).runGlyph s nested operator font m code =
      (p.runGlyph s nested operator font m code).map (recast f) := by
  unfold runGlyph
  split
  · rfl
  · cases font.font.procedure? code with
    | none => rfl
    | some procedure =>
      cases font.font.matrix.mul? m with
      | none => rfl
      | some ctm =>
        simp only [hn _ p]
        cases nested _ p with
        | done q => rfl
        | failed q e => exact congrArg Reply.done (report_recast f q _ e)

theorem showGlyph_recast (hn : Recast.Commutes f nested) (operator : String) (font : SelectedFont)
    (c : CharCode) (p : Processor) :
    (p.recast f).showGlyph s nested operator font c =
      (p.showGlyph s nested operator font c).map (recast f) := by
  have hgstate : (p.recast f).gstate = p.gstate := rfl
  simp only [showGlyph, hgstate]
  cases p.gstate.renderingMatrix? with
  | none => rfl
  | some m =>
    cases p.gstate.advance? font.font c with
    | none => rfl
    | some advance =>
      dsimp only
      rw [show (p.recast f).emit s _ = (p.emit s _).recast f from
        emit_recast f s s.config s.cancelled p _, runGlyph_recast hn]
      exact Reply.map_andThen (recast f) _ fun q => adjust_recast f q _

theorem showCodes_recast (hn : Recast.Commutes f nested) (operator : String) (font : SelectedFont)
    (codes : List CharCode) (p : Processor) :
    showCodes s nested operator font codes (p.recast f) =
      (showCodes s nested operator font codes p).map (recast f) := by
  induction codes generalizing p with
  | nil => rfl
  | cons c rest ih =>
    simp only [showCodes, showGlyph_recast hn]
    exact Reply.map_andThen (recast f) _ ih

theorem showItems_recast (hn : Recast.Commutes f nested) (operator : String) (font : SelectedFont)
    (items : List TextItem) (p : Processor) :
    showItems s nested operator font items (p.recast f) =
      (showItems s nested operator font items p).map (recast f) := by
  induction items generalizing p with
  | nil => rfl
  | cons item rest ih =>
    cases item with
    | shift amount =>
      simp only [showItems, adjust_recast]
      exact Reply.map_andThen (recast f) _ ih
    | string bytes =>
      simp only [showItems, showCodes_recast hn]
      exact Reply.map_andThen (recast f) _ ih

theorem showText_recast (hn : Recast.Commutes f nested) (text : Showing) (p : Processor) :
    (p.recast f).showText s nested text = (p.showText s nested text).map (recast f) := by
  have hfont : (p.recast f).gstate.text.font = p.gstate.text.font := rfl
  have hspacing : (p.recast f).setSpacing text.spacing = (p.setSpacing text.spacing).recast f := by
    cases text.spacing <;> rfl
  simp only [showText, hfont, hspacing]
  cases p.gstate.text.font with
  | none => rfl
  | some font =>
    refine Eq.trans ?_ (Reply.map_andThen (recast f) _ (showItems_recast hn _ font _))
    cases text.newLine with
    | false => rfl
    | true =>
      exact congrArg (Reply.andThen · _) (adjust_recast f (p.setSpacing text.spacing) _)

theorem showExternal_recast (hn : Recast.Commutes f nested) (name : String) (p : Processor) :
    (p.recast f).showExternal s nested name = (p.showExternal s nested name).map (recast f) := by
  have hobject : (p.recast f).externalObject s name = p.externalObject s name := rfl
  have hform : ∀ ref form, (p.recast f).formRun s name ref form = p.formRun s name ref form :=
    fun _ _ => rfl
  simp only [showExternal, hobject]
  cases p.externalObject s name with
  | error e => rfl
  | ok found =>
    obtain ⟨ref, object⟩ := found
    simp only [Reply.attempt, hform]
    split
    · cases p.formRun s name ref object with
      | error e => rfl
      | ok run => exact hn run p
    · exact congrArg Reply.done (emit_recast f s s.config s.cancelled p _)
    · rfl

theorem operate_recast (hn : Recast.Commutes f nested) {op : Operator} {args : Operands}
    (hcompat : (∀ i, op.read args = .ok i → i.countsCompat = false) ∨ ∀ k, f.compat k = k)
    (p : Processor) :
    (p.recast f).operate s nested op args = (p.operate s nested op args).map (recast f) := by
  unfold operate
  rw [Reply.map_attempt]
  cases hread : op.read args with
  | error e => rfl
  | ok i =>
    cases hruns : i.runs with
    | false =>
      exact perform_recast f s s.config s.cancelled p hruns (hcompat.imp_left fun h => h i hread)
    | true =>
      cases i with
      | «show» text => exact showText_recast hn text p
      | xobject name => exact showExternal_recast hn name p
      | _ => cases hruns

theorem settle_recast (pos : Nat) (word : String) (reply : Reply) :
    settle pos word (reply.map (recast f)) = (settle pos word reply).recast f := by
  cases reply with
  | done q => rfl
  | failed q e => exact report_recast f { q with pos := pos } (some word) e

section Counted

variable (hcompat : ∀ k, f.compat k = k)
include hcompat

theorem executeWord_recast (hn : Recast.Commutes f nested) (word : String) (args : List Object)
    (p : Processor) :
    (p.recast f).executeWord s nested word args = (p.executeWord s nested word args).recast f := by
  have hdepth : (p.recast f).compatDepth = p.compatDepth := hcompat _
  have hpos : (p.recast f).pos = p.pos := rfl
  unfold executeWord
  cases Operator.find? word with
  | none => simp only [hdepth, report_recast, apply_ite (recast f)]
  | some found =>
    simp only [report_recast, apply_ite (recast f), hpos, operate_recast hn (.inr hcompat),
      settle_recast]

variable (hlimit : s.config.maxOperators = none ∨ ∀ k, f.executed k = k)
include hlimit

theorem dispatch_recast (hn : Recast.Commutes f nested) (word : String) (args : List Object)
    (p : Processor) :
    (p.recast f).dispatch s nested word args = (p.dispatch s nested word args).recast f := by
  have hroom : (p.recast f).exhausted s = p.exhausted s := by
    rcases hlimit with hnone | hsame
    · simp only [exhausted, hnone, Option.any_none]
    · simp only [exhausted, recast, hsame]
  have hcounted : ({ p.recast f with executed := (p.recast f).executed + 1 } : Processor) =
      ({ p with executed := p.executed + 1 } : Processor).recast f := by
    simp [recast, f.executed_succ]
  simp only [dispatch, hroom, hcounted, executeWord_recast hcompat hn, apply_ite (recast f)]
  rfl

theorem dispatchImage_recast (hn : Recast.Commutes f nested) (image : Stream) (args : List Object)
    (p : Processor) :
    (p.recast f).dispatchImage s nested image args =
      (p.dispatchImage s nested image args).recast f := by
  simp only [dispatchImage, dispatch_recast hcompat hlimit hn, report_recast, apply_ite (recast f)]

omit hcompat hlimit in
theorem poll_recast (hcancel : ∀ k, f.cancelIn k = k) (p : Processor) :
    (p.recast f).poll s = (p.poll s).recast f := by
  have habort : (p.recast f).abort = p.abort := rfl
  unfold poll
  rw [habort]
  split
  · rfl
  · simp only [recast, hcancel]

theorem executeItems_recast (hcancel : ∀ k, f.cancelIn k = k) (hn : Recast.Commutes f nested)
    (items : List ItemAt) (operands : List Object) (p : Processor) :
    executeItems s nested items operands (p.recast f) =
      (executeItems s nested items operands p).recast f := by
  induction items generalizing operands p with
  | nil => rfl
  | cons item rest ih =>
    obtain ⟨pos, item⟩ := item
    simp only [executeItems, poll_recast hcancel]
    generalize p.poll s = q
    let placed : Processor := { q with pos := pos }
    have habort : (q.recast f).abort = q.abort := rfl
    rw [habort]
    split
    · exact breakDown_recast f p
    · split
      · rfl
      · split
        · exact ih _ placed
        · exact (congrArg _ (dispatch_recast hcompat hlimit hn _ _ placed)).trans (ih _ _)
        · exact (congrArg _ (dispatchImage_recast hcompat hlimit hn _ _ placed)).trans (ih _ _)
        · rfl
        · exact (congrArg _ (report_recast f placed none _)).trans (ih _ _)

theorem execute_recast (hcancel : ∀ k, f.cancelIn k = k) (hn : Recast.Commutes f nested)
    (items : List ItemAt) (p : Processor) :
    (p.recast f).execute s nested items = (p.execute s nested items).recast f := by
  have hfloor : ({ p.recast f with sectionFloor := (p.recast f).sections.length } : Processor) =
    ({ p with sectionFloor := p.sections.length } : Processor).recast f := rfl
  have hclose : ∀ q : Processor, (q.recast f).closeSections s = (q.closeSections s).recast f :=
    closeSections_recast f s s.config s.cancelled
  simp only [execute, hfloor, executeItems_recast hcompat hlimit hcancel hn, hclose]
  rfl

end Counted

/-- A stream inside counts from nothing, and behind it the count is put back: so this one count may be
changed in any way. -/
theorem runNested_recast (hlimit : s.config.maxOperators = none ∨ ∀ k, f.executed k = k)
    (hcancel : ∀ k, f.cancelIn k = k) (hn : Recast.Commutes f.inner nested) (run : NestedRun)
    (p : Processor) :
    (p.recast f).runNested s nested run = (p.runNested s nested run).map (recast f) := by
  have hactive : (p.recast f).isActive run.source = p.isActive run.source := by
    cases run.source <;> rfl
  have hdepth : (p.recast f).depth = p.depth := rfl
  have henter : ∀ clip, (p.recast f).enter s run clip = (p.enter s run clip).recast f.inner :=
    enter_recast f s s.config s.cancelled p run
  have hexecute : ∀ (q : Processor) (items : List ItemAt),
      (q.recast f.inner).execute s nested items = (q.execute s nested items).recast f.inner :=
    fun q items => execute_recast (f := f.inner) (fun _ => rfl) hlimit hcancel hn items q
  have hleave : ∀ q : Processor, (q.recast f.inner).leave s (p.recast f) run.source =
      (q.leave s p run.source).recast f :=
    fun q => leave_recast f s s.config s.cancelled q p run.source
  simp only [runNested, hactive, hdepth, henter, hexecute, noteTruncation_recast, hleave,
    apply_ite (Reply.map (recast f)), Reply.map_attempt]
  rfl

/-- **Streams inside others** do the same whatever was written down before them. -/
theorem runner_recast (hlimit : s.config.maxOperators = none ∨ ∀ k, f.executed k = k)
    (hcancel : ∀ k, f.cancelIn k = k) (n : Nat) : Recast.Commutes f (runner s n) := by
  induction n generalizing f with
  | zero => exact fun _ _ => rfl
  | succ n ih =>
    intro run p
    exact runNested_recast hlimit hcancel (ih (f := f.inner) hlimit hcancel) run p

end Streams

end Processor

end ContentStream
