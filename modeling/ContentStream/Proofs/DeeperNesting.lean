import ContentStream.Proofs.Nesting
import ContentStream.Proofs.StoppingEarly

/-!
# Raising the limit on nesting

A stream is refused if it would run too deep or inside itself, and whoever asked for it reports the
refusal. So a run that reports none was never held back by the limit on nesting.

* `Setting.nestedTo`: the same setting with another limit.
* `Unrefused`: no refusal was heard of so far.
* `Alike`: two processors that are the same, or of which the same was heard before both broke down.
* `Extends`: a way to run streams that gives every answer of another one that is no refusal.

**Theorem (`runner_extends`).** A larger budget gives every answer of a smaller one that is no
refusal.

**Theorem (`process_nestedTo`).** A page without refusals runs the same under every higher limit.
-/

namespace ContentStream

/-- Whether a stream was refused for where it would have run. -/
def Error.isRefusal : Error → Bool
  | .nesting .. => true
  | _ => false

def LogEntry.isRefusal : LogEntry → Bool
  | .diagnostic d => d.error.isRefusal
  | _ => false

/-- The same setting with another limit on nesting. -/
def Setting.nestedTo (s : Setting) (limit : Nat) : Setting := { s with config.maxDepth := limit }

/-- No refusal was heard of so far. -/
def Processor.Unrefused (p : Processor) : Prop := ∀ entry ∈ p.heard, entry.isRefusal = false

/-- No refusal was heard of, and none is left to report. -/
def Reply.Unrefused : Reply → Prop
  | .done p => p.Unrefused
  | .failed p e => p.Unrefused ∧ (p.broken = false → e.isRefusal = false)

namespace Processor

variable {s : Setting} {limit n m : Nat} {b : Bool} {p p' q q' : Processor}
  {nested nested' : NestedRunner}

/-! ## Refusals stay on record -/

theorem ToldWithin.suffix {depth : Nat} (h : ToldWithin depth p q) : p.log <:+ q.log := by
  obtain ⟨told, hlog, -⟩ := h
  exact ⟨told, hlog.symm⟩

theorem Steps.suffix (h : Steps s n b p q) : p.log <:+ q.log := h.toldWithin.suffix

theorem Unrefused.before (hq : q.Unrefused) (h : p.log <:+ q.log) : p.Unrefused :=
  fun entry hentry => hq entry ((heard_isPrefix_of_suffix h).subset hentry)

theorem Unrefused.of_report {operator : Option String} {e : Error}
    (h : (p.report operator e).Unrefused) :
    p.Unrefused ∧ (p.broken = false → e.isRefusal = false) := by
  refine ⟨h.before (List.suffix_cons _ _), fun hwhole => ?_⟩
  refine h (.diagnostic ⟨p.pos, p.depth, operator, e⟩) ?_
  rw [heard_of_not_broken (p := p.report operator e) hwhole]
  exact List.mem_reverse.2 List.mem_cons_self

theorem Unrefused.of_settle {pos : Nat} {word : String} {reply : Reply}
    (h : (settle pos word reply).Unrefused) : reply.Unrefused := by
  cases reply with
  | done q => exact h
  | failed q e => exact Unrefused.of_report (p := { q with pos := pos }) h

theorem leave_suffix (s : Setting) (p outer : Processor) (source : NestedSource) :
    p.log <:+ (p.leave s outer source).log := by
  cases source with
  | form info ref => exact (emit_toldWithin s p (.formEnd info)).suffix
  | glyph font procedure => exact List.suffix_refl _

theorem settle_suffix (pos : Nat) (word : String) (reply : Reply) :
    reply.processor.log <:+ (settle pos word reply).log := by
  cases reply with
  | done q => exact List.suffix_refl _
  | failed q e => exact List.suffix_cons _ _

theorem unrefused_processor (reply : Reply) (h : reply.Unrefused) : reply.processor.Unrefused := by
  cases reply with
  | done q => exact h
  | failed q e => exact h.1

theorem unrefused_of_andThen {reply : Reply} {next : Processor → Reply}
    (hnext : ∀ q, Steps s n b q (next q).processor) (h : (reply.andThen next).Unrefused) :
    reply.Unrefused := by
  cases reply with
  | done q => exact (unrefused_processor (next q) h).before (hnext q).suffix
  | failed q e => exact h

/-! ## Runs that cannot be told apart -/

/-- Both have broken down, and before that the same was heard of them. -/
structure BothBroken (p q : Processor) : Prop where
  left : p.broken = true
  right : q.broken = true
  heard : q.heard = p.heard

theorem BothBroken.later (h : BothBroken p p') (hq : p.log <:+ q.log) (hq' : p'.log <:+ q'.log) :
    BothBroken q q' := by
  obtain ⟨hbroken, hheard⟩ := heard_of_broken hq h.left
  obtain ⟨hbroken', hheard'⟩ := heard_of_broken hq' h.right
  exact ⟨hbroken, hbroken', by rw [hheard', hheard, h.heard]⟩

/-- Whatever two runs do behind a breakdown, nobody can tell them apart. -/
theorem BothBroken.behind (h : p.broken = true) (hq : p.log <:+ q.log) (hq' : p.log <:+ q'.log) :
    BothBroken q q' :=
  BothBroken.later ⟨h, h, rfl⟩ hq hq'

/-- Nobody can tell the two apart. -/
def Alike (p q : Processor) : Prop := q = p ∨ BothBroken p q

def AlikeReply (reply reply' : Reply) : Prop :=
  reply' = reply ∨ BothBroken reply.processor reply'.processor

theorem AlikeReply.settle {reply reply' : Reply} (h : AlikeReply reply reply') (pos : Nat)
    (word : String) : Alike (settle pos word reply) (settle pos word reply') := by
  rcases h with rfl | h
  · exact .inl rfl
  · exact .inr (h.later (settle_suffix pos word reply) (settle_suffix pos word reply'))

theorem Alike.outcome_eq (h : Alike p q) : q.outcome = p.outcome ∧ q.ended = p.ended := by
  rcases h with rfl | h
  · exact ⟨rfl, rfl⟩
  · simp only [outcome, ended, h.left, h.right, if_true, h.heard, and_self]

/-! ## Text -/

/-- A way to run streams that gives every answer of another one that is no refusal. -/
def Extends (nested nested' : NestedRunner) : Prop :=
  ∀ run p, (nested run p).Unrefused → AlikeReply (nested run p) (nested' run p)

theorem andThen_nestedTo {reply reply' : Reply} {next next' : Processor → Reply} {s' : Setting}
    (hnext : ∀ q, Steps s n b q (next q).processor)
    (hnext' : ∀ q, Steps s' m b q (next' q).processor)
    (hreply : reply.Unrefused → AlikeReply reply reply')
    (hlater : ∀ q, (next q).Unrefused → AlikeReply (next q) (next' q))
    (h : (reply.andThen next).Unrefused) :
    AlikeReply (reply.andThen next) (reply'.andThen next') := by
  rcases hreply (unrefused_of_andThen hnext h) with rfl | hbroken
  · cases reply' with
    | done q => exact hlater q h
    | failed q e => exact .inl rfl
  · refine .inr (hbroken.later ?_ ?_)
    · cases reply with
      | done q => exact (hnext q).suffix
      | failed q e => exact List.suffix_refl _
    · cases reply' with
      | done q => exact (hnext' q).suffix
      | failed q e => exact List.suffix_refl _

theorem runGlyph_nestedTo (hx : Extends nested nested') {operator : String} {font : SelectedFont}
    {matrix : Matrix} {code : Nat}
    (h : (p.runGlyph s nested operator font matrix code).Unrefused) :
    AlikeReply (p.runGlyph s nested operator font matrix code)
      (p.runGlyph (s.nestedTo limit) nested' operator font matrix code) := by
  have hglyphs : (s.nestedTo limit).config.runGlyphs = s.config.runGlyphs := rfl
  simp only [runGlyph, hglyphs] at h ⊢
  split
  · exact .inl rfl
  · rename_i hrun
    rw [if_neg hrun] at h
    cases hprocedure : font.font.procedure? code with
    | none => exact .inl rfl
    | some procedure =>
      cases hctm : font.font.matrix.mul? matrix with
      | none => exact .inl rfl
      | some ctm =>
        simp only [hprocedure, hctm] at h ⊢
        generalize hasked : NestedRun.mk _ _ _ _ = run at h ⊢
        -- A refusal would be reported here.
        have hreply : (nested run p).Unrefused := by
          revert h
          cases nested run p with
          | done q => exact id
          | failed q e => exact Unrefused.of_report
        rcases hx run p hreply with heq | hbroken
        · exact .inl (by rw [heq])
        · refine .inr (hbroken.later ?_ ?_)
          · cases nested run p with
            | done q => exact List.suffix_refl _
            | failed q e => exact List.suffix_cons _ _
          · cases nested' run p with
            | done q => exact List.suffix_refl _
            | failed q e => exact List.suffix_cons _ _

theorem showGlyph_nestedTo (hx : Extends nested nested') {operator : String} {font : SelectedFont}
    {c : CharCode} (h : (p.showGlyph s nested operator font c).Unrefused) :
    AlikeReply (p.showGlyph s nested operator font c)
      (p.showGlyph (s.nestedTo limit) nested' operator font c) := by
  unfold showGlyph at h ⊢
  cases hmatrix : p.gstate.renderingMatrix? with
  | none => exact .inl rfl
  | some matrix =>
    cases hdistance : p.gstate.advance? font.font c with
    | none => exact .inl rfl
    | some distance =>
      simp only [hmatrix, hdistance] at h ⊢
      have hadvance : ∀ q : Processor,
          Steps s 0 false q (q.adjust fun g => g.advanceText distance).processor := fun q =>
        adjust_steps fun g hg => .advance hg
      exact andThen_nestedTo hadvance hadvance (runGlyph_nestedTo hx) (fun _ _ => .inl rfl) h

section Following

variable (hn : Follows s n nested) (hn' : Follows (s.nestedTo limit) m nested')
  (hx : Extends nested nested')
include hn hn' hx

theorem showCodes_nestedTo {operator : String} {font : SelectedFont} {codes : List CharCode}
    (h : (showCodes s nested operator font codes p).Unrefused) :
    AlikeReply (showCodes s nested operator font codes p)
      (showCodes (s.nestedTo limit) nested' operator font codes p) := by
  induction codes generalizing p with
  | nil => exact .inl rfl
  | cons c rest ih =>
    exact andThen_nestedTo (showCodes_steps (b := false) hn operator font rest)
      (showCodes_steps hn' operator font rest) (showGlyph_nestedTo hx) (fun _ => ih) h

theorem showItems_nestedTo {operator : String} {font : SelectedFont} {items : List TextItem}
    (h : (showItems s nested operator font items p).Unrefused) :
    AlikeReply (showItems s nested operator font items p)
      (showItems (s.nestedTo limit) nested' operator font items p) := by
  induction items generalizing p with
  | nil => exact .inl rfl
  | cons item rest ih =>
    have hrest := showItems_steps (b := false) hn operator font rest
    have hrest' := showItems_steps (b := false) hn' operator font rest
    cases item with
    | shift amount => exact andThen_nestedTo hrest hrest' (fun _ => .inl rfl) (fun _ => ih) h
    | string bytes =>
      exact andThen_nestedTo hrest hrest' (showCodes_nestedTo hn hn' hx) (fun _ => ih) h

theorem showText_nestedTo {text : Showing} (h : (p.showText s nested text).Unrefused) :
    AlikeReply (p.showText s nested text) (p.showText (s.nestedTo limit) nested' text) := by
  unfold showText at h ⊢
  cases hfont : p.gstate.text.font with
  | none => exact .inl rfl
  | some font =>
    simp only [hfont] at h ⊢
    exact andThen_nestedTo (showItems_steps (b := false) hn text.operator font text.items)
      (showItems_steps hn' text.operator font text.items) (fun _ => .inl rfl)
      (fun _ => showItems_nestedTo hn hn' hx) h

end Following

/-! ## Operators -/

theorem showExternal_nestedTo (hx : Extends nested nested') {name : String}
    (h : (p.showExternal s nested name).Unrefused) :
    AlikeReply (p.showExternal s nested name) (p.showExternal (s.nestedTo limit) nested' name) := by
  have hobject : p.externalObject (s.nestedTo limit) name = p.externalObject s name := rfl
  have hform : ∀ ref form, p.formRun (s.nestedTo limit) name ref form = p.formRun s name ref form :=
    fun _ _ => rfl
  have htable : (s.nestedTo limit).table = s.table := rfl
  simp only [showExternal, hobject, hform, htable] at h ⊢
  cases hfound : p.externalObject s name with
  | error e => exact .inl rfl
  | ok found =>
    obtain ⟨ref, object⟩ := found
    simp only [hfound, Reply.attempt] at h ⊢
    split
    · rename_i hkind
      cases hrun : p.formRun s name ref object with
      | error e => exact .inl rfl
      | ok run =>
        simp only [hkind, hrun] at h ⊢
        exact hx run p h
    · exact .inl rfl
    · exact .inl rfl

theorem applyEntries_nestedTo (d : List (String × Object)) (p : Processor) (g : GraphicsState) :
    StateDict.applyEntries (s.nestedTo limit) p g d = StateDict.applyEntries s p g d := by
  induction d generalizing p g with
  | nil => rfl
  | cons entry rest ih =>
    have hfont : ∀ value, StateDict.applyFont (s.nestedTo limit) p value g =
      StateDict.applyFont s p value g := fun _ => rfl
    have htable : (s.nestedTo limit).table = s.table := rfl
    simp only [StateDict.applyEntries, hfont, htable, ih]

/-- What runs no other stream does not depend on the limit. -/
theorem perform_nestedTo_of_local {i : Instruction} (h : i.runs = false) :
    p.perform (s.nestedTo limit) nested' i = p.perform s nested i := by
  cases i with
  | «show» | xobject => cases h
  | stateDict name =>
    have hlookup : p.lookup (s.nestedTo limit) "ExtGState" name = p.lookup s "ExtGState" name := rfl
    simp only [perform, applyStateDict, hlookup, applyEntries_nestedTo]
  | _ => rfl

section Following

variable (hn : Follows s n nested) (hn' : Follows (s.nestedTo limit) m nested')
  (hx : Extends nested nested')
include hn hn' hx

theorem perform_nestedTo {i : Instruction} (h : (p.perform s nested i).Unrefused) :
    AlikeReply (p.perform s nested i) (p.perform (s.nestedTo limit) nested' i) := by
  cases hruns : i.runs with
  | false => exact .inl (perform_nestedTo_of_local hruns)
  | true =>
    cases i with
    | «show» text => exact showText_nestedTo hn hn' hx h
    | xobject name => exact showExternal_nestedTo hx h
    | _ => cases hruns

theorem executeWord_nestedTo {word : String} {args : List Object}
    (h : (p.executeWord s nested word args).Unrefused) :
    Alike (p.executeWord s nested word args)
      (p.executeWord (s.nestedTo limit) nested' word args) := by
  unfold executeWord at h ⊢
  cases hfind : Operator.find? word with
  | none => exact .inl rfl
  | some found =>
    obtain ⟨op, arity⟩ := found
    simp only [hfind] at h ⊢
    split
    · rename_i harity
      rw [if_pos harity] at h
      refine AlikeReply.settle ?_ p.pos word
      replace h := h.of_settle
      unfold operate at h ⊢
      cases hread : op.read ⟨word, args⟩ with
      | error e => exact .inl rfl
      | ok i =>
        rw [hread] at h
        exact perform_nestedTo hn hn' hx h
    · exact .inl rfl

theorem dispatch_nestedTo {word : String} {args : List Object}
    (h : (p.dispatch s nested word args).Unrefused) :
    Alike (p.dispatch s nested word args) (p.dispatch (s.nestedTo limit) nested' word args) := by
  have hexhausted : p.exhausted (s.nestedTo limit) = p.exhausted s := rfl
  unfold dispatch at h ⊢
  rw [hexhausted]
  split
  · exact .inl rfl
  · rename_i hgo
    rw [if_neg hgo] at h
    exact executeWord_nestedTo hn hn' hx h

theorem dispatchImage_nestedTo {image : Stream} {args : List Object}
    (h : (p.dispatchImage s nested image args).Unrefused) :
    Alike (p.dispatchImage s nested image args)
      (p.dispatchImage (s.nestedTo limit) nested' image args) := by
  unfold dispatchImage at h ⊢
  split
  · rename_i hempty
    rw [if_pos hempty] at h
    exact dispatch_nestedTo hn hn' hx h
  · exact .inl rfl

/-! ## Streams -/

theorem executeItems_nestedTo {items : List ItemAt} {operands : List Object}
    (h : (executeItems s nested items operands p).Unrefused) :
    Alike (executeItems s nested items operands p)
      (executeItems (s.nestedTo limit) nested' items operands p) := by
  induction items generalizing operands p with
  | nil => exact .inl rfl
  | cons item rest ih =>
    obtain ⟨pos, item⟩ := item
    have hpoll : p.poll (s.nestedTo limit) = p.poll s := rfl
    -- What comes behind an operator. The stream reports no refusal to its end, so none up to here.
    have hrest : ∀ {q q' : Processor}, (q.Unrefused → Alike q q') →
        (executeItems s nested rest [] q).Unrefused →
        Alike (executeItems s nested rest [] q)
          (executeItems (s.nestedTo limit) nested' rest [] q') := by
      intro q q' hq h
      have hsteps := executeItems_steps hn rest [] q
      rcases hq (h.before hsteps.suffix) with rfl | hbroken
      · exact ih h
      · exact .inr (hbroken.later hsteps.suffix (executeItems_steps hn' rest [] q').suffix)
    simp only [executeItems, hpoll] at h ⊢
    split
    · exact .inl rfl
    · rename_i hbreaks
      rw [if_neg hbreaks] at h
      split
      · exact .inl rfl
      · rename_i hgo
        rw [if_neg hgo] at h
        split
        · exact ih h
        · exact hrest (dispatch_nestedTo hn hn' hx) h
        · exact hrest (dispatchImage_nestedTo hn hn' hx) h
        · exact .inl rfl
        · exact ih (by simpa using h)

end Following

theorem closeLatest_nestedTo (k : Nat) (p : Processor) :
    closeLatest (s.nestedTo limit) k p = closeLatest s k p := by
  induction k generalizing p with
  | zero => rfl
  | succ k ih =>
    have hone : closeLatest (s.nestedTo limit) 1 p = closeLatest s 1 p := rfl
    rw [closeLatest_succ s, closeLatest_succ (s.nestedTo limit), hone, ih]

theorem closeSections_nestedTo (p : Processor) :
    p.closeSections (s.nestedTo limit) = p.closeSections s := by
  simp only [closeSections, closeLatest_nestedTo]

theorem closeSections_suffix (s : Setting) (p : Processor) : p.log <:+ (p.closeSections s).log :=
  (closeSections_steps (n := 0) (b := false) s p).1.suffix

theorem execute_nestedTo (hn : Follows s n nested) (hn' : Follows (s.nestedTo limit) m nested')
    (hx : Extends nested nested') {items : List ItemAt}
    (h : (p.execute s nested items).Unrefused) :
    Alike (p.execute s nested items) (p.execute (s.nestedTo limit) nested' items) := by
  let inner : Processor := { p with sectionFloor := p.sections.length }
  have hitems : (executeItems s nested items [] inner).Unrefused :=
    Unrefused.before (q := p.execute s nested items) h (closeSections_suffix s _)
  rcases executeItems_nestedTo hn hn' hx hitems with heq | hbroken
  · refine .inl ?_
    simp only [execute, closeSections_nestedTo]
    rw [heq]
  · exact .inr (hbroken.later (closeSections_suffix s _) (closeSections_suffix (s.nestedTo limit) _))

theorem leave_nestedTo (p outer : Processor) (source : NestedSource) :
    p.leave (s.nestedTo limit) outer source = p.leave s outer source := by
  cases source with
  | form info ref => rfl
  | glyph font procedure => rfl

theorem enter_nestedTo (p : Processor) (run : NestedRun) (clip : Option Path) :
    p.enter (s.nestedTo limit) run clip = p.enter s run clip := rfl

theorem runNested_nestedTo (hn : Follows s n nested) (hn' : Follows (s.nestedTo limit) m nested')
    (hx : Extends nested nested') {run : NestedRun} (h : (p.runNested s nested run).Unrefused) :
    AlikeReply (p.runNested s nested run) (p.runNested (s.nestedTo limit) nested' run) := by
  unfold runNested at h ⊢
  split
  · rename_i hactive
    rw [if_pos hactive] at h
    -- A refusal that is not heard of comes behind a breakdown.
    cases hbroken : p.broken with
    | false => cases h.2 hbroken
    | true => exact .inr ⟨hbroken, hbroken, rfl⟩
  · rename_i hactive
    rw [if_neg hactive] at h
    cases hclip : run.clipPath with
    | error e =>
      simp only [Reply.attempt]
      exact .inl rfl
    | ok clip =>
      simp only [hclip, Reply.attempt, Reply.Unrefused] at h ⊢
      have hleave : ∀ (s : Setting) (inner : Processor),
          inner.log <:+ (inner.noteTruncation.leave s p run.source).log := fun s inner =>
        (noteTruncation_toldWithin inner).suffix.trans (leave_suffix s _ p run.source)
      have hinner : ((p.enter s run clip).execute s nested (Content.itemsOf run.data)).Unrefused :=
        h.before (hleave s _)
      rw [enter_nestedTo]
      rcases execute_nestedTo hn hn' hx hinner with heq | hbroken
      · exact .inl (by rw [heq, leave_nestedTo])
      · exact .inr (hbroken.later (hleave s _) (hleave (s.nestedTo limit) _))

theorem runner_suffix (s : Setting) (n : Nat) (run : NestedRun) (p : Processor) :
    p.log <:+ (runner s n run p).processor.log := by
  cases n with
  | zero => exact List.suffix_refl _
  | succ n =>
    show p.log <:+ (p.runNested s (runner s n) run).processor.log
    rcases runNested_cases (runner_steps s n) run p with ⟨e, h⟩ | ⟨clip, inner, -, -, hsteps, -, h⟩
    · rw [h]
      exact List.suffix_refl _
    · rw [h]
      exact (beginNested_toldWithin s p run clip).suffix.trans
        (hsteps.suffix.trans (endNested_toldWithin s p run inner).suffix)

/-- **Larger budgets.** A larger budget gives every answer of a smaller one that is no refusal. -/
theorem runner_extends (s : Setting) (limit : Nat) (hnm : n ≤ m) :
    Extends (runner s n) (runner (s.nestedTo limit) m) := by
  induction n generalizing m with
  | zero =>
    intro run p h
    cases hbroken : p.broken with
    | false => cases h.2 hbroken
    | true => exact .inr (.behind hbroken (List.suffix_refl _) (runner_suffix ..))
  | succ n ih =>
    intro run p h
    cases m with
    | zero => cases hnm
    | succ m =>
      exact runNested_nestedTo (runner_steps s n) (runner_steps (s.nestedTo limit) m)
        (ih (Nat.le_of_succ_le_succ hnm)) h

/-! ## Pages -/

theorem unrefused_of_diagnostics (h : ∀ d ∈ p.outcome.diagnostics, d.error.isRefusal = false) :
    p.Unrefused := by
  rw [outcome_diagnostics] at h
  intro entry hentry
  cases entry with
  | diagnostic d => exact h d (List.mem_filterMap.2 ⟨_, hentry, rfl⟩)
  | event e => rfl
  | breakdown => rfl

/-- **Raising the limit on nesting.** If a page holds no diagnostic of a refused stream, then it has
the same outcome under every higher limit, and leaves the same processor behind: the same events and
the same graphics state among the rest. If it breaks down, it does so under every higher limit, and
the same has been heard of it by then. -/
theorem process_nestedTo (s : Setting) (cancelIn : Option Nat) (segments : List (List UInt8))
    (resources : Dict) :
    ∃ outcome q, (start s cancelIn).process s segments resources = .ok (outcome, q) ∧
      ((∀ d ∈ outcome.diagnostics, ∀ depth limit, d.error ≠ .nesting depth limit) →
        ∀ limit, s.config.maxDepth ≤ limit →
          (start (s.nestedTo limit) cancelIn).process (s.nestedTo limit) segments resources =
            .ok (outcome, q)) := by
  refine ⟨_, _, process_start s cancelIn segments resources, fun hclean limit hlimit => ?_⟩
  have hran : ((beginPage s cancelIn resources).execute s (runner s s.config.maxDepth)
      (Content.items segments)).Unrefused := by
    apply unrefused_of_diagnostics
    intro d hd
    have hnot := hclean d hd
    cases herror : d.error with
    | nesting depth limit => exact absurd herror (hnot depth limit)
    | _ => rfl
  have hbegin : beginPage (s.nestedTo limit) cancelIn resources = beginPage s cancelIn resources := rfl
  have hlimit' : (s.nestedTo limit).config.maxDepth = limit := rfl
  obtain ⟨houtcome, hended⟩ := (execute_nestedTo (runner_steps s s.config.maxDepth)
    (runner_steps (s.nestedTo limit) limit) (runner_extends s limit hlimit) hran).outcome_eq
  rw [process_start, hbegin, hlimit', houtcome, hended]

/-- The resources of a page with a form that shows nothing. -/
def emptyForm : Dict :=
  [("XObject", .dict [("F", .stream [("Subtype", .name "Form")] [110] 0)])]

/-- With a limit of one stream inside another the page `/F Do` reports nothing and tells of the
beginning and the end of its form. So it does with a limit of nine. -/
theorem process_nestedTo_emptyForm :
    let s : Setting := { config.maxDepth := 1 }
    ∃ outcome q, (start s).process s [[47, 70, 32, 68, 111]] emptyForm = .ok (outcome, q) ∧
      outcome.diagnostics = [] ∧ q.events.length = 2 ∧
      (start (s.nestedTo 9)).process (s.nestedTo 9) [[47, 70, 32, 68, 111]] emptyForm =
        .ok (outcome, q) := by
  intro s
  obtain ⟨outcome, q, hrun, hdeeper⟩ := process_nestedTo s none [[47, 70, 32, 68, 111]] emptyForm
  have hpage := hrun
  rw [process_start, Except.ok.injEq, Prod.mk.injEq] at hpage
  have hnone : outcome.diagnostics.isEmpty = true := by
    rw [← hpage.1]
    decide +kernel
  have hevents : q.events.length = 2 := by
    rw [← hpage.2]
    decide +kernel
  rw [List.isEmpty_iff] at hnone
  exact ⟨outcome, q, hrun, hnone, hevents, hdeeper (by simp [hnone]) 9 (by decide)⟩

end Processor

end ContentStream
