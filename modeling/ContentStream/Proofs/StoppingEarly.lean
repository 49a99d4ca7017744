import ContentStream.Proofs.Bounds
import ContentStream.Proofs.SaveRestore

/-!
# Stopping early

A run may be given a limit on its operators, and it may be cancelled while it tells of an event. It
is compared here with the run of the same content that nothing stops.

**Theorem (`process_stopsEarly`).** A limit that the whole run keeps to makes no difference. Under a
smaller one the run executes exactly as many operators as it may. A run that is stopped, by its limit
or from outside, tells of the events of the whole run up to some point, and then only ends what is
open and shows the rest of a text.

The two runs are in step (`InStep`) until one of them is stopped, and have parted since (`Parted`).
A run that is stopped is not over: it unwinds through all the streams that are running, and a text
that is being shown is shown to its end. All that it can tell on the way is said by `Coasts`. The other
run goes on meanwhile, about which little needs to be known but that it makes `Progress`.

A stopped run still reads the first item of what it comes to, and may break down over it. Then the
whole run has broken down over that item as well: it comes to the same streams, as while a text is
being shown the two runs stand `Abreast`. A whole run that breaks down is not compared with anything.
-/

namespace ContentStream

/-- What a run may still tell of when it has been stopped. -/
def EventPayload.isTrailing : EventPayload → Bool
  | .glyph _ | .sectionEnd _ | .formEnd _ => true
  | _ => false

/-- Events that are cut short: the first of `all`, at least so many of them, and behind them only such
as a stopped run may tell. -/
def FaithfulCut (least : Nat) (all cut : List Event) : Prop :=
  ∃ kept trail, cut = kept ++ trail ∧ kept <+: all ∧ least ≤ kept.length ∧
    ∀ e ∈ trail, e.payload.isTrailing = true

theorem FaithfulCut.later {least : Nat} {all all' cut trail : List Event}
    (h : FaithfulCut least all cut) (hall : all <+: all')
    (htrail : ∀ e ∈ trail, e.payload.isTrailing = true) : FaithfulCut least all' (cut ++ trail) := by
  obtain ⟨kept, trail', rfl, hkept, hleast, htrail'⟩ := h
  refine ⟨kept, trail' ++ trail, List.append_assoc .., hkept.trans hall, hleast, fun e he => ?_⟩
  exact (List.mem_append.1 he).elim (htrail' e) (htrail e)

namespace Processor

variable {s : Setting} {n : Nat} {p q r full full' : Processor} {limit watch : Option Nat}

/-! ## Coasting -/

/-- The run was stopped, by its limit or from outside. A stream that breaks off stops only itself. -/
def Stopped (p : Processor) : Prop :=
  p.abort = some .cancelled ∨ ∃ limit, p.abort = some (.operatorLimit limit)

theorem Stopped.isSome (h : p.Stopped) : p.abort.isSome = true := by
  rcases h with h | ⟨limit, h⟩ <;> rw [h] <;> rfl

/-- What a stopped run can do. -/
structure Coasts (p q : Processor) : Prop where
  abort : q.abort = p.abort
  executed : q.executed = p.executed
  broken : q.broken = p.broken
  events : ∃ trail, q.events = p.events ++ trail ∧ ∀ e ∈ trail, e.payload.isTrailing = true

theorem Stopped.coasts (h : p.Stopped) (hc : Coasts p q) : q.Stopped := by
  unfold Stopped at *
  rwa [hc.abort]

namespace Coasts

theorem of_same (h : q.abort = p.abort ∧ q.executed = p.executed ∧ q.events = p.events)
    (hbroken : q.broken = p.broken := by rfl) : Coasts p q :=
  ⟨h.1, h.2.1, hbroken, [], by simpa using h.2.2, by simp⟩

theorem refl (p : Processor) : Coasts p p := of_same ⟨rfl, rfl, rfl⟩

theorem trans (h₁ : Coasts p q) (h₂ : Coasts q r) : Coasts p r := by
  obtain ⟨trail₁, hevents₁, htrail₁⟩ := h₁.events
  obtain ⟨trail₂, hevents₂, htrail₂⟩ := h₂.events
  refine ⟨h₂.abort.trans h₁.abort, h₂.executed.trans h₁.executed, h₂.broken.trans h₁.broken,
    trail₁ ++ trail₂, ?_, ?_⟩
  · rw [hevents₂, hevents₁, List.append_assoc]
  · exact fun e he => (List.mem_append.1 he).elim (htrail₁ e) (htrail₂ e)

theorem emit {payload : EventPayload} (htrailing : payload.isTrailing = true) (s : Setting)
    (p : Processor) : Coasts p (p.emit s payload) := by
  have hsame : (p.emit s payload).abort = p.abort ∧ (p.emit s payload).executed = p.executed := by
    unfold Processor.emit
    split <;> exact ⟨rfl, rfl⟩
  refine ⟨hsame.1, hsame.2, broken_emit s p payload, _, events_emit .., fun e he => ?_⟩
  split at he
  · cases List.mem_singleton.1 he
    exact htrailing
  · cases he

end Coasts

theorem report_coasts (p : Processor) (operator : Option String) (e : Error) :
    Coasts p (p.report operator e) :=
  .of_same ⟨rfl, rfl, events_report ..⟩

theorem closeLatest_coasts (s : Setting) (n : Nat) (p : Processor) :
    Coasts p (closeLatest s n p) := by
  induction n generalizing p with
  | zero => exact .refl p
  | succ n ih =>
    simp only [closeLatest]
    split
    · exact .refl p
    · rename_i label rest _
      let closed : Processor := { p with sections := rest }
      have hclosed : Coasts p closed := .of_same ⟨rfl, rfl, rfl⟩
      exact (hclosed.trans (.emit rfl s closed)).trans (ih _)

theorem closeSections_coasts (s : Setting) (p : Processor) : Coasts p (p.closeSections s) := by
  unfold closeSections
  split
  · exact .refl p
  · exact (report_coasts p none _).trans (closeLatest_coasts s _ _)

theorem endSource_coasts (s : Setting) (p : Processor) (source : NestedSource) :
    Coasts p (p.endSource s source) := by
  cases source with
  | form info ref =>
    have hend : Coasts p (p.emit s (.formEnd info)) := .emit rfl s p
    exact hend.trans (.of_same ⟨rfl, rfl, rfl⟩)
  | glyph font procedure => exact .of_same ⟨rfl, rfl, rfl⟩

theorem leave_coasts (s : Setting) (p outer : Processor) (source : NestedSource) :
    Coasts p (p.leave s outer source) :=
  (endSource_coasts s p source).trans (.of_same ⟨rfl, rfl, rfl⟩)

theorem noteTruncation_of_stopped (h : p.Stopped) : p.noteTruncation = p := by
  unfold noteTruncation
  rcases h with h | ⟨limit, h⟩ <;> rw [h]

theorem execute_of_breaksAtOnce {items : List ItemAt} (h : breaksAtOnce items = true) (s : Setting)
    (nested : NestedRunner) (p : Processor) : (p.execute s nested items).broken = true := by
  have hclose := (closeSections_steps (n := 0) (b := true) s
    (executeItems s nested items [] { p with sectionFloor := p.sections.length })).1.progress.broken
  refine hclose ?_
  rw [executeItems_of_breaksAtOnce h]
  rfl

/-- A stream that starts when the run has been stopped does nothing, unless it breaks down over its
first item. -/
theorem execute_of_stopped (h : p.Stopped) (s : Setting) (nested : NestedRunner)
    {items : List ItemAt} (hitems : breaksAtOnce items = false) : p.execute s nested items = p := by
  let inner : Processor := { p with sectionFloor := p.sections.length }
  have hnothing : executeItems s nested items [] inner = inner := by
    rw [executeItems_of_abort (p := inner) h.isSome, hitems]
    rfl
  have hopen : inner.openSections = 0 := Nat.sub_self _
  show ({ (executeItems s nested items [] inner).closeSections s with
    sectionFloor := p.sectionFloor } : Processor) = p
  rw [hnothing, closeSections, if_pos hopen]

/-! ## Parting -/

/-- The run is stopped and the whole run goes on, or has gone on. -/
inductive Parted (limit watch : Option Nat) (p full : Processor) : Prop
  | limited {l : Nat} : p.broken = false → limit = some l → p.abort = some (.operatorLimit l) →
      p.executed = l → l < full.executed → FaithfulCut 0 full.events p.events →
      Parted limit watch p full
  | cancelled {k : Nat} : p.broken = false → watch = some k → p.abort = some .cancelled →
      p.executed ≤ full.executed → FaithfulCut k full.events p.events → Parted limit watch p full

theorem Parted.stopped (h : Parted limit watch p full) : p.Stopped := by
  cases h with
  | limited _ _ habort => exact .inr ⟨_, habort⟩
  | cancelled _ _ habort => exact .inl habort

/-- Once parted, always parted. -/
theorem Parted.later (h : Parted limit watch p full) (hp : Coasts p q)
    (hfull : Progress none full full') : Parted limit watch q full' := by
  obtain ⟨trail, hevents, htrail⟩ := hp.events
  have hexecuted := hfull.executed
  cases h with
  | limited hwhole hlimit habort hl hlt hcut =>
    refine .limited (hp.broken.trans hwhole) hlimit (hp.abort.trans habort) (hp.executed.trans hl)
      (by omega) ?_
    exact hevents ▸ hcut.later hfull.events htrail
  | cancelled hwhole hwatch habort hle hcut =>
    refine .cancelled (hp.broken.trans hwhole) hwatch (hp.abort.trans habort) ?_ ?_
    · rw [hp.executed]
      omega
    · exact hevents ▸ hcut.later hfull.events htrail

/-! ## In step -/

/-- Up to here the run was not stopped. -/
structure InStep (limit watch : Option Nat) (p full : Processor) : Prop where
  full_eq : full = p.unwatched
  watched : p.cancelIn = watch.map (· - p.events.length)
  within : ∀ l ∈ limit, p.executed ≤ l

theorem InStep.next (h : InStep limit watch p full) (hp : Progress limit p q)
    (hfull : full' = q.unwatched) : InStep limit watch q full' where
  full_eq := hfull
  watched := by
    have hle := hp.events.length_le
    rw [hp.cancelIn, h.watched, Option.map_map]
    congr 1
    funext k
    show k - p.events.length - (q.events.length - p.events.length) = k - q.events.length
    omega
  within l hl := hp.within l hl (h.within l hl)

/-- The run keeps to the whole run, until it is stopped or the whole run breaks down. -/
inductive Tracks (limit watch : Option Nat) (p full : Processor) : Prop
  | inStep : InStep limit watch p full → Tracks limit watch p full
  | parted : Parted limit watch p full → Tracks limit watch p full
  | lost : full.broken = true → Tracks limit watch p full

theorem InStep.emit (h : InStep limit watch p full) (payload : EventPayload) :
    InStep limit watch (p.emit (s.bounded limit) payload) (full.emit (s.bounded none) payload) := by
  obtain rfl := h.full_eq
  exact h.next (.emit payload ⟨rfl, rfl, rfl⟩) (emit_unwatched s limit p payload)

theorem InStep.report (h : InStep limit watch p full) (operator : Option String) (e : Error) :
    InStep limit watch (p.report operator e) (full.report operator e) :=
  h.next (report_progress p operator e) (h.full_eq ▸ rfl)

/-! ## Abreast -/

/-- The two runs stand at the same place of the same stream. -/
structure Abreast (p full : Processor) : Prop where
  gstate : full.gstate = p.gstate
  ground : full.ground = p.ground

theorem Abreast.isActive (h : Abreast p full) (source : NestedSource) :
    full.isActive source = p.isActive source := by
  have hforms : full.activeForms = p.activeForms := congrArg Ground.activeForms h.ground
  have hglyphs : full.activeGlyphs = p.activeGlyphs := congrArg Ground.activeGlyphs h.ground
  cases source <;> simp only [Processor.isActive, hforms, hglyphs]

/-- Streams inside leave both runs where they are. -/
theorem Abreast.nested {q' : Processor} (h : Abreast p full) (hq : Undisturbed p q)
    (hq' : Undisturbed full q') : Abreast q q' where
  gstate := by rw [hq'.gstate, hq.gstate, h.gstate]
  ground := by rw [hq'.stays.ground, hq.stays.ground, h.ground]

/-- The run keeps to the whole run, and if they have parted, they still stand abreast. -/
inductive Keeps (limit watch : Option Nat) (p full : Processor) : Prop
  | inStep : InStep limit watch p full → Keeps limit watch p full
  | abreast : Parted limit watch p full → Abreast p full → Keeps limit watch p full

/-- The same for the replies of an operator, unless the whole run has broken down. -/
inductive TracksReply (limit watch : Option Nat) : Reply → Reply → Prop
  | done {p full : Processor} : Keeps limit watch p full →
      TracksReply limit watch (.done p) (.done full)
  | failed {p full : Processor} (e : Error) : Keeps limit watch p full →
      TracksReply limit watch (.failed p e) (.failed full e)
  | lost {reply whole : Reply} : whole.processor.broken = true → TracksReply limit watch reply whole

namespace Keeps

theorem level (h : Keeps limit watch p full) : Abreast p full := by
  cases h with
  | inStep hin =>
    obtain rfl := hin.full_eq
    exact ⟨rfl, rfl⟩
  | abreast _ habreast => exact habreast

theorem tracks (h : Keeps limit watch p full) : Tracks limit watch p full := by
  cases h with
  | inStep hin => exact .inStep hin
  | abreast hparted => exact .parted hparted

theorem report (h : Keeps limit watch p full) (operator : Option String) (e : Error) :
    Keeps limit watch (p.report operator e) (full.report operator e) := by
  cases h with
  | inStep hin => exact .inStep (hin.report operator e)
  | abreast hparted habreast =>
    refine .abreast ?_ ⟨habreast.gstate, habreast.ground⟩
    exact hparted.later (report_coasts p operator e) (report_progress full operator e)

/-- A glyph is told of by both. -/
theorem emit (h : Keeps limit watch p full) {payload : EventPayload}
    (htrailing : payload.isTrailing = true) :
    Keeps limit watch (p.emit (s.bounded limit) payload) (full.emit (s.bounded none) payload) := by
  cases h with
  | inStep hin => exact .inStep (hin.emit payload)
  | abreast hparted habreast =>
    refine .abreast (hparted.later (.emit htrailing _ p) (.emit payload ⟨rfl, rfl, rfl⟩)) ⟨?_, ?_⟩
    · rw [emit_gstate, emit_gstate, habreast.gstate]
    · rw [emit_ground, emit_ground, habreast.ground]

theorem adjust (h : Keeps limit watch p full)
    (change : GraphicsState → Except Error GraphicsState) :
    TracksReply limit watch (p.adjust change) (full.adjust change) := by
  simp only [Processor.adjust, h.level.gstate]
  cases change p.gstate with
  | error e => exact .failed e h
  | ok g =>
    refine .done ?_
    cases h with
    | inStep hin =>
      obtain rfl := hin.full_eq
      exact .inStep (hin.next (.of_same ⟨rfl, rfl, rfl⟩) rfl)
    | abreast hparted habreast =>
      exact .abreast (hparted.later (.of_same ⟨rfl, rfl, rfl⟩) (.of_same ⟨rfl, rfl, rfl⟩))
        ⟨rfl, habreast.ground⟩

end Keeps

theorem InStep.reply {reply whole : Reply} (h : InStep limit watch p full)
    (hp : Progress limit p reply.processor) (hwhole : whole = reply.map unwatched) :
    TracksReply limit watch reply whole := by
  subst hwhole
  cases reply with
  | done q => exact .done (.inStep (h.next hp rfl))
  | failed q e => exact .failed e (.inStep (h.next hp rfl))

theorem andThen_tracks {reply whole : Reply} {next next' : Processor → Reply}
    (h : TracksReply limit watch reply whole)
    (hstep : ∀ p full, Keeps limit watch p full → TracksReply limit watch (next p) (next' full))
    (hfull : ∀ full, Progress none full (next' full).processor) :
    TracksReply limit watch (reply.andThen next) (whole.andThen next') := by
  cases h with
  | done hkeeps => exact hstep _ _ hkeeps
  | failed e hkeeps => exact .failed e hkeeps
  | lost hbroken =>
    refine .lost ?_
    cases whole with
    | done full => exact (hfull full).broken hbroken
    | failed full e => exact hbroken

/-! ## Showing text -/

/-- Streams that run inside others keep to those of the whole run. -/
def RunnerTracks (s : Setting) (limit watch : Option Nat) (n : Nat) : Prop :=
  ∀ run p full, InStep limit watch p full →
    TracksReply limit watch (runner (s.bounded limit) n run p) (runner (s.bounded none) n run full)

theorem undisturbed_of_runner {run : NestedRun} (h : runner s n run p = .done q) :
    Undisturbed p q := by
  have hisolated := runner_isolated s n run p
  rwa [h] at hisolated

theorem runNested_glyph {run : NestedRun} {font procedure : Nat}
    (hsource : run.source = .glyph font procedure) (s : Setting) (nested : NestedRunner)
    (p : Processor) :
    p.runNested s nested run =
      if p.isActive run.source then .failed p (.nesting (p.depth + 1) s.config.maxDepth)
      else .done (((p.enter s run none).execute s nested
        (Content.itemsOf run.data)).noteTruncation.leave s p run.source) := by
  have hclip : run.clipPath = .ok none := by simp only [NestedRun.clipPath, hsource]
  rw [runNested, hclip]
  rfl

/-- **Glyphs of a stopped run.** It comes to the procedures that the whole run comes to, and reads the
first item of each. -/
theorem runner_parted {run : NestedRun} {font procedure : Nat}
    (hsource : run.source = .glyph font procedure) (hparted : Parted limit watch p full)
    (habreast : Abreast p full) :
    TracksReply limit watch (runner (s.bounded limit) n run p)
      (runner (s.bounded none) n run full) := by
  have hkeeps : Keeps limit watch p full := .abreast hparted habreast
  have hdepth : full.depth = p.depth := depth_eq habreast.ground
  cases n with
  | zero =>
    simp only [runner, hdepth]
    exact .failed _ hkeeps
  | succ n =>
    have hreply := runNested_glyph hsource (s.bounded limit) (runner (s.bounded limit) n) p
    have hwhole := runNested_glyph hsource (s.bounded none) (runner (s.bounded none) n) full
    have hfull := (runner_steps (s.bounded none) (n + 1) run full (.glyph hsource)).progress
    rw [habreast.isActive, hdepth] at hwhole
    simp only [runner] at hfull ⊢
    split at hreply
    · rename_i hactive
      rw [hreply, hwhole, if_pos hactive]
      exact .failed _ hkeeps
    · rename_i hactive
      rw [if_neg hactive] at hwhole
      rw [hwhole] at hfull
      rw [hreply, hwhole]
      cases hbreaks : breaksAtOnce (Content.itemsOf run.data) with
      | true =>
        have hbroken := execute_of_breaksAtOnce hbreaks (s.bounded none) (runner (s.bounded none) n)
          (full.enter (s.bounded none) run none)
        rw [← broken_noteTruncation, ← broken_leave (s.bounded none) _ full run.source] at hbroken
        exact .lost hbroken
      | false =>
        refine .done (.abreast (hparted.later ?_ hfull) ?_)
        · have henter : Coasts p (p.enter (s.bounded limit) run none) := by
            simp only [enter, hsource]
            exact .of_same ⟨rfl, rfl, rfl⟩
          have hstopped := hparted.stopped.coasts henter
          rw [execute_of_stopped hstopped _ _ hbreaks, noteTruncation_of_stopped hstopped]
          exact henter.trans (leave_coasts ..)
        · exact habreast.nested (undisturbed_of_runner (n := n + 1) hreply)
            (undisturbed_of_runner (n := n + 1) hwhole)

theorem runGlyph_tracks (hn : RunnerTracks s limit watch n) (operator : String)
    (font : SelectedFont) (m : Matrix) (code : Nat) (h : Keeps limit watch p full) :
    TracksReply limit watch
      (p.runGlyph (s.bounded limit) (runner (s.bounded limit) n) operator font m code)
      (full.runGlyph (s.bounded none) (runner (s.bounded none) n) operator font m code) := by
  have hglyphs : (s.bounded none).config.runGlyphs = (s.bounded limit).config.runGlyphs := rfl
  simp only [runGlyph, hglyphs]
  split
  · exact .done h
  · cases font.font.procedure? code with
    | none => exact .done h
    | some procedure =>
      cases font.font.matrix.mul? m with
      | none => exact .failed _ h
      | some ctm =>
        have hrun : ∀ run : NestedRun, run.source = .glyph font.load procedure.serial →
            TracksReply limit watch (runner (s.bounded limit) n run p)
              (runner (s.bounded none) n run full) := by
          intro run hsource
          cases h with
          | inStep hin => exact hn run p full hin
          | abreast hparted habreast => exact runner_parted hsource hparted habreast
        dsimp only
        generalize hcut : runner (s.bounded limit) n _ p = reply
        generalize hwhole : runner (s.bounded none) n _ full = whole
        have hreply : TracksReply limit watch reply whole := hcut ▸ hwhole ▸ hrun _ rfl
        -- A procedure that could not be run is reported by both.
        cases hreply with
        | done hkeeps => exact .done hkeeps
        | failed e hkeeps => exact .done (hkeeps.report _ e)
        | lost hbroken =>
          refine .lost ?_
          cases whole <;> exact hbroken

theorem showGlyph_tracks (hn : RunnerTracks s limit watch n) (operator : String)
    (font : SelectedFont) (c : CharCode) (h : Keeps limit watch p full) :
    TracksReply limit watch
      (p.showGlyph (s.bounded limit) (runner (s.bounded limit) n) operator font c)
      (full.showGlyph (s.bounded none) (runner (s.bounded none) n) operator font c) := by
  simp only [showGlyph, h.level.gstate]
  cases p.gstate.renderingMatrix? with
  | none => exact .failed _ h
  | some m =>
    cases p.gstate.advance? font.font c with
    | none => exact .failed _ h
    | some distance =>
      exact andThen_tracks (runGlyph_tracks hn operator font m c.code (h.emit rfl))
        (fun _ _ h => h.adjust _) fun full => adjust_progress full _

theorem showCodes_tracks (hn : RunnerTracks s limit watch n) (operator : String)
    (font : SelectedFont) (codes : List CharCode) (h : Keeps limit watch p full) :
    TracksReply limit watch
      (showCodes (s.bounded limit) (runner (s.bounded limit) n) operator font codes p)
      (showCodes (s.bounded none) (runner (s.bounded none) n) operator font codes full) := by
  induction codes generalizing p full with
  | nil => exact .done h
  | cons c rest ih =>
    refine andThen_tracks (showGlyph_tracks hn operator font c h) (fun _ _ => ih) fun full => ?_
    have hsteps := showCodes_steps (b := false) (runner_steps (s.bounded none) n) operator font
      rest full
    exact hsteps.progress

theorem showItems_progress (s : Setting) (n : Nat) (operator : String) (font : SelectedFont)
    (items : List TextItem) (p : Processor) :
    Progress s.config.maxOperators p (showItems s (runner s n) operator font items p).processor :=
  (showItems_steps (b := false) (runner_steps s n) operator font items p).progress

theorem showItems_tracks (hn : RunnerTracks s limit watch n) (operator : String)
    (font : SelectedFont) (items : List TextItem) (h : Keeps limit watch p full) :
    TracksReply limit watch
      (showItems (s.bounded limit) (runner (s.bounded limit) n) operator font items p)
      (showItems (s.bounded none) (runner (s.bounded none) n) operator font items full) := by
  induction items generalizing p full with
  | nil => exact .done h
  | cons item rest ih =>
    have hitem : ∀ {reply whole : Reply}, TracksReply limit watch reply whole →
        TracksReply limit watch
          (reply.andThen (showItems (s.bounded limit) (runner (s.bounded limit) n) operator font rest))
          (whole.andThen (showItems (s.bounded none) (runner (s.bounded none) n) operator font rest)) :=
      fun hitem => andThen_tracks hitem (fun _ _ => ih)
        fun full => showItems_progress (s.bounded none) n operator font rest full
    cases item with
    | shift amount => exact hitem (h.adjust _)
    | string bytes => exact hitem (showCodes_tracks hn operator font _ h)

theorem showText_tracks (hn : RunnerTracks s limit watch n) (text : Showing)
    (h : InStep limit watch p full) :
    TracksReply limit watch
      (p.showText (s.bounded limit) (runner (s.bounded limit) n) text)
      (full.showText (s.bounded none) (runner (s.bounded none) n) text) := by
  obtain rfl := h.full_eq
  have hfont : p.unwatched.gstate.text.font = p.gstate.text.font := rfl
  simp only [showText, hfont]
  cases p.gstate.text.font with
  | none => exact .failed _ (.inStep h)
  | some font =>
    have hspaced : Keeps limit watch (p.setSpacing text.spacing)
        (p.unwatched.setSpacing text.spacing) := by
      cases text.spacing with
      | none => exact .inStep h
      | some spaces => exact .inStep (h.next (.of_same ⟨rfl, rfl, rfl⟩) rfl)
    refine andThen_tracks ?_ (fun _ _ h => showItems_tracks hn text.operator font text.items h)
      fun full => showItems_progress (s.bounded none) n text.operator font text.items full
    split
    · exact hspaced.adjust _
    · exact .done hspaced

/-! ## Operators -/

theorem showExternal_tracks (hn : RunnerTracks s limit watch n) (name : String)
    (h : InStep limit watch p full) :
    TracksReply limit watch
      (p.showExternal (s.bounded limit) (runner (s.bounded limit) n) name)
      (full.showExternal (s.bounded none) (runner (s.bounded none) n) name) := by
  obtain rfl := h.full_eq
  have hobject : p.unwatched.externalObject (s.bounded none) name =
    p.externalObject (s.bounded limit) name := rfl
  have hform : ∀ ref form, p.unwatched.formRun (s.bounded none) name ref form =
    p.formRun (s.bounded limit) name ref form := fun _ _ => rfl
  have htable : (s.bounded none).table = (s.bounded limit).table := rfl
  simp only [showExternal, hobject, hform, htable]
  cases p.externalObject (s.bounded limit) name with
  | error e => exact .failed e (.inStep h)
  | ok found =>
    obtain ⟨ref, object⟩ := found
    dsimp only [Reply.attempt]
    split
    · cases p.formRun (s.bounded limit) name ref object with
      | error e => exact .failed e (.inStep h)
      | ok run => exact hn run p _ h
    · exact .done (.inStep (h.emit _))
    · exact .done (.inStep h)

theorem perform_tracks (hn : RunnerTracks s limit watch n) {i : Instruction} (hi : i.IsRead)
    (h : InStep limit watch p full) :
    TracksReply limit watch (p.perform (s.bounded limit) (runner (s.bounded limit) n) i)
      (full.perform (s.bounded none) (runner (s.bounded none) n) i) := by
  cases hruns : i.runs with
  | false =>
    obtain rfl := h.full_eq
    exact h.reply (perform_steps (runner_steps (s.bounded limit) n) p hi).progress
      (perform_unwatched s limit p hruns)
  | true =>
    cases i with
    | «show» text => exact showText_tracks hn text h
    | xobject name => exact showExternal_tracks hn name h
    | _ => cases hruns

theorem settle_tracks {reply whole : Reply} (pos : Nat) (word : String)
    (h : TracksReply limit watch reply whole) :
    Tracks limit watch (settle pos word reply) (settle pos word whole) := by
  cases h with
  | done hkeeps => exact hkeeps.tracks
  | @failed p full e hkeeps =>
    have hplaced : Keeps limit watch { p with pos := pos } { full with pos := pos } := by
      cases hkeeps with
      | inStep hin =>
        obtain rfl := hin.full_eq
        exact .inStep (hin.next (.of_same ⟨rfl, rfl, rfl⟩) rfl)
      | abreast hparted habreast =>
        exact .abreast (hparted.later (.of_same ⟨rfl, rfl, rfl⟩) (.of_same ⟨rfl, rfl, rfl⟩))
          ⟨habreast.gstate, habreast.ground⟩
    exact (hplaced.report (some word) e).tracks
  | lost hbroken =>
    refine .lost ?_
    cases whole <;> exact hbroken

theorem executeWord_tracks (hn : RunnerTracks s limit watch n) (word : String) (args : List Object)
    (h : InStep limit watch p full) :
    Tracks limit watch (p.executeWord (s.bounded limit) (runner (s.bounded limit) n) word args)
      (full.executeWord (s.bounded none) (runner (s.bounded none) n) word args) := by
  obtain rfl := h.full_eq
  have hcompat : p.unwatched.compatDepth = p.compatDepth := rfl
  simp only [executeWord, hcompat]
  cases Operator.find? word with
  | none =>
    dsimp only
    split
    · exact .inStep h
    · exact .inStep (h.report _ _)
  | some found =>
    obtain ⟨op, arity⟩ := found
    dsimp only
    split
    · refine settle_tracks p.pos word ?_
      unfold operate
      cases hread : op.read ⟨word, args⟩ with
      | error e => exact .failed e (.inStep h)
      | ok i => exact perform_tracks hn ⟨op, _, hread⟩ h
    · exact .inStep (h.report _ _)

/-- **One operator.** It is here that the run stops at its limit, and the whole run does not. -/
theorem dispatch_tracks (hn : RunnerTracks s limit watch n) (word : String) (args : List Object)
    (h : InStep limit watch p full) :
    Tracks limit watch (p.dispatch (s.bounded limit) (runner (s.bounded limit) n) word args)
      (full.dispatch (s.bounded none) (runner (s.bounded none) n) word args) := by
  obtain rfl := h.full_eq
  have hroom : p.unwatched.exhausted (s.bounded none) = false := rfl
  have hcounted : p.unwatched.dispatch (s.bounded none) (runner (s.bounded none) n) word args =
      ({ p.unwatched with executed := p.executed + 1 } : Processor).executeWord (s.bounded none)
        (runner (s.bounded none) n) word args := by
    rw [dispatch, hroom]
    rfl
  cases hexhausted : p.exhausted (s.bounded limit) with
  | true =>
    obtain ⟨l, rfl⟩ := exists_limit_of_exhausted hexhausted
    have hl : l ≤ p.executed := by simpa [exhausted, Setting.bounded] using hexhausted
    have heq : p.executed = l := Nat.le_antisymm (h.within l rfl) hl
    let counted : Processor := { p.unwatched with executed := p.executed + 1 }
    have hfull := (executeWord_steps (b := true) (runner_steps (s.bounded none) n) counted word args
      fun _ _ _ _ _ _ _ => rfl).progress
    have hlt := hfull.executed
    rw [hcounted, dispatch, hexhausted]
    cases hwhole : p.broken with
    | true => exact .lost (hfull.broken hwhole)
    | false =>
    refine .parted (.limited hwhole rfl rfl heq ?_ ⟨p.events, [], (List.append_nil _).symm,
      hfull.events, Nat.zero_le _, ?_⟩)
    · show l < (counted.executeWord (s.bounded none) (runner (s.bounded none) n) word args).executed
      have hcount : counted.executed = p.executed + 1 := rfl
      omega
    · simp
  | false =>
    have hcount : InStep limit watch { p with executed := p.executed + 1 }
        { p.unwatched with executed := p.executed + 1 } :=
      h.next (Step.count (s := s.bounded limit) hexhausted).progress rfl
    rw [hcounted, dispatch, hexhausted]
    exact executeWord_tracks hn word args hcount

theorem dispatchImage_tracks (hn : RunnerTracks s limit watch n) (image : Stream)
    (args : List Object) (h : InStep limit watch p full) :
    Tracks limit watch (p.dispatchImage (s.bounded limit) (runner (s.bounded limit) n) image args)
      (full.dispatchImage (s.bounded none) (runner (s.bounded none) n) image args) := by
  unfold dispatchImage
  split
  · exact dispatch_tracks hn _ _ h
  · exact .inStep (h.report _ _)

/-! ## Streams -/

/-- **One look.** It is here that the run finds itself cancelled. -/
theorem poll_tracks (h : InStep limit watch p full) :
    InStep limit watch (p.poll (s.bounded limit)) (full.poll (s.bounded none)) ∨
      Parted limit watch (p.poll (s.bounded limit)) full ∨ full.broken = true := by
  obtain rfl := h.full_eq
  have hfull : p.unwatched.abort = p.abort := rfl
  cases habort : p.abort with
  | some reason =>
    rw [poll_of_abort (by rw [habort]; rfl), poll_of_abort (by rw [hfull, habort]; rfl)]
    exact .inl h
  | none =>
    have hpoll : p.poll (s.bounded limit) = { p with
        looks := p.looks + 1
        abort := if p.cancelIn == some 0 then some .cancelled else none } := by
      simp [poll, habort, Setting.bounded]
    cases hdue : p.cancelIn == some 0 with
    | false =>
      refine .inl (h.next (Step.look (s := s.bounded limit) p).progress ?_)
      rw [hpoll, hdue]
      simp [poll, unwatched, habort, Setting.bounded]
    | true =>
      have hzero := h.watched.symm.trans (beq_iff_eq.1 hdue)
      obtain ⟨k, hwatch, hk⟩ := Option.map_eq_some_iff.1 hzero
      rw [hpoll, hdue]
      cases hwhole : p.broken with
      | true => exact .inr (.inr hwhole)
      | false =>
        refine .inr (.inl (.cancelled hwhole hwatch rfl (Nat.le_refl _)
          ⟨p.events, [], (List.append_nil _).symm, List.prefix_refl _, by omega, by simp⟩))

/-- What is left of a stream when the runs have parted. The stopped run reads one item more. -/
theorem Parted.executeItems (h : Parted limit watch p full) (items : List ItemAt)
    (operands : List Object) :
    Tracks limit watch
      (executeItems (s.bounded limit) (runner (s.bounded limit) n) items operands p)
      (executeItems (s.bounded none) (runner (s.bounded none) n) items operands full) := by
  have hsteps := executeItems_steps (runner_steps (s.bounded none) n) items operands full
  rw [executeItems_of_abort h.stopped.isSome]
  split
  · rename_i hbreaks
    rw [executeItems_of_breaksAtOnce hbreaks]
    exact .lost (broken_breakDown full)
  · exact .parted (h.later (.refl p) hsteps.progress)

theorem executeItems_tracks (hn : RunnerTracks s limit watch n) (items : List ItemAt)
    (operands : List Object) (h : InStep limit watch p full) :
    Tracks limit watch
      (executeItems (s.bounded limit) (runner (s.bounded limit) n) items operands p)
      (executeItems (s.bounded none) (runner (s.bounded none) n) items operands full) := by
  induction items generalizing operands p full with
  | nil => exact .inStep h
  | cons item rest ih =>
    have hsteps := executeItems_steps (runner_steps (s.bounded none) n) (item :: rest) operands full
    obtain ⟨pos, item⟩ := item
    -- What comes behind an operator, whether the operator has stopped the run or not.
    have hrest : ∀ {q full' : Processor}, Tracks limit watch q full' → Tracks limit watch
        (executeItems (s.bounded limit) (runner (s.bounded limit) n) rest [] q)
        (executeItems (s.bounded none) (runner (s.bounded none) n) rest [] full') := by
      intro q full' h
      cases h with
      | inStep hin => exact ih [] hin
      | parted hparted => exact hparted.executeItems rest []
      | lost hbroken =>
        exact .lost ((executeItems_steps (runner_steps (s.bounded none) n) rest [] full').progress.broken
          hbroken)
    by_cases hbreaks : ItemAt.breaksDown (pos, item) = true
    · have honce : breaksAtOnce ((pos, item) :: rest) = true := hbreaks
      refine .lost ?_
      rw [executeItems_of_breaksAtOnce honce]
      exact broken_breakDown full
    rcases poll_tracks (s := s) h with hin | hparted | hbroken
    · simp only [executeItems, if_neg hbreaks]
      generalize p.poll (s.bounded limit) = q at hin ⊢
      generalize full.poll (s.bounded none) = full' at hin ⊢
      obtain rfl := hin.full_eq
      have habort : q.unwatched.abort = q.abort := rfl
      have hplaced : InStep limit watch { q with pos := pos } { q.unwatched with pos := pos } :=
        hin.next (.of_same ⟨rfl, rfl, rfl⟩) rfl
      rw [habort]
      split
      · exact .inStep hin
      · cases item with
        | ok item =>
          cases item with
          | operand o => exact ih _ hplaced
          | operator word => exact hrest (dispatch_tracks hn word _ hplaced)
          | image image => exact hrest (dispatchImage_tracks hn image _ hplaced)
        | error e =>
          cases e with
          | truncated => exact .inStep (hplaced.next (.of_same ⟨rfl, rfl, rfl⟩) rfl)
          | _ => exact ih _ (hplaced.report _ _)
    · have hstopped := hparted.stopped.isSome
      have hnothing : executeItems (s.bounded limit) (runner (s.bounded limit) n)
          ((pos, item) :: rest) operands p = p.poll (s.bounded limit) := by
        simp only [executeItems, if_neg hbreaks, if_pos hstopped]
      rw [hnothing]
      exact .parted (hparted.later (.refl _) hsteps.progress)
    · exact .lost (hsteps.progress.broken hbroken)

theorem closeSections_tracks (floor : Nat) (h : Tracks limit watch p full) :
    Tracks limit watch { p.closeSections (s.bounded limit) with sectionFloor := floor }
      { full.closeSections (s.bounded none) with sectionFloor := floor } := by
  have hfull : Progress none full
      { full.closeSections (s.bounded none) with sectionFloor := floor } :=
    (closeSections_steps (n := 0) (b := true) (s.bounded none) full).1.progress.trans
      (.of_same ⟨rfl, rfl, rfl⟩)
  cases h with
  | inStep hin =>
    have hclose := (closeSections_steps (n := 0) (b := true) (s.bounded limit) p).1.progress
    obtain rfl := hin.full_eq
    rw [closeSections_unwatched s limit]
    exact .inStep (hin.next (hclose.trans (.of_same ⟨rfl, rfl, rfl⟩)) rfl)
  | parted hparted =>
    refine .parted (hparted.later ?_ hfull)
    exact (closeSections_coasts (s.bounded limit) p).trans (.of_same ⟨rfl, rfl, rfl⟩)
  | lost hbroken => exact .lost (hfull.broken hbroken)

theorem execute_tracks (hn : RunnerTracks s limit watch n) (items : List ItemAt)
    (h : InStep limit watch p full) :
    Tracks limit watch (p.execute (s.bounded limit) (runner (s.bounded limit) n) items)
      (full.execute (s.bounded none) (runner (s.bounded none) n) items) := by
  obtain rfl := h.full_eq
  have hfloor : InStep limit watch { p with sectionFloor := p.sections.length }
      { p.unwatched with sectionFloor := p.sections.length } :=
    h.next (.of_same ⟨rfl, rfl, rfl⟩) rfl
  exact closeSections_tracks p.sectionFloor (executeItems_tracks hn items [] hfloor)

theorem leave_tracks {inner innerFull : Processor} (source : NestedSource)
    (h : InStep limit watch p full) (hinner : Tracks limit watch inner innerFull) :
    Tracks limit watch (inner.noteTruncation.leave (s.bounded limit) p source)
      (innerFull.noteTruncation.leave (s.bounded none) full source) := by
  obtain rfl := h.full_eq
  have hfull : Progress none innerFull
      (innerFull.noteTruncation.leave (s.bounded none) p.unwatched source) :=
    (noteTruncation_progress innerFull).trans (leave_progress ..)
  cases hinner with
  | inStep hin =>
    obtain rfl := hin.full_eq
    rw [noteTruncation_unwatched, leave_unwatched s limit]
    exact .inStep (hin.next ((noteTruncation_progress inner).trans (leave_progress ..)) rfl)
  | parted hparted =>
    rw [noteTruncation_of_stopped hparted.stopped]
    exact .parted (hparted.later (leave_coasts ..) hfull)
  | lost hbroken => exact .lost (hfull.broken hbroken)

/-- A stream that was started in step leaves the two runs abreast. -/
theorem runNested_tracks (hn : RunnerTracks s limit watch n) (run : NestedRun)
    (h : InStep limit watch p full) :
    TracksReply limit watch (runner (s.bounded limit) (n + 1) run p)
      (runner (s.bounded none) (n + 1) run full) := by
  obtain rfl := h.full_eq
  have hactive : p.unwatched.isActive run.source = p.isActive run.source := by
    cases run.source <;> rfl
  have hstart : Abreast p p.unwatched := ⟨rfl, rfl⟩
  have hlevel : ∀ q q', runner (s.bounded limit) (n + 1) run p = .done q →
      runner (s.bounded none) (n + 1) run p.unwatched = .done q' → Abreast q q' := fun q q' hq hq' =>
    hstart.nested (undisturbed_of_runner hq) (undisturbed_of_runner hq')
  simp only [runner, runNested, hactive] at hlevel ⊢
  cases hrunning : p.isActive run.source with
  | true => exact .failed _ (.inStep h)
  | false =>
    cases hclip : run.clipPath with
    | error e => exact .failed e (.inStep h)
    | ok path =>
      simp only [hrunning, hclip, Reply.attempt] at hlevel ⊢
      have henter : InStep limit watch (p.enter (s.bounded limit) run path)
          (p.unwatched.enter (s.bounded none) run path) :=
        h.next (enter_progress ..) (enter_unwatched s limit p run path)
      have htracks := leave_tracks (s := s) run.source h
        (execute_tracks hn (Content.itemsOf run.data) henter)
      cases htracks with
      | inStep hin => exact .done (.inStep hin)
      | parted hparted => exact .done (.abreast hparted (hlevel _ _ rfl rfl))
      | lost hbroken => exact .lost hbroken

theorem runner_tracks (s : Setting) (limit watch : Option Nat) (n : Nat) :
    RunnerTracks s limit watch n := by
  induction n with
  | zero =>
    intro run p full h
    obtain rfl := h.full_eq
    exact .failed _ (.inStep h)
  | succ n ih => exact fun run p full h => runNested_tracks ih run h

/-! ## Runs -/

theorem inStep_beginPage (s : Setting) (limit watch : Option Nat) (resources : Dict) :
    InStep limit watch (beginPage s watch resources) (beginPage s none resources) where
  full_eq := rfl
  watched := by
    show watch = watch.map (· - 0)
    simp
  within := fun l _ => Nat.zero_le l

/-- Without a watch, runs in step are the same. -/
theorem InStep.eq_of_unwatched (h : InStep limit none p full) : p = full := by
  have hcancel : p.cancelIn = none := h.watched
  rw [h.full_eq, unwatched, ← hcancel]

theorem process_start (s : Setting) (cancelIn : Option Nat) (segments : List (List UInt8))
    (resources : Dict) :
    (start s cancelIn).process s segments resources =
      .ok (((beginPage s cancelIn resources).execute s (runner s s.config.maxDepth)
          (Content.items segments)).outcome,
        ((beginPage s cancelIn resources).execute s (runner s s.config.maxDepth)
          (Content.items segments)).ended) :=
  rfl

/-- The page under bounds, up to its end. -/
def ranPage (s : Setting) (limit watch : Option Nat) (segments : List (List UInt8))
    (resources : Dict) : Processor :=
  (beginPage s watch resources).execute (s.bounded limit) (runner (s.bounded limit) s.config.maxDepth)
    (Content.items segments)

theorem process_eq_ranPage (s : Setting) (limit watch : Option Nat) (segments : List (List UInt8))
    (resources : Dict) :
    (start s watch).process (s.bounded limit) segments resources =
      .ok ((ranPage s limit watch segments resources).outcome,
        (ranPage s limit watch segments resources).ended) :=
  rfl

theorem ranPage_tracks (s : Setting) (limit watch : Option Nat) (segments : List (List UInt8))
    (resources : Dict) :
    Tracks limit watch (ranPage s limit watch segments resources)
      (ranPage s none none segments resources) :=
  execute_tracks (runner_tracks s limit watch s.config.maxDepth) _
    (inStep_beginPage s limit watch resources)

/-- **Stopping early is a faithful cut.** Let the whole run not break down. With a limit on operators
that it keeps to, the run is the same in everything. With a smaller limit the run executes as many
operators as the limit allows, ends with the limit as the reason, and its events are a cut of those of
the whole run. A run that is cancelled while it tells of the event with the number `k` executes no more
operators than the whole run, and its events are a cut that keeps at least the first `k`. -/
theorem process_stopsEarly (s : Setting) (segments : List (List UInt8)) (resources : Dict) :
    ∃ full q, (start s).process (s.bounded none) segments resources = .ok (full, q) ∧
      (full.status ≠ .broken →
      (∀ limit, ∃ cut r,
        (start s).process (s.bounded (some limit)) segments resources = .ok (cut, r) ∧
        (full.executed ≤ limit → cut = full ∧ r = q) ∧
        (limit < full.executed → cut.status = .aborted (.operatorLimit limit) ∧
          cut.executed = limit ∧ FaithfulCut 0 q.events r.events)) ∧
      ∀ k, k ≤ q.events.length → ∃ cut r,
        (start s (some k)).process (s.bounded none) segments resources = .ok (cut, r) ∧
        (cut = full ∨ cut.status = .aborted .cancelled) ∧ cut.executed ≤ full.executed ∧
        FaithfulCut k q.events r.events) := by
  refine ⟨_, _, process_eq_ranPage s none none segments resources, fun hwhole => ?_⟩
  have hunbroken := broken_eq_false hwhole
  rw [ended_of_not_broken hunbroken, outcome_of_not_broken hunbroken]
  refine ⟨fun limit => ?_, fun k hk => ?_⟩
  · refine ⟨_, _, process_eq_ranPage s (some limit) none segments resources, ?_⟩
    cases ranPage_tracks s (some limit) none segments resources with
    | inStep hin =>
      have hwithin := hin.within limit rfl
      rw [hin.eq_of_unwatched] at hwithin ⊢
      rw [ended_of_not_broken hunbroken, outcome_of_not_broken hunbroken]
      exact ⟨fun _ => ⟨rfl, rfl⟩, fun hlt => absurd hwithin (Nat.not_le.2 hlt)⟩
    | parted hparted =>
      cases hparted with
      | limited hcut hlimit habort hexecuted hlt hfaithful =>
        cases hlimit
        refine ⟨fun hle => absurd hle (Nat.not_le.2 hlt), fun _ => ?_⟩
        rw [ended_of_not_broken hcut, outcome_of_not_broken hcut]
        exact ⟨status_of_not_broken hcut habort, hexecuted, hfaithful⟩
      | cancelled _ hwatch => cases hwatch
    | lost hbroken => rw [hunbroken] at hbroken; cases hbroken
  · refine ⟨_, _, process_eq_ranPage s none (some k) segments resources, ?_⟩
    cases ranPage_tracks s none (some k) segments resources with
    | inStep hin =>
      have hcut : (ranPage s none (some k) segments resources).broken = false := by
        rw [hin.full_eq] at hunbroken
        exact hunbroken
      rw [hin.full_eq] at hk ⊢
      rw [ended_of_not_broken hcut, outcome_of_not_broken hcut]
      exact ⟨.inl rfl, Nat.le_refl _, _, [], (List.append_nil _).symm, List.prefix_refl _, hk, by simp⟩
    | parted hparted =>
      cases hparted with
      | limited _ hlimit => cases hlimit
      | cancelled hcut hwatch habort hexecuted hfaithful =>
        cases hwatch
        rw [ended_of_not_broken hcut, outcome_of_not_broken hcut]
        exact ⟨.inr (status_of_not_broken hcut habort), hexecuted, hfaithful⟩
    | lost hbroken => rw [hunbroken] at hbroken; cases hbroken

/-- The page `/P BMC /Q MP EMC`, whole, with a limit of one operator, and cancelled while it tells of its
first event. -/
example :
    let told (limit watch : Option Nat) :=
      ((start {} watch).process (Setting.bounded {} limit)
        [[47, 80, 32, 66, 77, 67, 32, 47, 81, 32, 77, 80, 32, 69, 77, 67]] []).toOption.map
          fun run => (run.1.status, run.1.executed, run.2.events.map (·.payload.kind))
    told none none = some (.finished, 3, ["mc-begin", "mc-point", "mc-end"]) ∧
    told (some 1) none = some (.aborted (.operatorLimit 1), 1, ["mc-begin", "mc-end"]) ∧
    told none (some 1) = some (.aborted .cancelled, 1, ["mc-begin", "mc-end"]) := by
  decide +kernel

end Processor

end ContentStream
