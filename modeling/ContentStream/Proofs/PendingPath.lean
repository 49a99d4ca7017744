import ContentStream.Proofs.Nesting

/-!
# The pending path can be drawn

Beside its segments a path builder keeps the point where the next line starts, and the point where
closing the subpath leads. Operators update the three fields one by one, painting clears them, and a
stream that runs inside another one has a path of its own.

**Theorem (`Moment.drawable`).** At every moment of every run the two points are those that a pen has
after drawing the segments, and the first segment moves the pen somewhere.

The segments say it all (`drawable_of_replay`): as soon as the path begins with a move, the pen stands
somewhere and knows where its subpath started. So a step of the builder (`step_extends`) only has to
draw what it adds, and to add a move first if there is nothing yet.
-/

namespace ContentStream

/-! ## Drawing -/

/-- A pen: where it stands, and where the subpath started. -/
structure Pen where
  start : Option Point := none
  current : Option Point := none

def Pen.draw (pen : Pen) : Segment → Pen
  | .moveTo p => ⟨some p, some p⟩
  | .lineTo p => { pen with current := some p }
  | .curveTo _ _ p => { pen with current := some p }
  | .close => { pen with current := pen.start }

/-- The point that a segment moves to without drawing. -/
def Segment.movesTo? : Segment → Option Point
  | .moveTo p => some p
  | _ => none

namespace Path

/-- The pen behind a path. -/
def replay (path : Path) : Pen := path.foldl Pen.draw {}

def lastMove? (path : Path) : Option Point := (path.filterMap Segment.movesTo?).getLast?

/-- The path says where it begins. -/
def BeginsWithMove (path : Path) : Prop := ∃ p rest, path = .moveTo p :: rest

theorem replay_append (path more : Path) :
    replay (path ++ more) = more.foldl Pen.draw path.replay :=
  List.foldl_append

theorem BeginsWithMove.append {path : Path} (h : path.BeginsWithMove) (more : Path) :
    BeginsWithMove (path ++ more) := by
  obtain ⟨p, rest, rfl⟩ := h
  exact ⟨p, rest ++ more, rfl⟩

theorem start_foldl_draw (path : Path) (pen : Pen) :
    (path.foldl Pen.draw pen).start = path.lastMove?.or pen.start := by
  induction path generalizing pen with
  | nil => rfl
  | cons s path ih =>
    rw [List.foldl_cons, ih]
    cases s with
    | moveTo p =>
      have hlast : lastMove? (.moveTo p :: path) = some ((lastMove? path).getD p) :=
        List.getLast?_cons
      rw [hlast]
      cases lastMove? path <;> rfl
    | _ => rfl

theorem start_replay (path : Path) : path.replay.start = path.lastMove? :=
  (start_foldl_draw path {}).trans (Option.or_none ..)

/-- A pen that stands somewhere stands somewhere after each segment. -/
theorem foldl_draw_ne_none (path : Path) {pen : Pen} (hstart : pen.start ≠ none)
    (hcurrent : pen.current ≠ none) :
    (path.foldl Pen.draw pen).start ≠ none ∧ (path.foldl Pen.draw pen).current ≠ none := by
  induction path generalizing pen with
  | nil => exact ⟨hstart, hcurrent⟩
  | cons s path ih =>
    rw [List.foldl_cons]
    cases s with
    | moveTo p => exact ih (Option.some_ne_none p) (Option.some_ne_none p)
    | lineTo p => exact ih hstart (Option.some_ne_none p)
    | curveTo p q r => exact ih hstart (Option.some_ne_none r)
    | close => exact ih hstart hstart

end Path

/-! ## Drawable paths -/

namespace PathBuilder

variable {b b' : PathBuilder} {way : PathStep}

/-- The segments can be drawn from nothing, and the points are where that leads. -/
structure Drawable (b : PathBuilder) : Prop where
  empty_iff_current : b.path = [] ↔ b.current = none
  empty_iff_start : b.path = [] ↔ b.start = none
  begins : b.path ≠ [] → b.path.BeginsWithMove
  start : b.start = b.path.lastMove?
  current : b.current = b.path.replay.current

def pen (b : PathBuilder) : Pen := ⟨b.start, b.current⟩

theorem drawable_of_replay (hpen : b.pen = b.path.replay)
    (hbegins : b.path ≠ [] → b.path.BeginsWithMove) : b.Drawable := by
  have hstart : b.start = b.path.replay.start := congrArg Pen.start hpen
  have hcurrent : b.current = b.path.replay.current := congrArg Pen.current hpen
  have hpoints : b.path ≠ [] → b.path.replay.start ≠ none ∧ b.path.replay.current ≠ none := by
    intro hne
    obtain ⟨p, rest, hpath⟩ := hbegins hne
    rw [hpath]
    exact Path.foldl_draw_ne_none rest (Option.some_ne_none p) (Option.some_ne_none p)
  refine ⟨⟨fun h => ?_, fun h => ?_⟩, ⟨fun h => ?_, fun h => ?_⟩, hbegins, ?_, hcurrent⟩
  · rw [hcurrent, h]
    rfl
  · exact Classical.byContradiction fun hne => (hpoints hne).2 (hcurrent ▸ h)
  · rw [hstart, h]
    rfl
  · exact Classical.byContradiction fun hne => (hpoints hne).1 (hstart ▸ h)
  · rw [hstart, Path.start_replay]

theorem Drawable.pen_eq (hb : b.Drawable) : b.pen = b.path.replay := by
  unfold pen
  rw [hb.start, hb.current, ← Path.start_replay]

theorem drawable_empty : Drawable {} := drawable_of_replay rfl fun h => absurd rfl h

/-- More segments have been drawn. Nothing but a move can be the first. -/
def Extends (b b' : PathBuilder) : Prop :=
  ∃ more : Path, b'.path = b.path ++ more ∧ b'.pen = more.foldl Pen.draw b.pen ∧
    (b.current = none → more = [] ∨ more.BeginsWithMove)

/-- A line or a curve starts from the current point, so it is not the first segment. -/
theorem push_extends {operator : String} {segment : Point → Segment} {r : Point}
    (h : (b.currentFor operator >>= fun p => pure (b.push (segment p) r)) = .ok b')
    (hdraw : ∀ p, b.pen.draw (segment p) = { b.pen with current := some r }) : b.Extends b' := by
  obtain ⟨p, hcurrent, h⟩ := exists_of_bind_ok h
  cases h
  refine ⟨[segment p], by simp [path, push], (hdraw p).symm, fun hnone => ?_⟩
  simp [currentFor, hnone] at hcurrent

/-- **One step** of the builder draws what it adds. -/
theorem step_extends (h : b.step way = .ok b') : b.Extends b' := by
  cases way with
  | moveTo p =>
    cases h
    exact ⟨[.moveTo p], by simp [path, push], rfl, fun _ => .inr ⟨p, [], rfl⟩⟩
  | lineTo p => exact push_extends h fun _ => rfl
  | curveTo p q r => exact push_extends h fun _ => rfl
  | curveFromCurrent q r => exact push_extends h fun _ => rfl
  | curveToFinal p r => exact push_extends h fun _ => rfl
  | close =>
    simp only [PathBuilder.step] at h
    split at h
    · rename_i hsome
      cases h
      refine ⟨[.close], by simp [path], rfl, fun hnone => ?_⟩
      rw [hnone] at hsome
      cases hsome
    · cases h
      exact ⟨[], (List.append_nil _).symm, rfl, fun _ => .inl rfl⟩
  | rectangle origin size =>
    obtain ⟨x, -, h⟩ := exists_of_bind_ok h
    obtain ⟨y, -, h⟩ := exists_of_bind_ok h
    cases h
    refine ⟨Path.rectangle ⟨origin.x, origin.y, x, y⟩, ?_, rfl, fun _ => .inr ⟨_, _, rfl⟩⟩
    simp [path, pushRectangle]

theorem Drawable.extend (hb : b.Drawable) (h : b.Extends b') : b'.Drawable := by
  obtain ⟨more, hpath, hpen, hfirst⟩ := h
  apply drawable_of_replay
  · rw [hpath, Path.replay_append, ← hb.pen_eq, hpen]
  · intro hne
    rw [hpath] at hne ⊢
    by_cases hempty : b.path = []
    · rw [hempty] at hne ⊢
      exact (hfirst (hb.empty_iff_current.1 hempty)).resolve_left hne
    · exact (hb.begins hempty).append more

theorem Drawable.step (hb : b.Drawable) (h : b.step way = .ok b') : b'.Drawable :=
  hb.extend (step_extends h)

/-! ## What is painted -/

/-- The close that an operator adds which closes the path first. -/
def closing (b : PathBuilder) (close : Bool) : Path :=
  if close = true ∧ b.path.getLast?.any (!·.isClose) = true then [.close] else []

theorem finished_eq (b : PathBuilder) (close : Bool) :
    b.finished close = b.path ++ b.closing close := by
  obtain ⟨segments, current, start⟩ := b
  cases segments with
  | nil => simp [finished, closing, path]
  | cons s rest =>
    cases hs : s.isClose <;> cases close <;> simp [finished, closing, path, hs]

theorem Drawable.finished_begins (hb : b.Drawable) (close : Bool) (h : b.finished close ≠ []) :
    (b.finished close).BeginsWithMove := by
  rw [finished_eq] at h ⊢
  by_cases hempty : b.path = []
  · simp [hempty, closing] at h
  · exact (hb.begins hempty).append _

end PathBuilder

/-! ## Runs -/

namespace Processor

variable {s : Setting} {n : Nat} {b : Bool} {p q : Processor}

@[simp] theorem path_emit (s : Setting) (p : Processor) (payload : EventPayload) :
    (p.emit s payload).path = p.path := by
  unfold emit
  split <;> rfl

theorem path_beginNested (s : Setting) (p : Processor) (run : NestedRun) (clip : Option Path) :
    (p.beginNested s run clip).path = {} := by
  show (p.enter s run clip).path = {}
  unfold enter enterForm
  cases run.source with
  | form info ref => cases clip <;> exact path_emit ..
  | glyph font procedure => rfl

theorem SameButFonts.path (h : SameButFonts p q) : q.path = p.path := by
  unfold SameButFonts at h
  rw [h]

theorem path_closeLatest (s : Setting) (n : Nat) (p : Processor) :
    (closeLatest s n p).path = p.path := by
  induction n generalizing p with
  | zero => rfl
  | succ n ih =>
    unfold closeLatest
    split
    · rfl
    · rw [ih, path_emit]

theorem Step.drawable (h : Step s p q) (hp : p.path.Drawable) : q.path.Drawable := by
  cases h with
  | look =>
    unfold poll
    split <;> exact hp
  | mark payload => exact path_emit s p payload ▸ hp
  | load h => exact (loadFont_sameButFonts h).path ▸ hp
  | path h => exact hp.step h
  | dropPath => exact PathBuilder.drawable_empty
  | openSection label =>
    have hsame : (p.openSection s label).path = p.path := path_emit ..
    exact hsame ▸ hp
  | closeSection => exact path_closeLatest s 1 p ▸ hp
  | _ => exact hp

/-- **Every course of steps** keeps the path drawable. A stream inside starts with an empty path and
gives the old one back. -/
theorem Steps.drawable (h : Steps s n b p q) (hp : p.path.Drawable) : q.path.Drawable := by
  induction h with
  | refl p => exact hp
  | step h => exact h.drawable hp
  | save p => exact hp
  | restore => exact hp
  | nested => exact hp
  | trans _ _ ih₁ ih₂ => exact ih₂ (ih₁ hp)

/-- **Every moment** of a run has a path that can be drawn. -/
theorem Moment.drawable {cancelIn : Option Nat} {resources : Dict} {running : List NestedSource}
    (h : Moment s (beginPage s cancelIn resources) n running q) : q.path.Drawable := by
  induction h with
  | start => exact PathBuilder.drawable_empty
  | course _ hsteps ih => exact hsteps.drawable ih
  | inside => exact path_beginNested .. ▸ PathBuilder.drawable_empty

end Processor

end ContentStream
