import ContentStream.Run.Execute

/-!
# Runs

A processor runs the content of one page, once.

**Breakdowns.** A run in which a reader breaks down has no outcome: whoever started it gets no answer.
All that is left is what listeners had been told by then. Such runs have a status of their own here, so
that they can be told from the others.
-/

namespace ContentStream

inductive RunStatus where
  | finished
  | aborted (reason : AbortReason)
  /-- The program broke down, and there is no outcome. -/
  | broken
deriving DecidableEq

structure Outcome where
  status : RunStatus
  diagnostics : List Diagnostic
  /-- How many operators were executed. -/
  executed : Nat

/-- The stage of a processor after a run. -/
def RunStatus.stage : RunStatus → Stage
  | finished => .finished
  | aborted _ => .aborted
  | broken => .running

namespace Processor

/-- A processor that is ready to run. With `cancelIn` the run is cancelled after so many events. -/
def start (s : Setting) (cancelIn : Option Nat := none) : Processor :=
  { gstate.ctm := s.config.ctm, cancelIn := cancelIn }

/-- Whether the program has broken down. -/
def broken (p : Processor) : Bool := p.log.any LogEntry.isBreakdown

/-- What listeners are told before the program breaks down, or all of it if it does not. -/
def heard (p : Processor) : List LogEntry := p.entries.takeWhile fun e => !e.isBreakdown

/-- The status of a run that has come this far and ends here. -/
def status (p : Processor) : RunStatus :=
  if p.broken then .broken
  else
    match p.abort with
    | some reason => .aborted reason
    | none => .finished

/-- The outcome of a run that has come this far and ends here. -/
def outcome (p : Processor) : Outcome :=
  if p.broken then ⟨.broken, p.heard.filterMap LogEntry.diagnostic?, 0⟩
  else ⟨p.status, p.diagnostics, p.executed⟩

/-- The processor at the end of a run. After a breakdown only what was heard is left of it. -/
def ended (p : Processor) : Processor :=
  if p.broken then { stage := .running, log := p.heard.reverse }
  else { p with stage := p.status.stage, gstack := [], compatDepth := 0, abort := none }

/-- Runs content that may be split over several segments. -/
def process (s : Setting) (p : Processor) (segments : List (List UInt8)) (resources : Dict) :
    Except Error (Outcome × Processor) :=
  if p.stage = .ready then
    let begun := { p with stage := .running, resources := ⟨[resources]⟩ }
    let ran := begun.execute s (runner s s.config.maxDepth) (Content.items segments)
    .ok (ran.outcome, ran.ended)
  else .error (.notReady p.stage)

/-! ## Breakdowns -/

variable {p : Processor}

@[simp] theorem broken_breakDown (p : Processor) : p.breakDown.broken = true := rfl

@[simp] theorem broken_emit (s : Setting) (p : Processor) (payload : EventPayload) :
    (p.emit s payload).broken = p.broken := by
  unfold emit
  split <;> rfl

@[simp] theorem broken_report (p : Processor) (operator : Option String) (e : Error) :
    (p.report operator e).broken = p.broken := rfl

theorem outcome_status (p : Processor) : p.outcome.status = p.status := by
  cases h : p.broken <;> simp [outcome, status, h]

theorem outcome_status_eq_broken_iff : p.outcome.status = .broken ↔ p.broken = true := by
  rw [outcome_status, status]
  cases p.broken with
  | false => cases p.abort <;> simp
  | true => simp

theorem broken_eq_false (h : p.outcome.status ≠ .broken) : p.broken = false :=
  Bool.eq_false_iff.2 fun hbroken => h (outcome_status_eq_broken_iff.2 hbroken)

theorem status_of_not_broken {reason : AbortReason} (h : p.broken = false)
    (habort : p.abort = some reason) : p.status = .aborted reason := by
  simp [status, h, habort]

theorem outcome_of_not_broken (h : p.broken = false) :
    p.outcome = ⟨p.status, p.diagnostics, p.executed⟩ := by
  simp [outcome, h]

theorem ended_of_not_broken (h : p.broken = false) :
    p.ended =
      { p with stage := p.status.stage, gstack := [], compatDepth := 0, abort := none } := by
  simp [ended, h]

theorem not_isBreakdown_of_not_broken (h : p.broken = false) :
    ∀ e ∈ p.entries, (!e.isBreakdown) = true := by
  intro e he
  have hnone := List.any_eq_false.1 h e (List.mem_reverse.1 he)
  simpa using hnone

theorem heard_of_not_broken (h : p.broken = false) : p.heard = p.entries := by
  have hall : (p.entries ++ []).takeWhile _ = p.entries ++ [] :=
    List.takeWhile_append_of_pos (not_isBreakdown_of_not_broken h)
  simpa [heard] using hall

theorem ended_entries (p : Processor) : p.ended.entries = p.heard := by
  cases h : p.broken with
  | false => rw [ended_of_not_broken h, heard_of_not_broken h]; rfl
  | true => simp [ended, h, entries]

theorem ended_events (p : Processor) : p.ended.events = p.heard.filterMap LogEntry.event? :=
  congrArg _ p.ended_entries

theorem outcome_diagnostics (p : Processor) :
    p.outcome.diagnostics = p.heard.filterMap LogEntry.diagnostic? := by
  cases h : p.broken with
  | false => rw [outcome_of_not_broken h, heard_of_not_broken h]; rfl
  | true => simp [outcome, h]

/-- Listeners hear a first part of what a run tells, and all of it unless the program breaks down. -/
theorem heard_isPrefix (p : Processor) : p.heard <+: p.entries := List.takeWhile_prefix _

theorem ended_events_isPrefix (p : Processor) : p.ended.events <+: p.events :=
  p.ended_events ▸ p.heard_isPrefix.filterMap _

theorem outcome_diagnostics_isPrefix (p : Processor) : p.outcome.diagnostics <+: p.diagnostics :=
  p.outcome_diagnostics ▸ p.heard_isPrefix.filterMap _

/-- Nobody hears of what comes behind a breakdown. -/
theorem heard_of_broken {q : Processor} (h : p.log <:+ q.log) (hbroken : p.broken = true) :
    q.broken = true ∧ q.heard = p.heard := by
  obtain ⟨told, htold⟩ := h
  refine ⟨by simp [broken, ← htold, show p.log.any _ = true from hbroken], ?_⟩
  obtain ⟨e, he, hbreaks⟩ := List.any_eq_true.1 hbroken
  unfold heard entries
  rw [← htold, List.reverse_append, List.takeWhile_append, if_neg]
  intro hlength
  have hall := (List.takeWhile_prefix _).eq_of_length hlength
  have hmem := hall ▸ List.mem_reverse.2 he
  have hnot := List.all_eq_true.1 List.all_takeWhile e hmem
  simp [hbreaks] at hnot

/-- What is told later is heard later, if it is heard at all. -/
theorem heard_isPrefix_of_suffix {q : Processor} (h : p.log <:+ q.log) : p.heard <+: q.heard := by
  cases hbroken : p.broken with
  | true => exact (heard_of_broken h hbroken).2 ▸ List.prefix_refl _
  | false =>
    obtain ⟨told, htold⟩ := h
    have hsplit : q.entries = p.entries ++ told.reverse := by
      simp [entries, ← htold]
    rw [heard_of_not_broken hbroken, heard, hsplit,
      List.takeWhile_append_of_pos (not_isBreakdown_of_not_broken hbroken)]
    exact List.prefix_append _ _

end Processor

end ContentStream
