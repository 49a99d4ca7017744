import ContentStream.Content.Item
import ContentStream.Run.Perform

/-!
# Executing streams

Operands pile up until an operator takes them all. Whatever goes wrong with an operator is reported,
and the stream goes on with the next item; only a truncated stream, a cancellation and the limit on
operators end it. An item is read before anyone asks whether the stream goes on, so a reader that
breaks down takes the program with it, even when the run has been stopped.

**Nesting.** `execute` does not know how streams run inside others: it is given a `NestedRunner`.
`runner` ties the knot, with a budget for each further depth.
-/

namespace ContentStream

namespace Processor

/-- Performs an operator of the closed set. -/
def operate (s : Setting) (nested : NestedRunner) (p : Processor) (op : Operator) (args : Operands) :
    Reply :=
  .attempt p (op.read args) (p.perform s nested)

/-- Reports what went wrong with an operator, at the operator's own place. -/
def settle (pos : Nat) (word : String) : Reply → Processor
  | .done p => p
  | .failed p e => { p with pos := pos }.report (some word) e

/-- Executes the operator that a word stands for. Words that stand for none are reported, except in
compatibility sections. -/
def executeWord (s : Setting) (nested : NestedRunner) (p : Processor) (word : String)
    (args : List Object) : Processor :=
  match Operator.find? word with
  | none =>
    if p.compatDepth > 0 then p else p.report (some word) (.unknownOperator word)
  | some (op, arity) =>
    if arity.accepts args.length then settle p.pos word (p.operate s nested op ⟨word, args⟩)
    else p.report (some word) (.arity word arity args.length)

/-- Whether the run has used up its operators. -/
def exhausted (s : Setting) (p : Processor) : Bool :=
  s.config.maxOperators.any fun limit => limit ≤ p.executed

/-- Counts an operator and executes it, within the limit on operators. -/
def dispatch (s : Setting) (nested : NestedRunner) (p : Processor) (word : String)
    (args : List Object) : Processor :=
  if p.exhausted s then
    { p with abort := s.config.maxOperators.map AbortReason.operatorLimit }
  else { p with executed := p.executed + 1 }.executeWord s nested word args

/-- An inline image takes no operands. -/
def dispatchImage (s : Setting) (nested : NestedRunner) (p : Processor) (image : Stream)
    (args : List Object) : Processor :=
  if args.isEmpty then p.dispatch s nested "EI" [image.toObject]
  else p.report (some "BI") (.arity "BI" (.exact 0) args.length)

/-- Executes items. `operands` are those that wait for an operator, latest first. -/
def executeItems (s : Setting) (nested : NestedRunner) :
    List ItemAt → (operands : List Object) → Processor → Processor
  | [], _, p => p
  | (pos, item) :: rest, operands, p =>
    if ItemAt.breaksDown (pos, item) then p.breakDown
    else
      let p := p.poll s
      if p.abort.isSome then p
      else
        let p := { p with pos := pos }
        match item with
        | .ok (.operand o) => executeItems s nested rest (o :: operands) p
        | .ok (.operator word) =>
          executeItems s nested rest [] (p.dispatch s nested word operands.reverse)
        | .ok (.image image) =>
          executeItems s nested rest [] (p.dispatchImage s nested image operands.reverse)
        | .error .truncated => { p with abort := some (.truncated pos) }
        | .error e => executeItems s nested rest operands (p.report none e)

/-- Executes a stream, whose sections end with it. -/
def execute (s : Setting) (nested : NestedRunner) (p : Processor) (items : List ItemAt) : Processor :=
  let inner := { p with sectionFloor := p.sections.length }
  let inner := (executeItems s nested items [] inner).closeSections s
  { inner with sectionFloor := p.sectionFloor }

/-- Runs a stream inside another, if it is not running already. -/
def runNested (s : Setting) (nested : NestedRunner) (run : NestedRun) (p : Processor) : Reply :=
  if p.isActive run.source then .failed p (.nesting (p.depth + 1) s.config.maxDepth)
  else
    .attempt p run.clipPath fun clip =>
      let inner := (p.enter s run clip).execute s nested (Content.itemsOf run.data)
      .done (inner.noteTruncation.leave s p run.source)

end Processor

/-- Runs streams inside others, down to a depth of `budget` further streams. -/
def runner (s : Setting) : (budget : Nat) → NestedRunner
  | 0, _, p => .failed p (.nesting (p.depth + 1) s.config.maxDepth)
  | n + 1, run, p => p.runNested s (runner s n) run

end ContentStream
