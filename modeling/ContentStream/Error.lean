import ContentStream.Decimal.Text
import ContentStream.Text.Quoted

/-!
# What can go wrong

Reading and running content fails for a closed list of causes. A cause keeps the values it is about;
its wording is in `Error.message` and the functions that it calls, and nowhere else.
-/

namespace ContentStream

/-! ## Causes -/

/-- What a value is, or what it was expected to be. -/
inductive Shape where
  | null
  | bool
  | number
  | string
  | name
  | array
  | dict
  | stream
  | ref
  | integer
  | real
  | nameOrArray
  | textArray
  | propertyList
deriving DecidableEq

/-- How many operands an operator takes. -/
inductive Arity where
  | exact (n : Nat)
  | any
deriving DecidableEq

/-- Whether an operator takes `n` operands. -/
def Arity.accepts : Arity → Nat → Bool
  | exact k, n => k == n
  | any, _ => true

/-- Why a token, or the place where it stands, is malformed. -/
inductive TokenFault where
  | number (text : String)
  | hexDigit (byte : UInt8)
  | unexpectedClose
  | unbalanced (closer : String)
  | operatorInContainer (name : String)
  | operatorInImage (name : String)
  | keyNotName

/-- Why a value is no use where it stands. -/
inductive ValueFault where
  | missingOperand (operator : String) (index : Nat)
  | outOfRange (operator : String) (value : Int) (last : Nat)
  | negativeDash (operator : String)
  | stateEntry (key : String) (expected got : Shape)
  | stateDash
  | stateBlendMode
  | stateMask (got : Shape)
  | stateFont
  | emptyColorSpace
  | missingParameter (family : String) (index : Nat)
  | profileComponents (n : Int)
  | unknownColorSpace (name : String)
  | renderingMode (n : Int)
  | noFont
  | outsideGlyph (operator : String)
  | noCurrentPoint (operator : String)
  | formMatrix (size : Nat)
  | formBox (size : Nat)
  | imageWithoutData
  | dataWithoutImage
  | characterCode (value : Decimal)
  | fontMatrix

/-- How marked content can fail to nest. -/
inductive SectionFault where
  | unclosed (tags : List String)
  | notOpen

/-- The stages in the life of a processor. -/
inductive Stage where
  | ready
  | running
  | finished
  | aborted
deriving DecidableEq

inductive Error where
  | malformedToken (pos : Nat) (fault : TokenFault)
  | truncated
  /-- The reader broke down: it was to take bytes from a segment where there is none. This is not
  reported, since nothing goes on from there. -/
  | missingSegment
  | arity (operator : String) (expected : Arity) (got : Nat)
  | operandShape (operator : String) (index : Nat) (expected got : Shape)
  | shape (expected got : Shape)
  | unknownOperator (name : String)
  | unmatchedRestore
  | nesting (depth limit : Nat)
  | missingResource (category name : String)
  | invalidValue (fault : ValueFault)
  | overflow
  | markedContent (fault : SectionFault)
  | notReady (stage : Stage)

/-- Says which operand a value of the wrong shape was. -/
def Error.forOperand (operator : String) (index : Nat) : Error → Error
  | .shape expected got => .operandShape operator index expected got
  | e => e

/-- A result that the decimals had no room for. -/
def orOverflow {α : Type} : Option α → Except Error α
  | some a => .ok a
  | none => .error .overflow

/-! ## Wording -/

def Shape.label : Shape → String
  | null => "null"
  | bool => "bool"
  | number => "number"
  | string => "string"
  | name => "name"
  | array => "array"
  | dict => "dict"
  | stream => "stream"
  | ref => "ref"
  | integer => "integer"
  | real => "real"
  | nameOrArray => "name or array"
  | textArray => "array of strings and numbers"
  | propertyList => "property list dictionary"

def Arity.label : Arity → String
  | exact n => toString n
  | any => "a variable number of"

def TokenFault.message : TokenFault → String
  | number text => "invalid number " ++ Quoted.text text
  | hexDigit byte => "invalid hex digit " ++ Quoted.char (Char.ofNat byte.toNat)
  | unexpectedClose => "unexpected '>'"
  | unbalanced closer => "unbalanced '" ++ closer ++ "'"
  | operatorInContainer name => "operator " ++ name ++ " inside a container"
  | operatorInImage name => "operator " ++ name ++ " inside an inline image dictionary"
  | keyNotName => "dictionary key is not a name"

def ValueFault.message : ValueFault → String
  | missingOperand operator index => operator ++ ": missing operand " ++ toString index
  | outOfRange operator value last =>
    operator ++ ": " ++ toString value ++ " is out of range 0..=" ++ toString last
  | negativeDash operator => operator ++ ": negative dash length"
  | stateEntry key expected got =>
    "ExtGState /" ++ key ++ ": expected " ++ expected.label ++ ", got " ++ got.label
  | stateDash => "ExtGState /D: expected [array phase]"
  | stateBlendMode => "ExtGState /BM: empty array"
  | stateMask got => "ExtGState /SMask: unexpected " ++ got.label
  | stateFont => "ExtGState /Font: expected [font size]"
  | emptyColorSpace => "empty colour space array"
  | missingParameter family index => family ++ ": missing parameter " ++ toString index
  | profileComponents n => "ICCBased: bad /N " ++ toString n
  | unknownColorSpace name => "unknown colour space " ++ name
  | renderingMode n => "Tr: bad rendering mode " ++ toString n
  | noFont => "no font selected"
  | outsideGlyph operator => operator ++ " outside a Type 3 glyph procedure"
  | noCurrentPoint operator => operator ++ ": no current point"
  | formMatrix size => "form /Matrix has " ++ toString size ++ " elements"
  | formBox size => "form /BBox has " ++ toString size ++ " elements"
  | imageWithoutData => "BI without inline image data"
  | dataWithoutImage => "ID outside an inline image"
  | characterCode value => "bad character code " ++ value.render
  | fontMatrix => "FontMatrix needs 6 numbers"

def SectionFault.message : SectionFault → String
  | unclosed tags =>
    toString tags.length ++ " unclosed section(s) at end of stream: " ++ " ".intercalate tags
  | notOpen => "EMC without an open section"

def Stage.label : Stage → String
  | ready => "ready"
  | running => "running"
  | finished => "finished"
  | aborted => "aborted"

def Error.message : Error → String
  | malformedToken pos fault =>
    "malformed token at position " ++ toString pos ++ ": " ++ fault.message
  | truncated => "unexpected end of input"
  | missingSegment => "no segment to read from"
  | arity operator expected got =>
    "operator " ++ operator ++ " expects " ++ expected.label ++ " operands, got " ++ toString got
  | operandShape operator index expected got =>
    "operator " ++ operator ++ ": operand " ++ toString index ++ " should be " ++ expected.label ++
      ", got " ++ got.label
  | shape expected got => "type error: expected " ++ expected.label ++ ", got " ++ got.label
  | unknownOperator name => "unknown operator: " ++ name
  | unmatchedRestore => "restore without a matching save"
  | nesting depth limit =>
    "nesting depth " ++ toString depth ++ " exceeds limit " ++ toString limit
  | missingResource category name => category ++ " resource not found: " ++ name
  | invalidValue fault => "invalid value: " ++ fault.message
  | overflow => "numeric overflow"
  | markedContent fault => "marked content mismatch: " ++ fault.message
  | notReady stage => "processor is not ready (state: " ++ stage.label ++ ")"

/-! ## Diagnostics -/

/-- The families in which problems are reported. -/
inductive DiagnosticKind where
  | malformedToken
  | arityMismatch
  | typeMismatch
  | unknownOperator
  | stackUnderflow
  | unboundedRecursion
  | missingResource
  | invalidValue
  | numericOverflow
  | markedContentMismatch
deriving DecidableEq

def DiagnosticKind.label : DiagnosticKind → String
  | malformedToken => "malformed-token"
  | arityMismatch => "arity-mismatch"
  | typeMismatch => "type-mismatch"
  | unknownOperator => "unknown-operator"
  | stackUnderflow => "stack-underflow"
  | unboundedRecursion => "unbounded-recursion"
  | missingResource => "missing-resource"
  | invalidValue => "invalid-value"
  | numericOverflow => "numeric-overflow"
  | markedContentMismatch => "marked-content-mismatch"

def Error.kind : Error → DiagnosticKind
  | malformedToken .. | truncated | missingSegment => .malformedToken
  | arity .. => .arityMismatch
  | operandShape .. | shape .. => .typeMismatch
  | unknownOperator .. => .unknownOperator
  | unmatchedRestore => .stackUnderflow
  | nesting .. => .unboundedRecursion
  | missingResource .. => .missingResource
  | invalidValue .. | notReady .. => .invalidValue
  | overflow => .numericOverflow
  | markedContent .. => .markedContentMismatch

/-- A problem that a run met and went on after. `pos` is an offset in the stream that was running at
nesting `depth`, which is 0 for the page itself. -/
structure Diagnostic where
  pos : Nat
  depth : Nat
  operator : Option String
  error : Error

def Diagnostic.text (d : Diagnostic) : String :=
  let depth := if d.depth = 0 then "" else " (depth " ++ toString d.depth ++ ")"
  "[" ++ d.error.kind.label ++ "] @" ++ toString d.pos ++ depth ++ ": " ++ d.error.message

end ContentStream
