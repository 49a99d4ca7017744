import ContentStream.Graphics.Geometry
import ContentStream.Object.Basic

/-!
# Operands

The objects in front of an operator, read by their places. An error names the operator and the place.
-/

namespace ContentStream

structure Operands where
  operator : String
  args : List Object

namespace Operands

def get (ops : Operands) (index : Nat) : Except Error Object :=
  match ops.args[index]? with
  | some o => .ok o
  | none => .error (.invalidValue (.missingOperand ops.operator index))

/-- The operand at a place, seen as the view says. -/
def view {α : Type} (ops : Operands) (view : Object → Except Error α) (index : Nat) :
    Except Error α := do
  let o ← ops.get index
  (view o).mapError (Error.forOperand ops.operator index)

def number (ops : Operands) : Nat → Except Error Decimal := ops.view Object.asNumber

def int (ops : Operands) : Nat → Except Error Int := ops.view Object.asInt

def name (ops : Operands) : Nat → Except Error String := ops.view Object.asName

def string (ops : Operands) : Nat → Except Error ByteString := ops.view Object.asString

def array (ops : Operands) : Nat → Except Error (List Object) := ops.view Object.asArray

def dict (ops : Operands) : Nat → Except Error Dict := ops.view Object.asDict

def stream (ops : Operands) : Nat → Except Error Stream := ops.view Object.asStream

def point (ops : Operands) (index : Nat) : Except Error Point := do
  let x ← ops.number index
  let y ← ops.number (index + 1)
  return ⟨x, y⟩

def matrix (ops : Operands) (index : Nat) : Except Error Matrix := do
  let a ← ops.number index
  let b ← ops.number (index + 1)
  let c ← ops.number (index + 2)
  let d ← ops.number (index + 3)
  let e ← ops.number (index + 4)
  let f ← ops.number (index + 5)
  return ⟨a, b, c, d, e, f⟩

/-- All operands, as numbers. -/
def numbers (ops : Operands) : Except Error (List Decimal) :=
  (List.range ops.args.length).mapM ops.number

end Operands

end ContentStream
