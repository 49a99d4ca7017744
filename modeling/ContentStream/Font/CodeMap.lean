import ContentStream.Error
import Std.Data.TreeMap

/-!
# Maps from character codes

What fonts know about a code: its width, its text, the name of its glyph. Tables in font files give
single codes, runs of codes and ranges; later entries replace earlier ones.
-/

namespace ContentStream

abbrev CodeMap (α : Type) := Std.TreeMap Nat α

namespace CodeMap

variable {α : Type}

/-- Sets each of the codes from `first` on by a function of its place in the range. -/
def insertRange (map : CodeMap α) (first count : Nat) (value : Nat → α) : CodeMap α :=
  (List.range count).foldl (fun m k => m.insert (first + k) (value k)) map

end CodeMap

/-- The largest number of four bytes. -/
def maxCode : Nat := 0xFFFFFFFF

/-- The character code that a number denotes. -/
def Decimal.toCode (n : Decimal) : Except Error Nat :=
  match n.isIntegral, n.toNatBelow? (maxCode + 1) with
  | true, some code => .ok code
  | _, _ => .error (.invalidValue (.characterCode n))

end ContentStream
