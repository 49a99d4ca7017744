import ContentStream.Decimal.Basic

/-!
# Points, rectangles and affine maps

Coordinates are exact decimals, so every computation can run out of room. The operations then give
`none`, and nothing is ever rounded to an infinity.

**Maps.** A matrix `(a, b, c, d, e, f)` sends `(x, y)` to `(a x + c y + e, b x + d y + f)`. Points are
row vectors: `m₁.mul? m₀` applies `m₁` first and `m₀` second.
-/

namespace ContentStream

structure Point where
  x : Decimal
  y : Decimal

/-- A rectangle by two opposite corners. -/
structure Rect where
  x0 : Decimal
  y0 : Decimal
  x1 : Decimal
  y1 : Decimal

/-- An affine map of the plane. -/
structure Matrix where
  a : Decimal
  b : Decimal
  c : Decimal
  d : Decimal
  e : Decimal
  f : Decimal

namespace Matrix

def identity : Matrix := ⟨1, 0, 0, 1, 0, 0⟩

instance : Inhabited Matrix := ⟨identity⟩

/-- `a * b + c * d + e`. -/
def dot? (a b c d e : Decimal) : Option Decimal := do
  let ab ← a.mul? b
  let cd ← c.mul? d
  let sum ← ab.add? cd
  sum.add? e

/-- The map that applies `m₁` and then `m₀`. -/
def mul? (m₁ m₀ : Matrix) : Option Matrix := do
  let a ← dot? m₀.a m₁.a m₀.c m₁.b 0
  let b ← dot? m₀.b m₁.a m₀.d m₁.b 0
  let c ← dot? m₀.a m₁.c m₀.c m₁.d 0
  let d ← dot? m₀.b m₁.c m₀.d m₁.d 0
  let e ← dot? m₀.a m₁.e m₀.c m₁.f m₀.e
  let f ← dot? m₀.b m₁.e m₀.d m₁.f m₀.f
  return ⟨a, b, c, d, e, f⟩

/-- The map whose origin is moved by `v`, measured in the map's own coordinates. -/
def translate? (m : Matrix) (v : Point) : Option Matrix := do
  let e ← dot? v.x m.a v.y m.c m.e
  let f ← dot? v.x m.b v.y m.d m.f
  return { m with e, f }

/-- The image of a point. -/
def image? (m : Matrix) (p : Point) : Option Point := do
  let x ← dot? m.a p.x m.c p.y m.e
  let y ← dot? m.b p.x m.d p.y m.f
  return ⟨x, y⟩

def toList (m : Matrix) : List Decimal := [m.a, m.b, m.c, m.d, m.e, m.f]

end Matrix

namespace Rect

/-- The smallest rectangle that holds `r` and `p`. -/
def cover (r : Rect) (p : Point) : Rect :=
  ⟨min r.x0 p.x, min r.y0 p.y, max r.x1 p.x, max r.y1 p.y⟩

/-- The smallest rectangle that holds all the points, if there is a point. -/
def bound? : List Point → Option Rect
  | [] => none
  | p :: ps => some (ps.foldl cover ⟨p.x, p.y, p.x, p.y⟩)

/-- The common part of two rectangles, if they meet. -/
def intersect? (r s : Rect) : Option Rect :=
  let x0 := max r.x0 s.x0
  let y0 := max r.y0 s.y0
  let x1 := min r.x1 s.x1
  let y1 := min r.y1 s.y1
  if x0 ≤ x1 ∧ y0 ≤ y1 then some ⟨x0, y0, x1, y1⟩ else none

/-- The rectangle with its corners put in order. -/
def sorted (r : Rect) : Rect :=
  ⟨min r.x0 r.x1, min r.y0 r.y1, max r.x0 r.x1, max r.y0 r.y1⟩

end Rect

end ContentStream
