/-!
# Exact decimals

The numbers of a content stream. A decimal is `coeff / 10 ^ scale`, with a coefficient of at most
96 bits and at most 28 places.

**The scale is part of the number.** `1.5` and `1.50` are equal but are written differently, and
each operation says which scale its result has. So is the sign of a zero, which a small negative
product can leave behind. Equality and order look at the value only.

**Rounding.** Every operation that may have to drop digits goes through `round?`: as many places as
fit, the last one rounded half to even, and no result at all when even the integral part is too
long.

**Conventions.** Content streams take decimals over as they are found here and in the modules beside
this one. What they rely on is gathered in `Decimal.Conventions`.
-/

namespace ContentStream

/-- `10 ^ n`. -/
def tenPow (n : Nat) : Nat := Nat.pow 10 n

/-- The first number that does not fit a word of 64 bits. -/
def wordBound : Nat := 0x10000000000000000

/-- The first coefficient that is too long: it has 97 bits. -/
def coeffBound : Nat := 0x1000000000000000000000000

/-- A decimal number: `coeff / 10 ^ scale`. -/
structure Decimal where
  coeff : Int
  scale : Nat
  /-- Whether this is a zero with a minus sign. -/
  minusZero : Bool := false
  coeff_lt : coeff.natAbs < coeffBound
  scale_le : scale ≤ 28
  coeff_eq_zero : minusZero = true → coeff = 0 := by simp

namespace Decimal

/-- The decimal with these parts, if they are in range. -/
def ofParts? (coeff : Int) (scale : Nat) : Option Decimal :=
  if h : coeff.natAbs < coeffBound ∧ scale ≤ 28 then
    some { coeff, scale, coeff_lt := h.1, scale_le := h.2 }
  else none

theorem ofParts?_eq_some {c : Int} {s : Nat} {d : Decimal} :
    ofParts? c s = some d ↔ d.coeff = c ∧ d.scale = s ∧ d.minusZero = false := by
  obtain ⟨c', s', z, hc, hs, hz⟩ := d
  unfold ofParts?
  split
  · rename_i h
    simp only [Option.some.injEq, mk.injEq]
    exact ⟨fun ⟨h₁, h₂, h₃⟩ => ⟨h₁.symm, h₂.symm, h₃.symm⟩,
      fun ⟨h₁, h₂, h₃⟩ => ⟨h₁.symm, h₂.symm, h₃.symm⟩⟩
  · rename_i h
    simp only [reduceCtorEq, false_iff]
    rintro ⟨rfl, rfl, -⟩
    exact h ⟨hc, hs⟩

/-- The integer of one byte's width or less, such as the constants of the graphics state. -/
def ofFin (n : Fin 1024) : Decimal :=
  { coeff := n.val, scale := 0, coeff_lt := by unfold coeffBound; omega, scale_le := by omega }

instance : OfNat Decimal 0 := ⟨ofFin 0⟩
instance : OfNat Decimal 1 := ⟨ofFin 1⟩
instance : OfNat Decimal 10 := ⟨ofFin 10⟩
instance : OfNat Decimal 100 := ⟨ofFin 100⟩
instance : OfNat Decimal 1000 := ⟨ofFin 1000⟩
instance : Inhabited Decimal := ⟨0⟩

/-- The number a decimal stands for. -/
def toRat (d : Decimal) : Rat := mkRat d.coeff (tenPow d.scale)

/-! ## Order -/

instance : LE Decimal := ⟨fun a b => a.coeff * tenPow b.scale ≤ b.coeff * tenPow a.scale⟩
instance : LT Decimal := ⟨fun a b => a.coeff * tenPow b.scale < b.coeff * tenPow a.scale⟩

instance (a b : Decimal) : Decidable (a ≤ b) :=
  inferInstanceAs (Decidable (a.coeff * tenPow b.scale ≤ b.coeff * tenPow a.scale))

instance (a b : Decimal) : Decidable (a < b) :=
  inferInstanceAs (Decidable (a.coeff * tenPow b.scale < b.coeff * tenPow a.scale))

/-- Equality of values: `1.0 == 1`. -/
instance : BEq Decimal := ⟨fun a b => a.coeff * tenPow b.scale == b.coeff * tenPow a.scale⟩

/-- The smaller one, and the left one of two equal ones. -/
instance : Min Decimal := ⟨fun a b => if a ≤ b then a else b⟩

/-- The larger one, and the left one of two equal ones. -/
instance : Max Decimal := ⟨fun a b => if b ≤ a then a else b⟩

def isZero (d : Decimal) : Bool := d.coeff == 0

def isNegative (d : Decimal) : Bool := decide (d.coeff < 0)

/-- Whether the number is written with a minus sign. -/
def hasMinus (d : Decimal) : Bool := d.isNegative || d.minusZero

theorem hasMinus_eq_false_iff {d : Decimal} :
    d.hasMinus = false ↔ 0 ≤ d.coeff ∧ d.minusZero = false := by
  rw [hasMinus, isNegative, Bool.or_eq_false_iff, decide_eq_false_iff_not, Int.not_lt]

/-- Whether the coefficient fits a word of 32 bits. -/
def isShort (d : Decimal) : Bool := decide (d.coeff.natAbs < 0x100000000)

/-! ## Rounding -/

/-- The quotient rounded to the nearest integer, a half to the even neighbour. -/
def roundDiv (n d : Nat) : Nat :=
  let q := n / d
  let r := n % d
  if 2 * r < d then q
  else if d < 2 * r then q + 1
  else if q % 2 = 0 then q else q + 1

/-- `num / den` with `places` places. -/
def roundAt? (num : Int) (den places : Nat) : Option Decimal :=
  ofParts? (num.sign * roundDiv (num.natAbs * tenPow places) den) places

/-- `num / den` with at most `places` places, and as many of them as the coefficient has room for. -/
def round? (num : Int) (den : Nat) : (places : Nat) → Option Decimal
  | 0 => roundAt? num den 0
  | k + 1 =>
    match roundAt? num den (k + 1) with
    | some d => some d
    | none => round? num den k

/-! ## Arithmetic -/

/-- The number with its sign turned, that of a zero too. -/
instance : Neg Decimal :=
  ⟨fun d =>
    { coeff := -d.coeff
      scale := d.scale
      minusZero := d.isZero && !d.minusZero
      coeff_lt := by simpa using d.coeff_lt
      scale_le := d.scale_le
      coeff_eq_zero := by simp +contextual [isZero] }⟩

/-- The zero that a product of two numbers other than zero is rounded to. It keeps its places and its
sign, except that a product of short numbers is never negative, and has no places if the factors have
more than 47 of them. -/
def tinyProduct (a b zero : Decimal) : Decimal :=
  if a.isShort && b.isShort then if 47 < a.scale + b.scale then 0 else zero
  else if a.isNegative != b.isNegative then -zero else zero

/-- The product. A product with zero is zero with no places. -/
def mul? (a b : Decimal) : Option Decimal :=
  if a.isZero || b.isZero then some 0
  else
    (round? (a.coeff * b.coeff) (tenPow (a.scale + b.scale)) (min (a.scale + b.scale) 28)).map
      fun product => if product.isZero then tinyProduct a b product else product

/-- The sum, at the larger of the two scales. Adding zero keeps the other summand as it is. -/
def add? (a b : Decimal) : Option Decimal :=
  if a.isZero then some b
  else if b.isZero then some a
  else
    let s := max a.scale b.scale
    round? (a.coeff * tenPow (s - a.scale) + b.coeff * tenPow (s - b.scale)) (tenPow s) s

/-! ## Integers -/

/-- The integral part, cut toward zero. -/
def truncate (d : Decimal) : Int := d.coeff.tdiv (tenPow d.scale)

def isIntegral (d : Decimal) : Bool := d.coeff.tmod (tenPow d.scale) == 0

/-- The integral part of a number without a minus sign, if it is below `bound`. A zero may have one,
and is then refused like the numbers below it. -/
def toNatBelow? (d : Decimal) (bound : Nat) : Option Nat :=
  let n := d.truncate
  if d.hasMinus = false ∧ n < bound then some n.toNat else none

end Decimal

end ContentStream
