import ContentStream.Decimal.Basic

/-!
# Shortest decimals

The fewest digits that still tell a double from its neighbours. All decimals between the midpoints to
the neighbours are read back as the same double; the shortest of them are those on the coarsest
decimal grid that meets this interval, and of those the nearest to the double is taken.
-/

namespace ContentStream

/-- A positive number `mantissa * 2 ^ exponent`. `tight` says that the neighbour below is only half
as far as the one above. -/
structure BinaryNumber where
  mantissa : Nat
  exponent : Int
  tight : Bool

/-- A number `coeff * 10 ^ exponent`. -/
structure ShortDecimal where
  coeff : Nat
  exponent : Int

namespace BinaryNumber

/-- The leading bit of a mantissa, which a double does not store. -/
def hiddenBit : Nat := 0x10000000000000

/-- The size of a double from its bits. -/
def ofBits (bits : UInt64) : BinaryNumber :=
  let fraction := bits.toNat % hiddenBit
  let biased := bits.toNat / hiddenBit % 2048
  if biased = 0 then ⟨fraction, -1074, false⟩
  else ⟨hiddenBit + fraction, (biased : Int) - 1075, fraction = 0 && 1 < biased⟩

/-- Where a number lies on a decimal grid: the value, the ends of the interval that is read back as
it, and a step of the grid, all in the same unit. -/
structure Placement where
  value : Nat
  low : Nat
  high : Nat
  step : Nat
  /-- Whether the ends belong to the interval. -/
  closed : Bool

/-- The place on the grid of multiples of `10 ^ k`. The unit is a quarter of the mantissa's, as fine
as the powers of two and ten need. -/
def place (b : BinaryNumber) (k : Int) : Placement :=
  let binary := b.exponent - 2
  let unit := Nat.pow 2 binary.toNat * tenPow (-k).toNat
  { value := 4 * b.mantissa * unit
    low := (4 * b.mantissa - if b.tight then 1 else 2) * unit
    high := (4 * b.mantissa + 2) * unit
    step := Nat.pow 2 (-binary).toNat * tenPow k.toNat
    closed := b.mantissa % 2 = 0 }

namespace Placement

/-- Whether the interval holds a multiple of the step. -/
def holds (p : Placement) (c : Nat) : Bool :=
  if p.closed then p.low ≤ c * p.step && c * p.step ≤ p.high
  else p.low < c * p.step && c * p.step < p.high

/-- The multiple of the step in the interval that is nearest to the value, of two the even one. -/
def nearest? (p : Placement) : Option Nat :=
  let below := p.value / p.step
  let above := below + 1
  match 0 < below && p.holds below, p.holds above with
  | true, true =>
    let rest := 2 * (p.value % p.step)
    if rest < p.step || rest = p.step && below % 2 = 0 then some below else some above
  | true, false => some below
  | false, true => some above
  | false, false => none

end Placement

/-- Searches grids from a coarse one to finer ones. -/
def searchGrids (b : BinaryNumber) : (grids : Nat) → (k : Int) → ShortDecimal
  | 0, k => ⟨(b.place k).value / (b.place k).step, k⟩
  | n + 1, k =>
    match (b.place k).nearest? with
    | some c => ⟨c, k⟩
    | none => searchGrids b n (k - 1)

/-- A grid that is too coarse for the number, though not by much. -/
def coarseGrid (b : BinaryNumber) : Int :=
  ((b.mantissa.log2 : Int) + 1 + b.exponent) * 30103 / 100000 + 1

/-- The shortest decimal. Seventeen digits always suffice. -/
def shortest (b : BinaryNumber) : ShortDecimal := searchGrids b 20 b.coarseGrid

end BinaryNumber

/-- Drops zeros at the end of a number of at most `fuel` digits. -/
def ShortDecimal.trim : (fuel : Nat) → ShortDecimal → ShortDecimal
  | 0, d => d
  | n + 1, d => if d.coeff ≠ 0 ∧ d.coeff % 10 = 0 then trim n ⟨d.coeff / 10, d.exponent + 1⟩ else d

end ContentStream
