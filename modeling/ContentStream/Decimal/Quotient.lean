import ContentStream.Decimal.Basic

/-!
# Quotients

The quotient of two decimals, exact if it has at most 28 places and rounded if it has more.

**The scale of a quotient.** A division that comes out at the places it starts with keeps them: `5.00`
divided by ten is `0.50`. Otherwise it goes on in steps of up to nine places, until it comes out or
there is no room for more. The zeros that the last step leaves at the end are taken away again, but
no more than seven of them as a rule: `250` divided by a hundred is `2.50`.
-/

namespace ContentStream.Decimal

/-- How many more places, nine at most, a quotient `q` with `scale` places has room for. -/
def room (q scale : Nat) : Nat :=
  ([9, 8, 7, 6, 5, 4, 3, 2, 1].find? fun k =>
    decide (scale + k ≤ 28) && decide (q * tenPow k < coeffBound)).getD 0

/-- The places at which the division of `num` by `den` stops that has come to `scale` places. There
are at most `steps` steps more. -/
def quotientPlaces (num den : Nat) : (steps scale : Nat) → Nat
  | 0, scale => scale
  | steps + 1, scale =>
    if num * tenPow scale % den = 0 then scale
    else
      match room (num * tenPow scale / den) scale with
      | 0 => scale
      | k => quotientPlaces num den steps (scale + k)

/-- Takes `k` zeros away from the end of the fraction, if it has as many. -/
def dropPlaces (k : Nat) (d : Decimal) : Decimal :=
  if d.coeff.natAbs % tenPow k = 0 ∧ k ≤ d.scale then
    { coeff := d.coeff.tdiv (tenPow k)
      scale := d.scale - k
      minusZero := d.minusZero
      coeff_lt := by
        rw [Int.natAbs_tdiv]
        exact Nat.lt_of_le_of_lt (Nat.div_le_self _ _) d.coeff_lt
      scale_le := Nat.le_trans (Nat.sub_le _ _) d.scale_le
      coeff_eq_zero := fun h => by simp [d.coeff_eq_zero h] }
  else d

/-- Takes eight zeros away from a coefficient whose last 32 bits are zeros too. -/
def dropEight (d : Decimal) : Decimal :=
  if d.coeff.natAbs % 0x100000000 = 0 then d.dropPlaces 8 else d

/-- Takes away the zeros that a division leaves at the end of the fraction: eight and eight, as long
as the last 32 bits are zeros, and then seven at most. -/
def trim (d : Decimal) : Decimal :=
  d.dropEight.dropEight.dropEight |>.dropPlaces 4 |>.dropPlaces 2 |>.dropPlaces 1

/-- The quotient. There is none for a zero divisor, and zero divided is zero with no places. -/
def div? (a b : Decimal) : Option Decimal :=
  if b.isZero then none
  else if a.isZero then some 0
  else
    let num := a.coeff * b.coeff.sign * tenPow b.scale
    let den := b.coeff.natAbs * tenPow a.scale
    let start := a.scale - b.scale
    (round? num den (quotientPlaces num.natAbs den 28 start)).map fun quotient =>
      if num.natAbs * tenPow start % den = 0 then quotient else quotient.trim

end ContentStream.Decimal
