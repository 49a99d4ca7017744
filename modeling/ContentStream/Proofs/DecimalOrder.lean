import ContentStream.Decimal.Basic

/-!
# The order of decimals

Decimals are compared by the numbers they stand for, whatever their scales. The order is total and
transitive, and two decimals can be below each other without being the same: `1.0` and `1`.
-/

namespace ContentStream

theorem tenPow_pos (n : Nat) : 0 < tenPow n := Nat.pow_pos (by decide)

theorem tenPow_succ (n : Nat) : tenPow (n + 1) = tenPow n * 10 := rfl

theorem tenPow_add (m n : Nat) : tenPow (m + n) = tenPow m * tenPow n := Nat.pow_add 10 m n

namespace Decimal

variable {a b c : Decimal}

theorem le_iff : a ≤ b ↔ a.coeff * tenPow b.scale ≤ b.coeff * tenPow a.scale := Iff.rfl

theorem le_refl (a : Decimal) : a ≤ a := Int.le_refl _

theorem le_total (a b : Decimal) : a ≤ b ∨ b ≤ a := Int.le_total _ _

theorem le_trans (hab : a ≤ b) (hbc : b ≤ c) : a ≤ c := by
  rw [le_iff] at hab hbc ⊢
  -- Both products are compared over the scale of `b` too, which can then be cancelled.
  refine Int.le_of_mul_le_mul_right ?_ (Int.natCast_pos.2 (tenPow_pos b.scale))
  calc a.coeff * tenPow c.scale * tenPow b.scale
      = a.coeff * tenPow b.scale * tenPow c.scale := Int.mul_right_comm _ _ _
    _ ≤ b.coeff * tenPow a.scale * tenPow c.scale :=
        Int.mul_le_mul_of_nonneg_right hab (Int.natCast_nonneg _)
    _ = b.coeff * tenPow c.scale * tenPow a.scale := Int.mul_right_comm _ _ _
    _ ≤ c.coeff * tenPow b.scale * tenPow a.scale :=
        Int.mul_le_mul_of_nonneg_right hbc (Int.natCast_nonneg _)
    _ = c.coeff * tenPow a.scale * tenPow b.scale := Int.mul_right_comm _ _ _

theorem le_max_left (a b : Decimal) : a ≤ max a b := by
  show a ≤ if b ≤ a then a else b
  split
  · exact le_refl a
  · rename_i h
    exact (le_total a b).resolve_right h

theorem min_le_left (a b : Decimal) : min a b ≤ a := by
  show (if a ≤ b then a else b) ≤ a
  split
  · exact le_refl a
  · rename_i h
    exact (le_total a b).resolve_left h

end Decimal

end ContentStream
