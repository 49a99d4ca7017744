import ContentStream.Proofs.Rectangles

/-!
# Exact computations

Sums and products of decimals are rounded where they have too many digits. This file says which of
them are not.

* Nothing is lost with zero and one: `mul?_of_isZero`, `add?_of_isZero`, `mul?_one`.
* Decimals without places are computed as integers, or not at all: `mul?_whole`, `add?_whole`.

A result is exact if it stands for the sum or the product of the numbers (`MulExact`, `AddExact`). The
places that it is written with do not matter.
-/

namespace ContentStream.Decimal

variable {a b d : Decimal}

/-! ## Zero and one -/

theorem coeff_of_isZero (h : a.isZero = true) : a.coeff = 0 := by
  simpa [isZero] using h

theorem mul?_of_isZero (ha : a.isZero = true) (b : Decimal) : a.mul? b = some 0 := by
  simp [mul?, ha]

theorem add?_of_isZero (ha : a.isZero = true) (b : Decimal) : a.add? b = some b := by
  simp [add?, ha]

theorem tinyProduct_comm (a b zero : Decimal) : tinyProduct a b zero = tinyProduct b a zero := by
  unfold tinyProduct
  rw [Bool.and_comm, Nat.add_comm, bne_comm]

theorem mul?_comm (a b : Decimal) : a.mul? b = b.mul? a := by
  unfold mul?
  rw [Bool.or_comm, Int.mul_comm, Nat.add_comm a.scale b.scale]
  simp only [tinyProduct_comm a b]

theorem mul?_zero (a : Decimal) : a.mul? 0 = some 0 :=
  (mul?_comm a 0).trans (mul?_of_isZero rfl a)

theorem roundDiv_mul_self (n : Nat) {k : Nat} (hk : 0 < k) : roundDiv (n * k) k = n := by
  simp [roundDiv, Nat.mul_div_cancel n hk, hk]

theorem roundAt?_tenPow (c : Int) (s : Nat) : roundAt? c (tenPow s) s = ofParts? c s := by
  rw [roundAt?, roundDiv_mul_self _ (tenPow_pos s), Int.sign_mul_natAbs]

/-- A number that fits is not rounded. -/
theorem round?_tenPow {c : Int} {s : Nat} (h : ofParts? c s = some d) :
    round? c (tenPow s) s = some d := by
  cases s with
  | zero => exact (roundAt?_tenPow c 0).trans h
  | succ s => rw [round?, roundAt?_tenPow, h]

/-- The number as a product with one leaves it: a zero has no places any more. -/
def plain (a : Decimal) : Decimal := if a.isZero then 0 else a

theorem mul?_one (a : Decimal) : a.mul? 1 = some a.plain := by
  have hone : (1 : Decimal).isZero = false := rfl
  unfold mul? plain
  by_cases ha : a.isZero = true
  · simp [ha]
  · have hparts : ofParts? (a.coeff * (1 : Decimal).coeff) (a.scale + (1 : Decimal).scale) = some a := by
      refine ofParts?_eq_some.2 ⟨(Int.mul_one _).symm, rfl, ?_⟩
      exact Bool.eq_false_iff.2 fun hminus => ha (by simp [isZero, a.coeff_eq_zero hminus])
    have hplaces : min (a.scale + (1 : Decimal).scale) 28 = a.scale + (1 : Decimal).scale :=
      Nat.min_eq_left a.scale_le
    rw [hplaces, round?_tenPow hparts]
    simp [ha, hone]

theorem plain_add?_zero (a : Decimal) : a.plain.add? 0 = some a.plain := by
  have hzero : (0 : Decimal).isZero = true := rfl
  unfold add? plain
  by_cases ha : a.isZero = true
  · simp [ha, hzero]
  · simp [ha, hzero]

/-! ## Exactness -/

/-- The product, if there is one, is not rounded. -/
def MulExact (a b : Decimal) : Prop := ∀ c, a.mul? b = some c → c.toRat = a.toRat * b.toRat

/-- The sum, if there is one, is not rounded. -/
def AddExact (a b : Decimal) : Prop := ∀ c, a.add? b = some c → c.toRat = a.toRat + b.toRat

theorem toRat_of_isZero (h : a.isZero = true) : a.toRat = 0 := by
  rw [toRat_eq_div, coeff_of_isZero h, Int.cast_zero, zero_div]

theorem toRat_plain (a : Decimal) : a.plain.toRat = a.toRat := by
  unfold plain
  split
  · rename_i h
    exact (toRat_of_isZero rfl).trans (toRat_of_isZero h).symm
  · rfl

/-! ## Decimals without places -/

/-- Whether the number is written without places. -/
def Whole (d : Decimal) : Prop := d.scale = 0

theorem whole_zero : (0 : Decimal).Whole := rfl

theorem Whole.toRat (h : d.Whole) : d.toRat = d.coeff := by
  rw [toRat_eq_div, h]
  simp [tenPow]

theorem coeff_zero : (0 : Decimal).coeff = 0 := rfl

theorem mul?_whole (ha : a.Whole) (hb : b.Whole) (h : a.mul? b = some d) :
    d.Whole ∧ d.coeff = a.coeff * b.coeff := by
  unfold mul? at h
  split at h
  · rename_i hzero
    cases h
    rcases Bool.or_eq_true_iff.1 hzero with hzero | hzero
    · exact ⟨rfl, by rw [coeff_of_isZero hzero, Int.zero_mul, coeff_zero]⟩
    · exact ⟨rfl, by rw [coeff_of_isZero hzero, Int.mul_zero, coeff_zero]⟩
  · rename_i hzero
    rw [ha, hb] at h
    obtain ⟨product, hround, rfl⟩ := Option.map_eq_some_iff.1 h
    obtain ⟨hcoeff, hscale, -⟩ := ofParts?_eq_some.1 ((roundAt?_tenPow _ 0).symm.trans hround)
    -- The factors are not zero, and so neither is the product.
    have hnonzero : ¬ product.isZero = true := by
      simpa [isZero, hcoeff] using hzero
    rw [if_neg hnonzero]
    exact ⟨hscale, hcoeff⟩

theorem add?_whole (ha : a.Whole) (hb : b.Whole) (h : a.add? b = some d) :
    d.Whole ∧ d.coeff = a.coeff + b.coeff := by
  unfold add? at h
  split at h
  · rename_i hzero
    cases h
    exact ⟨hb, by rw [coeff_of_isZero hzero, Int.zero_add]⟩
  · split at h
    · rename_i hzero
      cases h
      exact ⟨ha, by rw [coeff_of_isZero hzero, Int.add_zero]⟩
    · simp only [show a.scale = 0 from ha, show b.scale = 0 from hb] at h
      obtain ⟨hcoeff, hscale, -⟩ := ofParts?_eq_some.1 ((roundAt?_tenPow _ 0).symm.trans h)
      exact ⟨hscale, by simpa [tenPow] using hcoeff⟩

theorem Whole.mulExact (ha : a.Whole) (hb : b.Whole) : a.MulExact b := by
  intro c h
  obtain ⟨hc, hcoeff⟩ := mul?_whole ha hb h
  rw [hc.toRat, ha.toRat, hb.toRat, hcoeff, Int.cast_mul]

theorem Whole.addExact (ha : a.Whole) (hb : b.Whole) : a.AddExact b := by
  intro c h
  obtain ⟨hc, hcoeff⟩ := add?_whole ha hb h
  rw [hc.toRat, ha.toRat, hb.toRat, hcoeff, Int.cast_add]

end ContentStream.Decimal
