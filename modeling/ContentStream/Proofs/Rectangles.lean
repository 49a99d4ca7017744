import Mathlib.Algebra.Order.Field.Basic
import Mathlib.Algebra.Order.Field.Rat
import Mathlib.Order.Bounds.Basic
import Mathlib.Order.Interval.Set.Basic
import ContentStream.Graphics.Path
import ContentStream.Proofs.DecimalOrder

/-!
# Rectangles as sets of points

A rectangle stands for a set of points of the plane, its `region`. Two operations on rectangles are
then operations on sets: `intersect?` is the intersection of two regions, and `none` exactly if it is
empty (`intersect?_cases`), and `bound?` is the smallest region around given points (`bound?_tight`).

Decimals that are written differently can be the same number. So the plane is that of the rational
numbers, and regions know nothing of scales: everything rests on `toRat_le_toRat`.
-/

namespace ContentStream

namespace Decimal

/-! ## The numbers behind the decimals -/

theorem toRat_eq_div (d : Decimal) : d.toRat = d.coeff / tenPow d.scale := by
  rw [toRat, Rat.mkRat_eq_div]

theorem toRat_le_toRat {a b : Decimal} : a.toRat ≤ b.toRat ↔ a ≤ b := by
  have ha : (0 : ℚ) < tenPow a.scale := Nat.cast_pos.2 (tenPow_pos _)
  have hb : (0 : ℚ) < tenPow b.scale := Nat.cast_pos.2 (tenPow_pos _)
  rw [toRat_eq_div, toRat_eq_div, div_le_div_iff₀ ha hb, le_iff]
  exact_mod_cast Iff.rfl

@[simp] theorem toRat_min (a b : Decimal) : (min a b).toRat = min a.toRat b.toRat := by
  show (if a ≤ b then a else b).toRat = _
  split
  · rename_i h
    exact (min_eq_left (toRat_le_toRat.2 h)).symm
  · rename_i h
    exact (min_eq_right (toRat_le_toRat.2 ((le_total a b).resolve_left h))).symm

@[simp] theorem toRat_max (a b : Decimal) : (max a b).toRat = max a.toRat b.toRat := by
  show (if b ≤ a then a else b).toRat = _
  split
  · rename_i h
    exact (max_eq_left (toRat_le_toRat.2 h)).symm
  · rename_i h
    exact (max_eq_right (toRat_le_toRat.2 ((le_total a b).resolve_right h))).symm

end Decimal

/-- The point of the rational plane with these coordinates. -/
def Point.value (p : Point) : ℚ × ℚ := (p.x.toRat, p.y.toRat)

namespace Rect

/-! ## Regions -/

def lower (r : Rect) : ℚ × ℚ := (r.x0.toRat, r.y0.toRat)

def upper (r : Rect) : ℚ × ℚ := (r.x1.toRat, r.y1.toRat)

def corners (r : Rect) : (ℚ × ℚ) × (ℚ × ℚ) := (r.lower, r.upper)

/-- The points of the closed rectangle. It has none if its corners are out of order. -/
def region (r : Rect) : Set (ℚ × ℚ) := Set.Icc r.lower r.upper

variable {r s t : Rect}

theorem region_nonempty : r.region.Nonempty ↔ r.lower ≤ r.upper := Set.nonempty_Icc

/-- A region that is not empty has one lower and one upper corner. -/
theorem corners_of_region (hne : r.region.Nonempty) (h : r.region = s.region) :
    r.corners = s.corners := by
  have hr : r.lower ≤ r.upper := region_nonempty.1 hne
  have hs : s.lower ≤ s.upper := region_nonempty.1 (h ▸ hne)
  obtain ⟨hlower, hupper⟩ := (Set.Icc_subset_Icc_iff hr).1 (le_of_eq h)
  obtain ⟨hlower', hupper'⟩ := (Set.Icc_subset_Icc_iff hs).1 (le_of_eq h.symm)
  exact Prod.ext (le_antisymm hlower' hlower) (le_antisymm hupper hupper')

/-! ## The common part -/

theorem intersect?_cases (r s : Rect) :
    (∃ t, r.intersect? s = some t ∧ t.lower ≤ t.upper ∧ t.region = r.region ∩ s.region) ∨
      r.intersect? s = none ∧ r.region ∩ s.region = ∅ := by
  have hmeet : r.region ∩ s.region = Set.Icc (r.lower ⊔ s.lower) (r.upper ⊓ s.upper) :=
    Set.Icc_inter_Icc
  have hlower : r.lower ⊔ s.lower = ((max r.x0 s.x0).toRat, (max r.y0 s.y0).toRat) := by
    simp [lower]
  have hupper : r.upper ⊓ s.upper = ((min r.x1 s.x1).toRat, (min r.y1 s.y1).toRat) := by
    simp [upper]
  rw [hmeet, hlower, hupper]
  unfold intersect?
  by_cases h : max r.x0 s.x0 ≤ min r.x1 s.x1 ∧ max r.y0 s.y0 ≤ min r.y1 s.y1
  · refine .inl ⟨_, if_pos h, ?_, rfl⟩
    exact ⟨Decimal.toRat_le_toRat.2 h.1, Decimal.toRat_le_toRat.2 h.2⟩
  · refine .inr ⟨if_neg h, Set.Icc_eq_empty fun hle => h ?_⟩
    exact ⟨Decimal.toRat_le_toRat.1 hle.1, Decimal.toRat_le_toRat.1 hle.2⟩

/-! ## The smallest rectangle around points -/

/-- `r` is the smallest rectangle that holds the points. -/
structure Tight (r : Rect) (points : List Point) : Prop where
  holds : ∀ p ∈ points, p.value ∈ r.region
  least : ∀ lower upper : ℚ × ℚ, (∀ p ∈ points, p.value ∈ Set.Icc lower upper) →
    r.region ⊆ Set.Icc lower upper

/-- The values of points. -/
def valuesOf (points : List Point) : Set (ℚ × ℚ) := {v | ∃ p ∈ points, p.value = v}

theorem valuesOf_cons (p : Point) (points : List Point) :
    valuesOf (p :: points) = insert p.value (valuesOf points) := by
  ext v
  simp [valuesOf, eq_comm]

theorem foldl_cover_corners (points : List Point) (values : Set (ℚ × ℚ)) {r : Rect}
    (hlower : IsGLB values r.lower) (hupper : IsLUB values r.upper) :
    IsGLB (values ∪ valuesOf points) (points.foldl cover r).lower ∧
      IsLUB (values ∪ valuesOf points) (points.foldl cover r).upper := by
  induction points generalizing r values with
  | nil => simpa [valuesOf] using ⟨hlower, hupper⟩
  | cons p points ih =>
    have hinsert : values ∪ valuesOf (p :: points) = insert p.value values ∪ valuesOf points := by
      rw [valuesOf_cons, Set.union_insert, Set.insert_union]
    rw [hinsert]
    have hmin : (r.cover p).lower = p.value ⊓ r.lower := by
      simp [lower, cover, Point.value, min_comm]
    have hmax : (r.cover p).upper = p.value ⊔ r.upper := by
      simp [upper, cover, Point.value, max_comm]
    exact ih _ (hmin ▸ hlower.insert p.value) (hmax ▸ hupper.insert p.value)

theorem bound?_eq_none {points : List Point} : bound? points = none ↔ points = [] := by
  cases points <;> simp [bound?]

theorem bound?_tight {points : List Point} (h : bound? points = some r) : r.Tight points := by
  cases points with
  | nil => cases h
  | cons p points =>
    cases h
    obtain ⟨hlower, hupper⟩ := foldl_cover_corners points {p.value} (r := ⟨p.x, p.y, p.x, p.y⟩)
      isGLB_singleton isLUB_singleton
    rw [← Set.insert_eq, ← valuesOf_cons] at hlower hupper
    refine ⟨fun q hq => ?_, fun low high hheld => ?_⟩
    · exact ⟨hlower.1 ⟨q, hq, rfl⟩, hupper.1 ⟨q, hq, rfl⟩⟩
    · refine Set.Icc_subset_Icc (hlower.2 ?_) (hupper.2 ?_)
      · rintro _ ⟨q, hq, rfl⟩
        exact (hheld q hq).1
      · rintro _ ⟨q, hq, rfl⟩
        exact (hheld q hq).2

theorem Tight.region_subset {points : List Point} (hr : r.Tight points) (hs : s.Tight points) :
    r.region ⊆ s.region :=
  hr.least s.lower s.upper hs.holds

/-- The smallest rectangle around a point is not empty. -/
theorem Tight.nonempty {points : List Point} (h : r.Tight points) (hne : points ≠ []) :
    r.region.Nonempty := by
  obtain ⟨p, points, rfl⟩ := List.exists_cons_of_ne_nil hne
  exact ⟨p.value, h.holds p List.mem_cons_self⟩

end Rect

end ContentStream
