import ContentStream.Decimal.Quotient
import ContentStream.Proofs.ExactDecimals
import ContentStream.Proofs.NumberTokens
import ContentStream.Text.Markup
import Mathlib.Algebra.Order.Ring.Abs
import Mathlib.Tactic.Linarith

/-!
# Conventions for numbers and markup

How many digits a decimal has, when it is rounded, how it is written, and which characters of a text
are escaped in markup are conventions. Content streams take them over, and the modules on decimals and
on markup settle them to the last digit. What they come to is gathered here.

* `Decimal.Conventions`: numerals are read exactly or refused, and numbers are read back from what is
  written for them. The order is that of the values. A product, sum or quotient is the nearest number
  with the places that it has, and there is none only if the integral part is too long.
* `Markup.Conventions`: escaped text holds nothing that could end a tag or an attribute, text is escaped
  character by character, and what needs no escaping stays.

**Theorem (`Decimal.conventions`, `Markup.conventions`).** The definitions keep to the conventions.

All arithmetic rounds by `roundDiv`, so that the error is bounded there (`roundDiv_near`) and carried to
each operation.
-/

namespace ContentStream

namespace Decimal

variable {a b c d : Decimal}

/-! ## Rounding -/

/-- Rounding is off by half a unit at most. -/
theorem roundDiv_near (n : Nat) {den : Nat} (hden : 0 < den) :
    2 * n ≤ 2 * (roundDiv n den * den) + den ∧ 2 * (roundDiv n den * den) ≤ 2 * n + den := by
  have hsplit := Nat.div_add_mod n den
  have hrest := Nat.mod_lt n hden
  have hup : (n / den + 1) * den = den * (n / den) + den := by
    rw [Nat.add_mul, Nat.mul_comm, Nat.one_mul]
  have hdown : n / den * den = den * (n / den) := Nat.mul_comm _ _
  unfold roundDiv
  dsimp only
  split
  · rw [hdown]
    omega
  · split
    · rw [hup]
      omega
    · split
      · rw [hdown]
        omega
      · rw [hup]
        omega

/-- The same error among fractions. -/
theorem abs_div_sub_div_le {r n p den : Nat} (hp : 0 < p) (hden : 0 < den)
    (hlow : 2 * (n * p) ≤ 2 * (r * den) + den) (hhigh : 2 * (r * den) ≤ 2 * (n * p) + den) :
    |(r : ℚ) / p - n / den| ≤ 1 / (2 * p) := by
  have hp' : (0 : ℚ) < p := Nat.cast_pos.2 hp
  have hden' : (0 : ℚ) < den := Nat.cast_pos.2 hden
  have hlow' : 2 * ((n : ℚ) * p) ≤ 2 * (r * den) + den := by exact_mod_cast hlow
  have hhigh' : 2 * ((r : ℚ) * den) ≤ 2 * (n * p) + den := by exact_mod_cast hhigh
  rw [div_sub_div _ _ hp'.ne' hden'.ne', abs_div, abs_of_pos (mul_pos hp' hden'),
    div_le_div_iff₀ (mul_pos hp' hden') (mul_pos two_pos hp')]
  have habs : 2 * |(r : ℚ) * den - p * n| ≤ den := by
    have hmul : |2 * ((r : ℚ) * den - p * n)| ≤ den := abs_le.2 ⟨by linarith, by linarith⟩
    rwa [abs_mul, abs_two] at hmul
  calc |(r : ℚ) * den - p * n| * (2 * p) = 2 * |(r : ℚ) * den - p * n| * p := by ring
    _ ≤ den * p := mul_le_mul_of_nonneg_right habs hp'.le
    _ = 1 * (p * den) := by ring

/-- The number is as near to `x` as its places allow. -/
def Near (d : Decimal) (x : ℚ) : Prop := |d.toRat - x| ≤ 1 / (2 * tenPow d.scale)

theorem near_of_eq {x : ℚ} (h : d.toRat = x) : d.Near x := by
  rw [Near, h, sub_self, abs_zero]
  positivity

/-- With fewer places the same number is near enough as well. -/
theorem Near.coarser {x : ℚ} (h : d.Near x) (hvalue : c.toRat = d.toRat) (hscale : c.scale ≤ d.scale) :
    c.Near x := by
  have hpos : (0 : ℚ) < tenPow c.scale := Nat.cast_pos.2 (tenPow_pos _)
  have hle : (tenPow c.scale : ℚ) ≤ tenPow d.scale :=
    Nat.cast_le.2 (Nat.pow_le_pow_right (by decide) hscale)
  rw [Near, hvalue]
  refine h.trans (one_div_le_one_div_of_le (mul_pos two_pos hpos) ?_)
  exact mul_le_mul_of_nonneg_left hle two_pos.le

/-- The result is near to `x`, or there is none since the integral part of `x` is too long. -/
structure Rounds (result : Option Decimal) (x : ℚ) : Prop where
  near : ∀ d, result = some d → d.Near x
  none : result = none → (coeffBound : ℚ) ≤ |x| + 1 / 2

theorem rounds_of_eq {x : ℚ} (h : d.toRat = x) : Rounds (some d) x where
  near _ heq := Option.some.inj heq ▸ near_of_eq h
  none heq := by cases heq

/-- Values stay, with no more places than before. -/
def Coarsens (f : Decimal → Decimal) : Prop := ∀ d, (f d).toRat = d.toRat ∧ (f d).scale ≤ d.scale

theorem Coarsens.comp {f g : Decimal → Decimal} (hf : Coarsens f) (hg : Coarsens g) :
    Coarsens (f ∘ g) := fun d =>
  ⟨(hf (g d)).1.trans (hg d).1, Nat.le_trans (hf (g d)).2 (hg d).2⟩

theorem Rounds.map {result : Option Decimal} {x : ℚ} {f : Decimal → Decimal} (h : Rounds result x)
    (hf : Coarsens f) : Rounds (result.map f) x where
  near d heq := by
    obtain ⟨exact, hexact, rfl⟩ := Option.map_eq_some_iff.1 heq
    exact (h.near exact hexact).coarser (hf exact).1 (hf exact).2
  none heq := h.none (Option.map_eq_none_iff.1 heq)

theorem roundAt?_near {num : Int} {den places : Nat} (hden : 0 < den)
    (h : roundAt? num den places = some d) : d.Near (num / den) := by
  obtain ⟨hcoeff, hscale, -⟩ := ofParts?_eq_some.1 h
  obtain ⟨hlow, hhigh⟩ := roundDiv_near (num.natAbs * tenPow places) hden
  have hsize := abs_div_sub_div_le (tenPow_pos places) hden hlow hhigh
  have hsign : |(num.sign : ℚ)| ≤ 1 := by
    rcases Int.sign_trichotomy num with hs | hs | hs <;> simp [hs]
  have hnum : (num : ℚ) = num.sign * num.natAbs := by
    rw [← Int.cast_natCast, ← Int.cast_mul, Int.sign_mul_natAbs]
  rw [Near, toRat_eq_div, hcoeff, hscale, hnum]
  push_cast
  rw [mul_div_assoc, mul_div_assoc, ← mul_sub, abs_mul]
  exact (mul_le_of_le_one_left (abs_nonneg _) hsign).trans hsize

theorem roundAt?_zero_eq_none {num : Int} {den : Nat} (hden : 0 < den)
    (h : roundAt? num den 0 = none) : (coeffBound : ℚ) ≤ |(num : ℚ) / den| + 1 / 2 := by
  have hlarge : coeffBound ≤ roundDiv num.natAbs den := by
    by_contra hlt
    have hsize : (num.sign * (roundDiv num.natAbs den : Int)).natAbs ≤ roundDiv num.natAbs den := by
      rw [Int.natAbs_mul, Int.natAbs_natCast, Int.natAbs_sign]
      split <;> omega
    have hsome : roundAt? num den 0 ≠ none := by
      rw [roundAt?, ofParts?, tenPow, Nat.mul_one, dif_pos ⟨by omega, by omega⟩]
      exact Option.some_ne_none _
    exact hsome h
  have hnear := (roundDiv_near num.natAbs hden).2
  have hbound : 2 * (coeffBound * den) ≤ 2 * num.natAbs + den :=
    Nat.le_trans (Nat.mul_le_mul_left 2 (Nat.mul_le_mul_right den hlarge)) hnear
  have hden' : (0 : ℚ) < den := Nat.cast_pos.2 hden
  have hbound' : 2 * ((coeffBound : ℚ) * den) ≤ 2 * |(num : ℚ)| + den := by
    rw [← Int.cast_abs, ← Nat.cast_natAbs]
    exact_mod_cast hbound
  rw [abs_div, abs_of_pos hden', div_add_div _ _ hden'.ne' two_ne_zero,
    le_div_iff₀ (mul_pos hden' two_pos)]
  linarith

/-- **Rounding** takes as many places as fit. -/
theorem round?_rounds {num : Int} {den : Nat} (hden : 0 < den) (places : Nat) :
    Rounds (round? num den places) (num / den) := by
  induction places with
  | zero => exact ⟨fun d h => roundAt?_near hden h, roundAt?_zero_eq_none hden⟩
  | succ k ih =>
    unfold round?
    split
    · rename_i d hround
      refine ⟨fun e heq => ?_, fun heq => by cases heq⟩
      exact Option.some.inj heq ▸ roundAt?_near hden hround
    · exact ih

/-! ## Arithmetic -/

theorem tinyProduct_of_isZero (a b : Decimal) (h : d.isZero = true) :
    (tinyProduct a b d).toRat = d.toRat ∧ (tinyProduct a b d).scale ≤ d.scale := by
  have hneg : (-d).isZero = true := by
    have hcoeff : (-d).coeff = -d.coeff := rfl
    rw [isZero, hcoeff, coeff_of_isZero h]
    rfl
  unfold tinyProduct
  rw [toRat_of_isZero h]
  split
  · split
    · exact ⟨toRat_of_isZero rfl, Nat.zero_le _⟩
    · exact ⟨toRat_of_isZero h, Nat.le_refl _⟩
  · split
    · exact ⟨toRat_of_isZero hneg, Nat.le_refl _⟩
    · exact ⟨toRat_of_isZero h, Nat.le_refl _⟩

theorem mul?_rounds (a b : Decimal) : Rounds (a.mul? b) (a.toRat * b.toRat) := by
  unfold mul?
  split
  · rename_i hzero
    refine rounds_of_eq ?_
    rw [toRat_of_isZero (a := 0) rfl]
    rcases Bool.or_eq_true_iff.1 hzero with ha | hb
    · rw [toRat_of_isZero ha, zero_mul]
    · rw [toRat_of_isZero hb, mul_zero]
  · have hvalue : ((a.coeff * b.coeff : Int) : ℚ) / tenPow (a.scale + b.scale) =
        a.toRat * b.toRat := by
      rw [toRat_eq_div, toRat_eq_div, tenPow_add]
      push_cast
      rw [mul_div_mul_comm]
    refine (hvalue ▸ round?_rounds (tenPow_pos _) _ : Rounds _ _).map fun product => ?_
    split
    · rename_i hzero
      exact tinyProduct_of_isZero a b hzero
    · exact ⟨rfl, Nat.le_refl _⟩

theorem rescaled_div (c : Int) {k s : Nat} (h : k ≤ s) :
    (c * tenPow (s - k) : ℚ) / tenPow s = c / tenPow k := by
  have hsplit : tenPow s = tenPow k * tenPow (s - k) := by rw [← tenPow_add, Nat.add_sub_cancel' h]
  have hpos : (tenPow (s - k) : ℚ) ≠ 0 := Nat.cast_ne_zero.2 (tenPow_pos _).ne'
  rw [hsplit, Nat.cast_mul, mul_div_mul_right _ _ hpos]

theorem add?_rounds (a b : Decimal) : Rounds (a.add? b) (a.toRat + b.toRat) := by
  unfold add?
  split
  · rename_i ha
    exact rounds_of_eq (by rw [toRat_of_isZero ha, zero_add])
  · split
    · rename_i hb
      exact rounds_of_eq (by rw [toRat_of_isZero hb, add_zero])
    · have hvalue : ((a.coeff * tenPow (max a.scale b.scale - a.scale) +
          b.coeff * tenPow (max a.scale b.scale - b.scale) : Int) : ℚ) /
            tenPow (max a.scale b.scale) = a.toRat + b.toRat := by
        push_cast
        rw [add_div, rescaled_div _ (Nat.le_max_left _ _), rescaled_div _ (Nat.le_max_right _ _),
          ← toRat_eq_div, ← toRat_eq_div]
      exact hvalue ▸ round?_rounds (tenPow_pos _) _

theorem dropPlaces_coarsens (k : Nat) : Coarsens (dropPlaces k) := by
  intro d
  unfold dropPlaces
  split
  · rename_i h
    obtain ⟨hzeros, hk⟩ := h
    refine ⟨?_, Nat.sub_le _ _⟩
    have hdvd : (tenPow k : Int) ∣ d.coeff := Int.natCast_dvd.2 (Nat.dvd_of_mod_eq_zero hzeros)
    have hcoeff : (d.coeff : ℚ) = d.coeff.tdiv (tenPow k) * tenPow k := by
      exact_mod_cast (Int.tdiv_mul_cancel hdvd).symm
    have hscaled := rescaled_div (d.coeff.tdiv (tenPow k)) (Nat.sub_le d.scale k)
    rw [Nat.sub_sub_self hk, ← hcoeff] at hscaled
    rw [toRat_eq_div, toRat_eq_div]
    exact hscaled.symm
  · exact ⟨rfl, Nat.le_refl _⟩

theorem dropEight_coarsens : Coarsens dropEight := by
  intro d
  unfold dropEight
  split
  · exact dropPlaces_coarsens 8 d
  · exact ⟨rfl, Nat.le_refl _⟩

theorem trim_coarsens : Coarsens trim :=
  (dropPlaces_coarsens 1).comp <| (dropPlaces_coarsens 2).comp <| (dropPlaces_coarsens 4).comp <|
    dropEight_coarsens.comp <| dropEight_coarsens.comp dropEight_coarsens

theorem div?_rounds (a : Decimal) (hb : b.isZero = false) :
    Rounds (a.div? b) (a.toRat / b.toRat) := by
  have hcoeff : b.coeff ≠ 0 := by simpa [isZero] using hb
  have hden : 0 < b.coeff.natAbs * tenPow a.scale :=
    Nat.mul_pos (Int.natAbs_pos.2 hcoeff) (tenPow_pos _)
  unfold div?
  rw [hb, if_neg Bool.false_ne_true]
  split
  · rename_i ha
    exact rounds_of_eq (by rw [toRat_of_isZero (a := 0) rfl, toRat_of_isZero ha, zero_div])
  · have hvalue : ((a.coeff * b.coeff.sign * tenPow b.scale : Int) : ℚ) /
        (b.coeff.natAbs * tenPow a.scale : Nat) = a.toRat / b.toRat := by
      have hpos (k : Nat) : (tenPow k : ℚ) ≠ 0 := Nat.cast_ne_zero.2 (tenPow_pos k).ne'
      have hsign : (b.coeff.sign : ℚ) * b.coeff = b.coeff.natAbs := by
        rw [← Int.cast_natCast, ← Int.cast_mul, Int.sign_mul_self_eq_natAbs]
      have hsize : (b.coeff.natAbs : ℚ) ≠ 0 := Nat.cast_ne_zero.2 (Int.natAbs_ne_zero.2 hcoeff)
      rw [toRat_eq_div, toRat_eq_div, div_div_div_eq]
      push_cast
      rw [div_eq_div_iff (mul_ne_zero hsize (hpos _))
        (mul_ne_zero (hpos _) (Int.cast_ne_zero.2 hcoeff)), ← hsign]
      ring
    refine (hvalue ▸ round?_rounds hden _ : Rounds _ _).map fun quotient => ?_
    split
    · exact ⟨rfl, Nat.le_refl _⟩
    · exact trim_coarsens quotient

/-! ## The conventions -/

/-- Digits that stand on the two sides of the point of a numeral. -/
structure NumeralParts (whole fraction : List UInt8) : Prop where
  nonempty : whole ≠ []
  whole : ∀ b ∈ whole, isDigit b = true
  fraction : ∀ b ∈ fraction, isDigit b = true

/-- What is taken for granted of a way to read and write decimals, and to reckon with them. -/
structure Conventions (ofNumeral? : List UInt8 → Option Decimal) (render : Decimal → String)
    (mul? add? div? : Decimal → Decimal → Option Decimal) : Prop where
  reads : ∀ negative whole fraction, NumeralParts whole fraction → fraction.length ≤ 28 →
    wholeValue (whole ++ fraction) < coeffBound → ∃ d,
      ofNumeral? (numeral negative whole fraction) = some d ∧ d.toRat = denoted negative whole fraction
  refuses : ∀ negative whole fraction, NumeralParts whole fraction →
    coeffBound ≤ wholeValue whole → ofNumeral? (numeral negative whole fraction) = none
  writes : ∀ d, d.minusZero = false → ofNumeral? (Utf8.encode (render d)) = some d
  order : ∀ a b : Decimal, a ≤ b ↔ a.toRat ≤ b.toRat
  mul : ∀ a b, Rounds (mul? a b) (a.toRat * b.toRat)
  add : ∀ a b, Rounds (add? a b) (a.toRat + b.toRat)
  div : ∀ a b, b.isZero = false → Rounds (div? a b) (a.toRat / b.toRat)
  div_zero : ∀ a b, b.isZero = true → div? a b = none

/-- **Decimals** keep to the conventions. -/
theorem conventions : Conventions ofNumeral? render mul? add? div? where
  reads negative whole fraction h hplaces hfits := by
    have htext : NumberText negative whole fraction _ :=
      numberText_numeral h.nonempty h.whole h.fraction
    rw [htext.ofNumeral?_eq]
    exact ofDigits?_exact negative hplaces hfits
  refuses negative whole fraction h hlong := by
    have htext : NumberText negative whole fraction _ :=
      numberText_numeral h.nonempty h.whole h.fraction
    rw [htext.ofNumeral?_eq, ofDigits?_of_le negative hlong]
  writes d h := by
    have htext := numberText_render d
    rw [htext.ofNumeral?_eq, ← htext.read?_eq, read?_render h]
  order a b := toRat_le_toRat.symm
  mul := mul?_rounds
  add := add?_rounds
  div a _ hb := div?_rounds a hb
  div_zero a b hb := by rw [div?, if_pos hb]

end Decimal

/-! ## Markup -/

namespace Markup

/-- What is taken for granted of a way to escape text. -/
structure Conventions (escape : String → String) : Prop where
  inert : ∀ text, ∀ c ∈ (escape text).toList, c ≠ '<' ∧ c ≠ '>' ∧ c ≠ '"' ∧ c ≠ '\''
  append : ∀ text text', escape (text ++ text') = escape text ++ escape text'
  plain : ∀ text, (∀ c ∈ text.toList, c ≠ '&' ∧ c ≠ '<' ∧ c ≠ '>' ∧ c ≠ '"' ∧ c ≠ '\'') →
    escape text = text

theorem escapeChar_inert (c : Char) :
    ∀ c' ∈ (escapeChar c).toList, c' ≠ '<' ∧ c' ≠ '>' ∧ c' ≠ '"' ∧ c' ≠ '\'' := by
  unfold escapeChar
  split
  · simp
  · simp
  · simp
  · simp
  · simp
  · rename_i hlt hgt hquote hmark
    simpa using ⟨hlt, hgt, hquote, hmark⟩

theorem escapeChar_plain {c : Char}
    (h : c ≠ '&' ∧ c ≠ '<' ∧ c ≠ '>' ∧ c ≠ '"' ∧ c ≠ '\'') : escapeChar c = c.toString := by
  obtain ⟨hand, hlt, hgt, hquote, hmark⟩ := h
  unfold escapeChar
  split <;> first | rfl | contradiction

theorem toList_escape (text : String) :
    (escape text).toList = text.toList.flatMap fun c => (escapeChar c).toList := by
  rw [escape, String.toList_join, List.flatMap_map]

/-- **Markup** keeps to the conventions. -/
theorem conventions : Conventions escape where
  inert text c hc := by
    rw [toList_escape] at hc
    obtain ⟨source, -, hmem⟩ := List.mem_flatMap.1 hc
    exact escapeChar_inert source c hmem
  append text text' := by
    apply String.toList_inj.1
    simp only [toList_escape, String.toList_append, List.flatMap_append]
  plain text h := by
    have hchars : ∀ c ∈ text.toList, (escapeChar c).toList = [c] := by
      intro c hc
      rw [escapeChar_plain (h c hc)]
      simp
    apply String.toList_inj.1
    rw [toList_escape, List.flatMap_congr hchars, List.flatMap_singleton']

end Markup

end ContentStream
