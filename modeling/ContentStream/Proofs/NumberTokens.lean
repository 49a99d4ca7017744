import Mathlib.Algebra.Order.Field.Basic
import Mathlib.Algebra.Order.Field.Rat
import Mathlib.Tactic.FieldSimp
import Mathlib.Tactic.NormNum
import Mathlib.Tactic.Ring
import ContentStream.Proofs.DecimalText
import ContentStream.Proofs.Rectangles
import ContentStream.Proofs.TokenPlaces

/-!
# Number tokens

A run that starts with a sign, a point or a digit is meant as a number. `NumberText` says which runs
are written like one, and `denoted` which rational number each of them denotes: the digits count by
their places, to the left and to the right of the point.

**Theorem (`tokenAt_number`).** A run that is not written like a number is a malformed token, and so
is a number whose integral part has more than 96 bits. A number whose digits, read as one integer,
have at most 96 bits and of which at most 28 stand behind the point is read exactly.

Reading goes through the digits from the left, so the proof compares the integer read so far with
the places of the digits that are still to come (`natOfDigits_eq`).
-/

namespace ContentStream

namespace Decimal

/-! ## What digits denote -/

/-- The integer that digits denote. -/
def wholeValue : List UInt8 → Nat
  | [] => 0
  | b :: rest => digitValue b * tenPow rest.length + wholeValue rest

/-- What digits behind a point denote. -/
def fractionValue : List UInt8 → ℚ
  | [] => 0
  | b :: rest => (digitValue b + fractionValue rest) / 10

/-- The number that is written with these digits before and after its point. -/
def denoted (negative : Bool) (whole fraction : List UInt8) : ℚ :=
  if negative then -(wholeValue whole + fractionValue fraction)
  else wholeValue whole + fractionValue fraction

theorem natOfDigits_eq (start : Nat) (digits : List UInt8) :
    natOfDigits start digits = start * tenPow digits.length + wholeValue digits := by
  induction digits generalizing start with
  | nil => simp [natOfDigits, wholeValue, tenPow]
  | cons b rest ih =>
    have hstep : natOfDigits start (b :: rest) = natOfDigits (10 * start + digitValue b) rest := rfl
    rw [hstep, ih, wholeValue, List.length_cons, tenPow_succ]
    ring

theorem natOfDigits_zero (digits : List UInt8) : natOfDigits 0 digits = wholeValue digits := by
  simp [natOfDigits_eq]

theorem wholeValue_append (whole fraction : List UInt8) :
    wholeValue (whole ++ fraction) =
      wholeValue whole * tenPow fraction.length + wholeValue fraction := by
  induction whole with
  | nil => simp [wholeValue]
  | cons b rest ih =>
    rw [List.cons_append, wholeValue, wholeValue, ih, List.length_append, tenPow_add]
    ring

theorem fractionValue_eq (fraction : List UInt8) :
    fractionValue fraction = wholeValue fraction / tenPow fraction.length := by
  induction fraction with
  | nil => simp [fractionValue, wholeValue]
  | cons b rest ih =>
    have hpos : (tenPow rest.length : ℚ) ≠ 0 := Nat.cast_ne_zero.2 (tenPow_pos _).ne'
    rw [fractionValue, wholeValue, ih, List.length_cons, tenPow_succ]
    push_cast
    field_simp

/-- Both parts are read as one integer, and divided by the places behind the point. -/
theorem denoted_eq (negative : Bool) (whole fraction : List UInt8) :
    denoted negative whole fraction =
      ((if negative then -(wholeValue (whole ++ fraction) : Int)
        else wholeValue (whole ++ fraction) : Int) : ℚ) / tenPow fraction.length := by
  have hpos : (tenPow fraction.length : ℚ) ≠ 0 := Nat.cast_ne_zero.2 (tenPow_pos _).ne'
  have hsum : (wholeValue whole : ℚ) + fractionValue fraction =
      wholeValue (whole ++ fraction) / tenPow fraction.length := by
    rw [fractionValue_eq, wholeValue_append]
    push_cast
    field_simp
  unfold denoted
  cases negative with
  | false => simp [hsum]
  | true => simp [hsum, neg_div]

/-! ## Reading -/

/-- **Exact numbers.** Digits that fit are all taken. -/
theorem ofDigits?_exact (negative : Bool) {whole fraction : List UInt8}
    (hplaces : fraction.length ≤ 28) (hfits : wholeValue (whole ++ fraction) < coeffBound) :
    ∃ d, ofDigits? negative whole fraction = some d ∧
      d.toRat = denoted negative whole fraction := by
  have hall : natOfDigits (wholeValue whole) fraction = wholeValue (whole ++ fraction) := by
    rw [natOfDigits_eq, wholeValue_append]
  have hle : wholeValue whole ≤ wholeValue (whole ++ fraction) := hall ▸ le_natOfDigits _ _
  have hread : readFraction? (wholeValue whole) 0 fraction =
      some (wholeValue (whole ++ fraction), fraction.length) := by
    rw [readFraction?_eq_some (by omega) (by rwa [hall]), hall, Nat.zero_add]
  have hcoeff : (if negative then -(wholeValue (whole ++ fraction) : Int)
      else wholeValue (whole ++ fraction)).natAbs < coeffBound := by
    cases negative <;> simpa using hfits
  refine ⟨⟨_, fraction.length, false, hcoeff, hplaces, by simp⟩, ?_, ?_⟩
  · simp only [ofDigits?, natOfDigits_zero, if_pos (Nat.lt_of_le_of_lt hle hfits), hread]
    exact dif_pos ⟨hcoeff, hplaces⟩
  · rw [toRat_eq_div, denoted_eq]

/-- An integral part of more than 96 bits is refused. -/
theorem ofDigits?_of_le (negative : Bool) {whole : List UInt8} (h : coeffBound ≤ wholeValue whole)
    (fraction : List UInt8) : ofDigits? negative whole fraction = none := by
  simp [ofDigits?, natOfDigits_zero, Nat.not_lt.2 h]

theorem splitSign_eq (text : List UInt8) :
    ∃ sign, SignText (splitSign text).1 sign ∧ text = sign ++ (splitSign text).2 := by
  unfold splitSign
  split
  · exact ⟨[43], .plus, rfl⟩
  · exact ⟨[45], .minus, rfl⟩
  · exact ⟨[], .absent, rfl⟩

theorem splitPoint_eq (text : List UInt8) :
    splitPoint text = (text, []) ∨ text = (splitPoint text).1 ++ 46 :: (splitPoint text).2 := by
  have hparts := List.takeWhile_append_dropWhile (p := (· != 46)) (l := text)
  have hstop := List.head?_dropWhile_not (· != 46) text
  cases hdrop : text.dropWhile (· != 46) with
  | nil =>
    rw [hdrop, List.append_nil] at hparts
    exact .inl (by rw [splitPoint, hparts, hdrop]; rfl)
  | cons b fraction =>
    have hb : b = 46 := by simpa [hdrop] using hstop
    subst hb
    rw [hdrop] at hparts
    exact .inr (by rw [splitPoint, hdrop]; exact hparts.symm)

/-- Only what is written like a number is read as one. -/
theorem numberText_of_read? {text : List UInt8} {d : Decimal} (h : read? text = some d) :
    ∃ negative whole fraction, NumberText negative whole fraction text := by
  obtain ⟨sign, hsign, htext⟩ := splitSign_eq text
  obtain ⟨numeral, hnumeral, -⟩ := Option.bind_eq_some_iff.1 h
  simp only [numeralOf?] at hnumeral
  split at hnumeral
  · cases hnumeral
  · rename_i hdigits
    simp only [Bool.or_eq_true, Bool.not_eq_true', not_or, Bool.not_eq_false,
      Bool.and_eq_true, List.isEmpty_iff, List.all_eq_true] at hdigits
    obtain ⟨⟨hne, hwhole⟩, hfraction⟩ := hdigits
    rw [htext]
    rcases splitPoint_eq (splitSign text).2 with hpoint | hpoint
    · rw [hpoint] at hne hwhole
      exact ⟨_, _, _, .integer hsign hwhole fun hnil => hne ⟨hnil, rfl⟩⟩
    · rw [hpoint]
      exact ⟨_, _, _, .pointed hsign hwhole hfraction (not_and_or.1 hne)⟩

end Decimal

/-! ## Tokens -/

namespace Token

theorem ofNumber_of_none {run : List UInt8} (h : Decimal.read? run = none) :
    ofNumber run = .error (.malformed (.number (Utf8.decode run))) := by
  simp [ofNumber, h]

theorem ofNumber_of_some {run : List UInt8} {d : Decimal} (h : Decimal.read? run = some d) :
    ofNumber run = .ok (.number d) := by
  simp [ofNumber, h]

theorem startsNumber_regular : ∀ b, startsNumber b = true →
    Byte.isRegular b = true ∧ Byte.isBlank b = false ∧ b ≠ 37 :=
  Utf8.forall_byte (by decide +kernel)

end Token

namespace Content

/-- A run that starts like a number is taken as a whole. -/
theorem tokenAt_run {run after : List UInt8} (s : Surroundings)
    (hrun : ∀ b ∈ run, Byte.isRegular b = true)
    (hstart : run.head?.any Token.startsNumber = true) (hends : Byte.EndsRun after) :
    TokenAt (s.segments (run ++ after)) s.start (Token.ofNumber run) (s.start + run.length) := by
  cases run with
  | nil => cases hstart
  | cons b rest =>
    have hb : Token.startsNumber b = true := hstart
    obtain ⟨hregular, hblank, hcomment⟩ := Token.startsNumber_regular b hb
    refine tokenAt_of_read (s.drop_start _) hblank hcomment ?_ (by simp)
    rw [SegmentCursor.read_regular hregular, if_pos hb, s.run (by simp) hrun hends]
    rfl

/-- **Numbers** are read exactly or refused. Refused is what is not written like a number, and a
number whose integral part has more than 96 bits. -/
theorem tokenAt_number (run after : List UInt8) (s : Surroundings)
    (hrun : ∀ b ∈ run, Byte.isRegular b = true)
    (hstart : run.head?.any Token.startsNumber = true) (hends : Byte.EndsRun after) :
    ((∀ negative whole fraction, ¬ Decimal.NumberText negative whole fraction run) ∨
        (∃ negative whole fraction, Decimal.NumberText negative whole fraction run ∧
          coeffBound ≤ Decimal.wholeValue whole) →
      TokenAt (s.segments (run ++ after)) s.start
        (.error (.malformed (.number (Utf8.decode run)))) (s.start + run.length)) ∧
    ∀ negative whole fraction, Decimal.NumberText negative whole fraction run →
      fraction.length ≤ 28 → Decimal.wholeValue (whole ++ fraction) < coeffBound →
      ∃ d : Decimal, d.toRat = Decimal.denoted negative whole fraction ∧
        TokenAt (s.segments (run ++ after)) s.start (.ok (.number d)) (s.start + run.length) := by
  have htoken := tokenAt_run s hrun hstart hends
  constructor
  · intro hrefused
    have hnone : Decimal.read? run = none := by
      rcases hrefused with hform | ⟨negative, whole, fraction, htext, hlong⟩
      · by_contra hsome
        obtain ⟨d, hd⟩ := Option.ne_none_iff_exists'.1 hsome
        obtain ⟨negative, whole, fraction, htext⟩ := Decimal.numberText_of_read? hd
        exact hform _ _ _ htext
      · rw [htext.read?_eq, Decimal.ofDigits?_of_le negative hlong]
    rwa [Token.ofNumber_of_none hnone] at htoken
  · intro negative whole fraction htext hplaces hfits
    obtain ⟨d, hread, hvalue⟩ := Decimal.ofDigits?_exact negative hplaces hfits
    rw [Token.ofNumber_of_some (htext.read?_eq.trans hread)] at htoken
    exact ⟨d, hvalue, htoken⟩

/-- The digits of the first integer of 97 bits. -/
def firstTooLong : List UInt8 := Utf8.encode "79228162514264337593543950336"

/-- `-.50` at the end of its segment, with a digit in the next, and the first integer that is
refused. -/
theorem tokenAt_number_limits :
    (∃ d : Decimal, d.toRat = -1 / 2 ∧ TokenAt [[45, 46, 53, 48], [49]] 0 (.ok (.number d)) 4) ∧
      TokenAt [firstTooLong ++ [93]] 0
        (.error (.malformed (.number (Utf8.decode firstTooLong)))) 29 := by
  constructor
  · have htext : Decimal.NumberText true [] [53, 48] [45, 46, 53, 48] :=
      .pointed .minus (by simp) (by simp [Decimal.isDigit]) (.inr (by simp))
    obtain ⟨d, hvalue, htoken⟩ := (tokenAt_number [45, 46, 53, 48] [] ⟨[], [], [[49]]⟩
      (List.all_eq_true.1 rfl) rfl (by decide)).2 _ _ _ htext (by simp) (by decide)
    have hfive : Decimal.digitValue 53 = 5 := rfl
    have hzero : Decimal.digitValue 48 = 0 := rfl
    refine ⟨d, hvalue.trans ?_, htoken⟩
    norm_num [Decimal.denoted, Decimal.wholeValue, Decimal.fractionValue, hfive, hzero]
  · have htext : Decimal.NumberText false firstTooLong [] firstTooLong :=
      .integer .absent (List.all_eq_true.1 rfl) (by decide)
    exact (tokenAt_number firstTooLong [93] ⟨[], [], []⟩ (List.all_eq_true.1 rfl) rfl
      (by decide)).1 (.inr ⟨_, _, _, htext, by decide +kernel⟩)

end Content

end ContentStream
