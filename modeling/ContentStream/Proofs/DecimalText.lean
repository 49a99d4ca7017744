import ContentStream.Content.Token
import ContentStream.Decimal.Text
import ContentStream.Proofs.Utf8Text

/-!
# Numerals are read back

**Theorem (`read?_render`).** A decimal that is no zero with a minus sign is read back from its
numeral, with its scale. `normalize` gives such a decimal of the same value (`normalize_beq`), so
every number that is written is read back as an equal one.

`NumberText` says how a number may be written. Each such text is rewritten as a numeral
(`NumberText.numeralOf?_eq`) and read by its parts, a sign and the digits on the two sides of the point
(`NumberText.read?_eq`). A numeral is one of them.

The digits of a numeral are a list of characters, and what they denote is `Nat.ofDigitChars`
(`natOfDigits_map`). The numeral splits into `n / 10 ^ scale` and `n % 10 ^ scale`, and reading puts
the two together again without dropping a digit (`readFraction?_eq_some`).
-/

namespace ContentStream.Decimal

/-! ## Digits -/

/-- The byte of a character of ASCII. -/
def byteOf (c : Char) : UInt8 := UInt8.ofNat c.toNat

theorem toNat_of_isDigit {c : Char} (h : c.isDigit = true) : 48 ≤ c.toNat ∧ c.toNat ≤ 57 := by
  simpa [Char.isDigit, UInt32.le_iff_toNat_le] using h

theorem byteOf_isDigit {c : Char} (h : c.isDigit = true) :
    isDigit (byteOf c) = true ∧ digitValue (byteOf c) = c.toNat - 48 := by
  obtain ⟨hlo, hhi⟩ := toNat_of_isDigit h
  have hnat : (byteOf c).toNat = c.toNat := by
    rw [byteOf, UInt8.toNat_ofNat', Nat.mod_eq_of_lt (by omega)]
  constructor
  · rw [isDigit, Bool.and_eq_true, decide_eq_true_iff, decide_eq_true_iff, UInt8.le_iff_toNat_le,
      UInt8.le_iff_toNat_le, hnat]
    exact ⟨hlo, hhi⟩
  · rw [digitValue, hnat]

theorem encode_digits {digits : List Char} (h : ∀ c ∈ digits, c.isDigit = true) :
    Utf8.encode (String.ofList digits) = digits.map byteOf := by
  rw [Utf8.encode, String.toList_ofList]
  induction digits with
  | nil => rfl
  | cons c digits ih =>
    obtain ⟨hc, hdigits⟩ := List.forall_mem_cons.1 h
    have hascii : c.toNat < 128 := by
      have := toNat_of_isDigit hc
      omega
    rw [List.flatMap_cons, Utf8.encodeChar_ascii hascii, ih hdigits]
    rfl

theorem natOfDigits_map {digits : List Char} (h : ∀ c ∈ digits, c.isDigit = true) (start : Nat) :
    natOfDigits start (digits.map byteOf) = Nat.ofDigitChars 10 digits start := by
  induction digits generalizing start with
  | nil => rfl
  | cons c digits ih =>
    obtain ⟨hc, hdigits⟩ := List.forall_mem_cons.1 h
    rw [Nat.ofDigitChars_cons, ← ih hdigits, List.map_cons, natOfDigits, List.foldl_cons,
      (byteOf_isDigit hc).2]
    rfl

theorem le_natOfDigits (start : Nat) (digits : List UInt8) : start ≤ natOfDigits start digits := by
  induction digits generalizing start with
  | nil => exact Nat.le_refl _
  | cons b digits ih =>
    have hstep : start ≤ 10 * start + digitValue b := by omega
    exact Nat.le_trans hstep (ih _)

/-! ## Padded digits -/

/-- The characters of `padDigits`. -/
def padded (width n : Nat) : List Char :=
  List.replicate (width - (Nat.toDigits 10 n).length) '0' ++ Nat.toDigits 10 n

theorem padded_isDigit {width n : Nat} : ∀ c ∈ padded width n, c.isDigit = true := by
  intro c hc
  rcases List.mem_append.1 hc with hc | hc
  · rw [List.eq_of_mem_replicate hc]
    rfl
  · exact Nat.isDigit_of_mem_toDigits (by decide) (by decide) hc

theorem encode_padDigits (width n : Nat) :
    Utf8.encode (padDigits width n) = (padded width n).map byteOf :=
  encode_digits padded_isDigit

theorem padded_ne_nil (width n : Nat) : padded width n ≠ [] := by
  simp [padded, Nat.toDigits_ne_nil]

/-- A number below `10 ^ width` takes `width` digits. -/
theorem padded_length {width n : Nat} (hwidth : 0 < width) (hn : n < tenPow width) :
    (padded width n).length = width := by
  have hle := (Nat.length_toDigits_le_iff (by decide) hwidth).2 hn
  rw [padded, List.length_append, List.length_replicate, Nat.sub_add_cancel hle]

theorem ofDigitChars_padded (width n start : Nat) :
    Nat.ofDigitChars 10 (padded width n) start = tenPow (padded width n).length * start + n := by
  rw [Nat.ofDigitChars_eq_ofDigitChars_zero, padded, Nat.ofDigitChars_append,
    Nat.ofDigitChars_replicate_zero, Nat.mul_zero, Nat.ofDigitChars_ten_toDigits]
  rfl

/-! ## Reading a numeral -/

/-- Digits that fit are all taken. -/
theorem readFraction?_eq_some {coeff scale : Nat} {digits : List UInt8}
    (hscale : scale + digits.length ≤ 28) (hcoeff : natOfDigits coeff digits < coeffBound) :
    readFraction? coeff scale digits = some (natOfDigits coeff digits, scale + digits.length) := by
  induction digits generalizing coeff scale with
  | nil => rfl
  | cons b digits ih =>
    rw [List.length_cons] at hscale ⊢
    have hnext : natOfDigits (10 * coeff + digitValue b) digits < coeffBound := hcoeff
    have hfits : 10 * coeff + digitValue b < coeffBound :=
      Nat.lt_of_le_of_lt (le_natOfDigits _ digits) hnext
    rw [readFraction?, if_pos ⟨by omega, hfits⟩, ih (by omega) hnext, Nat.add_right_comm,
      Nat.add_assoc]
    rfl

theorem splitPoint_digits {whole : List UInt8} (h : ∀ b ∈ whole, isDigit b = true) :
    splitPoint whole = (whole, []) := by
  have hpoint : ∀ b ∈ whole, (b != 46) = true := by
    intro b hb
    have := h b hb
    grind [isDigit]
  rw [splitPoint, List.takeWhile_eq_self_iff.2 hpoint, List.dropWhile_eq_nil_iff.2 hpoint]
  rfl

theorem splitPoint_point {whole : List UInt8} (h : ∀ b ∈ whole, isDigit b = true)
    (fraction : List UInt8) : splitPoint (whole ++ 46 :: fraction) = (whole, fraction) := by
  have hwhole := splitPoint_digits h
  rw [splitPoint, Prod.mk.injEq] at hwhole ⊢
  rw [List.takeWhile_append, List.dropWhile_append]
  simp_all

/-- A sign that may be left out. -/
inductive SignText : (negative : Bool) → List UInt8 → Prop where
  | absent : SignText false []
  | plus : SignText false [43]
  | minus : SignText true [45]

/-- How a number is written: a sign, digits, and a point that may be left out. The digits before or
after a point may be missing, but not both. -/
inductive NumberText : (negative : Bool) → (whole fraction : List UInt8) → List UInt8 → Prop where
  | integer {negative : Bool} {sign whole : List UInt8} : SignText negative sign →
    (∀ b ∈ whole, isDigit b = true) → whole ≠ [] → NumberText negative whole [] (sign ++ whole)
  | pointed {negative : Bool} {sign whole fraction : List UInt8} : SignText negative sign →
    (∀ b ∈ whole, isDigit b = true) → (∀ b ∈ fraction, isDigit b = true) →
    whole ≠ [] ∨ fraction ≠ [] →
    NumberText negative whole fraction (sign ++ (whole ++ 46 :: fraction))

theorem SignText.splitSign {negative : Bool} {sign rest : List UInt8} (h : SignText negative sign)
    (hrest : ∀ b ∈ rest.head?, b ≠ 43 ∧ b ≠ 45) :
    splitSign (sign ++ rest) = (negative, rest) := by
  cases h with
  | absent =>
    rw [List.nil_append]
    unfold Decimal.splitSign
    split
    · exact absurd rfl (hrest 43 rfl).1
    · exact absurd rfl (hrest 45 rfl).2
    · rfl
  | plus => rfl
  | minus => rfl

theorem isDigit_ne_sign {b : UInt8} (h : isDigit b = true) : b ≠ 43 ∧ b ≠ 45 := by
  constructor <;> rintro rfl <;> cases h

/-- A written number is split into its parts. -/
theorem NumberText.split {negative : Bool} {whole fraction text : List UInt8}
    (h : NumberText negative whole fraction text) :
    ∃ unsigned, splitSign text = (negative, unsigned) ∧
      splitPoint unsigned = (whole, fraction) := by
  cases h with
  | integer hsign hwhole hne =>
    have hhead : ∀ b ∈ whole.head?, b ≠ 43 ∧ b ≠ 45 := fun b hb =>
      isDigit_ne_sign (hwhole b (List.mem_of_mem_head? hb))
    exact ⟨_, hsign.splitSign hhead, splitPoint_digits hwhole⟩
  | pointed hsign hwhole hfraction hne =>
    have hhead : ∀ b ∈ (whole ++ 46 :: fraction).head?, b ≠ 43 ∧ b ≠ 45 := by
      intro b hb
      cases whole with
      | nil =>
        cases hb
        decide
      | cons c whole =>
        cases hb
        exact isDigit_ne_sign (hwhole _ List.mem_cons_self)
    exact ⟨_, hsign.splitSign hhead, splitPoint_point hwhole fraction⟩

theorem NumberText.digits {negative : Bool} {whole fraction text : List UInt8}
    (h : NumberText negative whole fraction text) :
    (∀ b ∈ whole, isDigit b = true) ∧ (∀ b ∈ fraction, isDigit b = true) ∧
      (whole ≠ [] ∨ fraction ≠ []) := by
  cases h with
  | integer hsign hwhole hne => exact ⟨hwhole, by simp, .inl hne⟩
  | pointed hsign hwhole hfraction hne => exact ⟨hwhole, hfraction, hne⟩

theorem NumberText.ofNumeral?_eq {negative : Bool} {whole fraction text : List UInt8}
    (h : NumberText negative whole fraction text) :
    ofNumeral? text = ofDigits? negative whole fraction := by
  obtain ⟨unsigned, hsign, hpoint⟩ := h.split
  simp only [ofNumeral?, hsign, hpoint]

theorem NumberText.numeralOf?_eq {negative : Bool} {whole fraction text : List UInt8}
    (h : NumberText negative whole fraction text) :
    numeralOf? text = some (numeral negative (filled whole) fraction) := by
  obtain ⟨unsigned, hsign, hpoint⟩ := h.split
  obtain ⟨hwhole, hfraction, hne⟩ := h.digits
  have hdigits : ((whole.isEmpty && fraction.isEmpty) || !whole.all isDigit ||
      !fraction.all isDigit) = false := by
    rw [List.all_eq_true.2 hwhole, List.all_eq_true.2 hfraction]
    rcases hne with hne | hne <;> simp [hne]
  simp only [numeralOf?, hsign, hpoint, hdigits]
  rfl

theorem numberText_numeral {negative : Bool} {whole fraction : List UInt8} (hne : whole ≠ [])
    (hwhole : ∀ b ∈ whole, isDigit b = true) (hfraction : ∀ b ∈ fraction, isDigit b = true) :
    NumberText negative whole fraction (numeral negative whole fraction) := by
  have hsign : SignText negative (if negative then [45] else []) := by
    cases negative with
    | false => exact .absent
    | true => exact .minus
  cases fraction with
  | nil => simpa [numeral] using NumberText.integer hsign hwhole hne
  | cons b fraction => exact .pointed hsign hwhole hfraction (.inl hne)

/-- A zero in front of the point changes nothing. -/
theorem ofDigits?_filled (negative : Bool) (whole fraction : List UInt8) :
    ofDigits? negative (filled whole) fraction = ofDigits? negative whole fraction := by
  cases whole with
  | nil => rfl
  | cons b whole => rfl

/-- **Written numbers** are read by their parts. -/
theorem NumberText.read?_eq {negative : Bool} {whole fraction text : List UInt8}
    (h : NumberText negative whole fraction text) :
    read? text = ofDigits? negative whole fraction := by
  obtain ⟨hwhole, hfraction, -⟩ := h.digits
  have hfilled : filled whole ≠ [] ∧ ∀ b ∈ filled whole, isDigit b = true := by
    cases whole with
    | nil => exact ⟨List.cons_ne_nil _ _, by simp [filled, isDigit]⟩
    | cons b whole => exact ⟨List.cons_ne_nil _ _, hwhole⟩
  have hnumeral : NumberText negative (filled whole) fraction _ :=
    numberText_numeral hfilled.1 hfilled.2 hfraction
  calc read? text
      = ofNumeral? (numeral negative (filled whole) fraction) := by
        rw [read?, h.numeralOf?_eq, Option.bind_some]
    _ = ofDigits? negative (filled whole) fraction := hnumeral.ofNumeral?_eq
    _ = ofDigits? negative whole fraction := ofDigits?_filled negative whole fraction

/-- The digits in front of the point. -/
def wholeDigits (d : Decimal) : List UInt8 :=
  (padded 1 (d.coeff.natAbs / tenPow d.scale)).map byteOf

/-- The digits behind the point. -/
def fractionDigits (d : Decimal) : List UInt8 :=
  if d.scale = 0 then [] else (padded d.scale (d.coeff.natAbs % tenPow d.scale)).map byteOf

theorem encode_render (d : Decimal) :
    Utf8.encode d.render = numeral d.hasMinus d.wholeDigits d.fractionDigits := by
  have hsign : Utf8.encode (if d.hasMinus = true then "-" else "") =
      if d.hasMinus = true then [45] else [] := by
    split <;> rfl
  have hpoint : Utf8.encode "." = [46] := rfl
  unfold render numeral wholeDigits fractionDigits
  dsimp only
  split
  · simp [hsign, encode_padDigits]
  · simp [hsign, hpoint, encode_padDigits, padded_ne_nil]

theorem byteOf_padded_isDigit (width n : Nat) :
    ∀ b ∈ (padded width n).map byteOf, isDigit b = true := by
  intro b hb
  obtain ⟨c, hc, rfl⟩ := List.mem_map.1 hb
  exact (byteOf_isDigit (padded_isDigit c hc)).1

theorem wholeDigits_ne_nil (d : Decimal) : d.wholeDigits ≠ [] := by
  rw [wholeDigits, Ne, List.map_eq_nil_iff]
  exact padded_ne_nil _ _

theorem fractionDigits_isDigit (d : Decimal) : ∀ b ∈ d.fractionDigits, isDigit b = true := by
  unfold fractionDigits
  split
  · simp
  · exact byteOf_padded_isDigit _ _

theorem fractionDigits_length (d : Decimal) : d.fractionDigits.length = d.scale := by
  unfold fractionDigits
  split
  · rename_i h
    rw [h]
    rfl
  · rename_i h
    have hpos : 0 < tenPow d.scale := Nat.pow_pos (by decide)
    rw [List.length_map]
    exact padded_length (Nat.pos_of_ne_zero h) (Nat.mod_lt _ hpos)

theorem natOfDigits_wholeDigits (d : Decimal) :
    natOfDigits 0 d.wholeDigits = d.coeff.natAbs / tenPow d.scale := by
  rw [wholeDigits, natOfDigits_map padded_isDigit, ofDigitChars_padded, Nat.mul_zero, Nat.zero_add]

/-- The two parts of a numeral together are the coefficient. -/
theorem natOfDigits_fractionDigits (d : Decimal) :
    natOfDigits (d.coeff.natAbs / tenPow d.scale) d.fractionDigits = d.coeff.natAbs := by
  have hlength := fractionDigits_length d
  unfold fractionDigits at *
  split
  · rename_i h
    rw [h]
    exact Nat.div_one _
  · rename_i h
    rw [if_neg h, List.length_map] at hlength
    rw [natOfDigits_map padded_isDigit, ofDigitChars_padded, hlength]
    exact Nat.div_add_mod _ _

theorem numberText_render (d : Decimal) :
    NumberText d.hasMinus d.wholeDigits d.fractionDigits (Utf8.encode d.render) := by
  rw [encode_render]
  exact numberText_numeral (wholeDigits_ne_nil d) (byteOf_padded_isDigit _ _)
    (fractionDigits_isDigit d)

/-- **Numerals.** A decimal is read back from the numeral that is written for it. -/
theorem read?_render {d : Decimal} (h : d.minusZero = false) :
    read? (Utf8.encode d.render) = some d := by
  have hwhole : d.coeff.natAbs / tenPow d.scale < coeffBound :=
    Nat.lt_of_le_of_lt (Nat.div_le_self _ _) d.coeff_lt
  have hscale : 0 + d.fractionDigits.length ≤ 28 := by
    rw [Nat.zero_add, fractionDigits_length]
    exact d.scale_le
  have hcoeff : natOfDigits (d.coeff.natAbs / tenPow d.scale) d.fractionDigits < coeffBound := by
    rw [natOfDigits_fractionDigits]
    exact d.coeff_lt
  rw [(numberText_render d).read?_eq, ofDigits?]
  simp only [natOfDigits_wholeDigits, if_pos hwhole, readFraction?_eq_some hscale hcoeff]
  rw [natOfDigits_fractionDigits, fractionDigits_length, ofParts?_eq_some]
  refine ⟨?_, (Nat.zero_add _).symm, h⟩
  simp only [hasMinus, isNegative, h, Bool.or_false, decide_eq_true_eq]
  split <;> omega

/-! ## The bytes of a numeral -/

theorem isRegular_of_isDigit : ∀ b, isDigit b = true → Byte.isRegular b = true :=
  Utf8.forall_byte (by decide +kernel)

theorem encode_render_isRegular (d : Decimal) :
    ∀ b ∈ Utf8.encode d.render, Byte.isRegular b = true := by
  intro b hb
  rw [encode_render, numeral, List.mem_append, List.mem_append] at hb
  rcases hb with hsign | hwhole | hpoint
  · split at hsign
    · rw [List.mem_singleton.1 hsign]
      rfl
    · cases hsign
  · exact isRegular_of_isDigit b (byteOf_padded_isDigit _ _ b hwhole)
  · split at hpoint
    · cases hpoint
    · rcases List.mem_cons.1 hpoint with rfl | hfraction
      · rfl
      · exact isRegular_of_isDigit b (fractionDigits_isDigit d b hfraction)

theorem encode_render_startsNumber (d : Decimal) :
    ∃ b rest, Utf8.encode d.render = b :: rest ∧ Token.startsNumber b = true := by
  rw [encode_render, numeral]
  obtain ⟨b, rest, hwhole⟩ := List.exists_cons_of_ne_nil (wholeDigits_ne_nil d)
  have hb : isDigit b = true := byteOf_padded_isDigit _ _ b (hwhole ▸ List.mem_cons_self)
  split
  · exact ⟨45, _, rfl, rfl⟩
  · refine ⟨b, _, by rw [hwhole]; rfl, ?_⟩
    rw [Token.startsNumber, hb, Bool.or_true]

/-! ## Fewest places -/

theorem dropZeros_value (coeff : Int) (scale : Nat) :
    (dropZeros coeff scale).1 * tenPow scale = coeff * tenPow (dropZeros coeff scale).2 := by
  induction scale generalizing coeff with
  | zero => rfl
  | succ s ih =>
    rw [dropZeros]
    split
    · rename_i h
      have hten : ((tenPow (s + 1) : Nat) : Int) = tenPow s * 10 := by
        simp [tenPow, Nat.pow_succ]
      calc (dropZeros (coeff / 10) s).1 * tenPow (s + 1)
          = (dropZeros (coeff / 10) s).1 * tenPow s * 10 := by rw [hten, Int.mul_assoc]
        _ = coeff / 10 * 10 * tenPow (dropZeros (coeff / 10) s).2 := by
          rw [ih, Int.mul_right_comm]
        _ = coeff * tenPow (dropZeros (coeff / 10) s).2 := by
          rw [Int.ediv_mul_cancel (Int.dvd_of_emod_eq_zero h)]
    · rfl

/-- Dropping zeros does not change the value. -/
theorem normalize_beq (d : Decimal) : (d.normalize == d) = true :=
  decide_eq_true (dropZeros_value d.coeff d.scale)

end ContentStream.Decimal
