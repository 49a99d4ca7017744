import ContentStream.Decimal.Basic

/-!
# Reading and writing decimals

A number is written with an optional sign, digits, and at most one point; the digits before or after
the point may be missing, but not both. Such a text is first rewritten as a numeral (`numeralOf?`),
which has digits before the point and no point without digits after it. Then the numeral is read
(`ofNumeral?`).

**Reading** a numeral takes as many places as fit. The first digit that does not fit decides the
rounding, a five or more going up, and the digits after it are ignored. Integral digits are never
dropped: a number whose integral part is too long is refused.

**Writing** keeps the scale (`render`), or drops the zeros at the end of the fraction first
(`normalize`).
-/

namespace ContentStream.Decimal

/-! ## Digits -/

def isDigit (b : UInt8) : Bool := 48 ≤ b && b ≤ 57

/-- The value of a digit byte. -/
def digitValue (b : UInt8) : Nat := b.toNat - 48

/-- The integer that a run of digits denotes, read after `start`. -/
def natOfDigits (start : Nat) (digits : List UInt8) : Nat :=
  digits.foldl (fun n b => 10 * n + digitValue b) start

/-! ## Numerals -/

/-- A numeral in its parts: a minus sign, digits, and digits behind a point. -/
def numeral (negative : Bool) (whole fraction : List UInt8) : List UInt8 :=
  (if negative then [45] else []) ++ (whole ++ if fraction.isEmpty then [] else 46 :: fraction)

/-- The sign in front of a number and what follows it. -/
def splitSign : List UInt8 → Bool × List UInt8
  | 43 :: rest => (false, rest)
  | 45 :: rest => (true, rest)
  | rest => (false, rest)

/-- The digits before the first point and those after it. -/
def splitPoint (text : List UInt8) : List UInt8 × List UInt8 :=
  (text.takeWhile (· != 46), (text.dropWhile (· != 46)).drop 1)

/-- One unit is added in the last place. A coefficient that grows out of its 96 bits gives up a
place, if it has one. -/
def roundUp? (coeff scale : Nat) : Option (Nat × Nat) :=
  if coeff + 1 < coeffBound then some (coeff + 1, scale)
  else
    match scale with
    | 0 => none
    | s + 1 => some ((coeff + 5) / 10, s)

/-- Reads the digits after the point behind the coefficient read so far. -/
def readFraction? (coeff scale : Nat) : List UInt8 → Option (Nat × Nat)
  | [] => some (coeff, scale)
  | b :: bs =>
    if scale < 28 ∧ 10 * coeff + digitValue b < coeffBound then
      readFraction? (10 * coeff + digitValue b) (scale + 1) bs
    else if 5 ≤ digitValue b then roundUp? coeff scale
    else some (coeff, scale)

/-- An unsigned number, given as the digits before and after its point. -/
def ofDigits? (negative : Bool) (whole fraction : List UInt8) : Option Decimal :=
  let n := natOfDigits 0 whole
  if n < coeffBound then
    match readFraction? n 0 fraction with
    | some (coeff, scale) => ofParts? (if negative then -coeff else coeff) scale
    | none => none
  else none

/-- Reads a numeral. -/
def ofNumeral? (text : List UInt8) : Option Decimal :=
  let (negative, unsigned) := splitSign text
  let (whole, fraction) := splitPoint unsigned
  ofDigits? negative whole fraction

/-! ## Number texts -/

/-- The digits before the point, a zero if there are none. -/
def filled (whole : List UInt8) : List UInt8 := if whole.isEmpty then [48] else whole

/-- The numeral for a text that is written like a number. -/
def numeralOf? (text : List UInt8) : Option (List UInt8) :=
  let (negative, unsigned) := splitSign text
  let (whole, fraction) := splitPoint unsigned
  if (whole.isEmpty && fraction.isEmpty) || !whole.all isDigit || !fraction.all isDigit then none
  else some (numeral negative (filled whole) fraction)

/-- Reads a whole run of bytes as one number. -/
def read? (text : List UInt8) : Option Decimal := (numeralOf? text).bind ofNumeral?

/-! ## Writing -/

/-- The digits of `n`, with zeros in front up to `width`. -/
def padDigits (width n : Nat) : String :=
  let digits := (Nat.toDigits 10 n)
  String.ofList (List.replicate (width - digits.length) '0' ++ digits)

/-- The number with all the places of its scale. -/
def render (d : Decimal) : String :=
  let n := d.coeff.natAbs
  let sign := if d.hasMinus then "-" else ""
  let whole := padDigits 1 (n / tenPow d.scale)
  if d.scale = 0 then sign ++ whole
  else sign ++ whole ++ "." ++ padDigits d.scale (n % tenPow d.scale)

/-- The coefficient and scale left when zeros at the end of the fraction are dropped. -/
def dropZeros (coeff : Int) : Nat → Int × Nat
  | 0 => (coeff, 0)
  | s + 1 => if coeff % 10 = 0 then dropZeros (coeff / 10) s else (coeff, s + 1)

theorem dropZeros_le (coeff : Int) (scale : Nat) :
    (dropZeros coeff scale).1.natAbs ≤ coeff.natAbs ∧ (dropZeros coeff scale).2 ≤ scale := by
  induction scale generalizing coeff with
  | zero => exact ⟨Nat.le_refl _, Nat.le_refl _⟩
  | succ s ih =>
    unfold dropZeros
    split
    · have := ih (coeff / 10)
      omega
    · exact ⟨Nat.le_refl _, Nat.le_refl _⟩

/-- The same number with the fewest places, and a zero without a sign. -/
def normalize (d : Decimal) : Decimal :=
  { coeff := (dropZeros d.coeff d.scale).1
    scale := (dropZeros d.coeff d.scale).2
    coeff_lt := Nat.lt_of_le_of_lt (dropZeros_le _ _).1 d.coeff_lt
    scale_le := Nat.le_trans (dropZeros_le _ _).2 d.scale_le }

end ContentStream.Decimal
