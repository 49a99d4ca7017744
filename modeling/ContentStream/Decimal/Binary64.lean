import ContentStream.Decimal.Basic

/-!
# Decimals as binary numbers

Consumers that draw want binary floating point numbers. The conversion is lossy, and so is its own
arithmetic: the fraction is divided, added and rounded to the places of the decimal, so that `0.1`
becomes the double nearest to `0.1` and stays there.
-/

namespace ContentStream.Decimal

/-- The size of a number with a fraction as a double. -/
def fractionToFloat (coeff scale : Nat) : Float :=
  let power := Float.ofNat (tenPow scale)
  let whole := Float.ofNat (coeff / tenPow scale)
  let fraction := Float.ofNat (coeff % tenPow scale) / power
  if fraction == 0 then whole else ((whole + fraction) * power).round / power

/-- The double that stands for a decimal. -/
def toFloat (d : Decimal) : Float :=
  let size :=
    if d.scale = 0 then Float.ofNat d.coeff.natAbs else fractionToFloat d.coeff.natAbs d.scale
  if d.hasMinus then -size else size

/-! ## Digit by digit

A reader of numbers that gathers digits in a word of 64 bits, and scales the word at the end.
-/

/-- Gathers digits behind those of `word` until one finds no room, and counts those that are left. -/
def gather (word : Nat) : List Nat → Nat × Nat
  | [] => (word, 0)
  | digit :: rest =>
    if word * 10 + digit < wordBound then gather (word * 10 + digit) rest else (word, rest.length + 1)

/-- A word of 64 bits, scaled by a power of ten. -/
def scaleWord (word : Nat) (exponent : Int) : Float :=
  let power := Float.ofScientific 1 false exponent.natAbs
  if exponent < 0 then word.toUInt64.toFloat / power else word.toUInt64.toFloat * power

/-- The double that a reader of digits takes a number for. Digits of the whole part that find no room
count as zeros, and those of the fraction are left out. -/
def readFloat (whole fraction : List Nat) : Float :=
  let (word, zeros) := gather 0 whole
  let (word, left) := gather word fraction
  scaleWord word (zeros - (fraction.length - left : Nat))

end ContentStream.Decimal
