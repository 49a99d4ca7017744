import ContentStream.Decimal.Binary64
import ContentStream.Decimal.Shortest
import ContentStream.Decimal.Text

/-!
# JSON text

JSON without blanks, put together from texts that are JSON themselves.
-/

namespace ContentStream.JsonText

def hexDigit (n : Nat) : Char := (Nat.toDigits 16 n).headD '0'

/-- A character of a string. Only quotes, backslashes and control characters are escaped. -/
def escapeChar (c : Char) : String :=
  match c with
  | '"' => "\\\""
  | '\\' => "\\\\"
  | '\n' => "\\n"
  | '\r' => "\\r"
  | '\t' => "\\t"
  | c =>
    if c.toNat = 8 then "\\b"
    else if c.toNat = 12 then "\\f"
    else if c.toNat < 32 then
      "\\u00" ++ String.ofList [hexDigit (c.toNat / 16), hexDigit (c.toNat % 16)]
    else c.toString

def string (text : String) : String := "\"" ++ String.join (text.toList.map escapeChar) ++ "\""

def null : String := "null"

def bool (b : Bool) : String := if b then "true" else "false"

def nat (n : Nat) : String := toString n

def array (items : List String) : String := "[" ++ ",".intercalate items ++ "]"

def object (members : List (String × String)) : String :=
  "\x7b" ++ ",".intercalate (members.map fun m => string m.1 ++ ":" ++ m.2) ++ "\x7d"

def optional {α : Type} (text : α → String) : Option α → String
  | some a => text a
  | none => null

/-! ## Numbers

Floating point numbers are written with the fewest digits that read back. Numbers from `1e-5` up to
`1e16` have a point and a digit on each side of it at least; others have an exponent.
-/

def zeros (n : Nat) : String := String.ofList (List.replicate n '0')

/-- Digits with a point behind the first `n` of them, filled up with zeros. -/
def plain (digits : String) (n : Int) : String :=
  if n ≤ 0 then "0." ++ zeros (-n).toNat ++ digits
  else if digits.length ≤ n.toNat then digits ++ zeros (n.toNat - digits.length) ++ ".0"
  else
    let (whole, fraction) := digits.toList.splitAt n.toNat
    String.ofList whole ++ "." ++ String.ofList fraction

/-- Digits with a point behind the first one, and the exponent of ten that belongs to it. -/
def scientific (digits : String) (exponent : Int) : String :=
  let fraction := String.ofList (digits.toList.drop 1)
  let point := if fraction.isEmpty then "" else "."
  String.ofList (digits.toList.take 1) ++ point ++ fraction ++
    (if exponent < 0 then "e-" else "e+") ++ toString exponent.natAbs

/-- A positive number in its shortest digits. -/
def shortest (d : ShortDecimal) : String :=
  let digits := toString d.coeff
  let exponent := d.exponent + digits.length - 1
  if -5 ≤ exponent ∧ exponent ≤ 15 then plain digits (exponent + 1) else scientific digits exponent

/-- A finite floating point number. -/
def float (f : Float) : String :=
  let sign := if 2 * f.toBits.toNat < wordBound then "" else "-"
  let size := BinaryNumber.ofBits f.toBits
  if size.mantissa = 0 then sign ++ "0.0"
  else sign ++ shortest (ShortDecimal.trim 20 size.shortest)

/-- A decimal. It stays an integer if it has no places and fits a word of 64 bits, with or without a
sign; all others become floating point numbers, and so does a zero with a minus sign. -/
def decimal (d : Decimal) : String :=
  if d.scale = 0 ∧ -wordBound ≤ 2 * d.coeff ∧ d.coeff < wordBound ∧ !d.minusZero then toString d.coeff
  else
    let digits := (toString d.coeff.natAbs).toList.map fun c => c.toNat - '0'.toNat
    let padded := List.replicate (d.scale + 1 - digits.length) 0 ++ digits
    let (whole, fraction) := padded.splitAt (padded.length - d.scale)
    let size := Decimal.readFloat whole fraction
    float (if d.hasMinus then -size else size)

end ContentStream.JsonText
