/-!
# Bytes as text

Names and messages are text, read from bytes as UTF-8. Bytes that are no UTF-8 do not stop the
reading: each longest start of a sequence that cannot be completed becomes one replacement
character.
-/

namespace ContentStream.Utf8

/-- The character that stands for bytes that could not be read. -/
def replacement : Char := '\uFFFD'

def isContinuation (b : UInt8) : Bool := 0x80 ≤ b && b ≤ 0xBF

/-- How many bytes follow a leading byte, and the range in which the first of them lies. The ranges
leave out overlong forms, surrogates and what lies above the last character. -/
def following (b : UInt8) : Option (Nat × UInt8 × UInt8) :=
  if 0xC2 ≤ b && b ≤ 0xDF then some (1, 0x80, 0xBF)
  else if b == 0xE0 then some (2, 0xA0, 0xBF)
  else if b == 0xED then some (2, 0x80, 0x9F)
  else if 0xE1 ≤ b && b ≤ 0xEF then some (2, 0x80, 0xBF)
  else if b == 0xF0 then some (3, 0x90, 0xBF)
  else if b == 0xF4 then some (3, 0x80, 0x8F)
  else if 0xF1 ≤ b && b ≤ 0xF3 then some (3, 0x80, 0xBF)
  else none

/-- The bits that a continuation byte carries. -/
def payload (b : UInt8) : Nat := b.toNat % 64

/-- The character that a leading byte and its three, two or one continuation bytes spell. -/
def assemble (lead : UInt8) : List UInt8 → Char
  | [b] => Char.ofNat (lead.toNat % 32 * 64 + payload b)
  | [b, c] => Char.ofNat (lead.toNat % 16 * 4096 + payload b * 64 + payload c)
  | [b, c, d] =>
    Char.ofNat (lead.toNat % 8 * 262144 + payload b * 4096 + payload c * 64 + payload d)
  | _ => replacement

/-- The continuation bytes at the front of `rest`, up to `n` of them, the first within `lo` and
`hi`. -/
def continuations (n : Nat) (lo hi : UInt8) (rest : List UInt8) : List UInt8 :=
  match rest.take n with
  | [] => []
  | b :: bs => if lo ≤ b && b ≤ hi then b :: bs.takeWhile isContinuation else []

/-- The first character of a non-empty text and the number of bytes after the leading one that it
takes. -/
def first (lead : UInt8) (rest : List UInt8) : Char × Nat :=
  if lead < 0x80 then (Char.ofNat lead.toNat, 0)
  else
    match following lead with
    | none => (replacement, 0)
    | some (n, lo, hi) =>
      let tail := continuations n lo hi rest
      (if tail.length = n then assemble lead tail else replacement, tail.length)

/-- Reads the bytes after the first `skip` ones, which belong to a character already read. -/
def decodeAfter : (skip : Nat) → List UInt8 → List Char
  | _, [] => []
  | n + 1, _ :: rest => decodeAfter n rest
  | 0, lead :: rest =>
    let (c, n) := first lead rest
    c :: decodeAfter n rest

/-- The text that the bytes spell. -/
def decode (bytes : List UInt8) : String := String.ofList (decodeAfter 0 bytes)

/-- The bytes that spell a text. -/
def encode (text : String) : List UInt8 := text.toList.flatMap String.utf8EncodeChar

end ContentStream.Utf8
