import ContentStream.Text.Utf8

/-!
# Text in 16-bit units

Unicode maps of fonts give text as UTF-16, the high byte of each unit first. A byte left over at the
end is dropped, and a surrogate without its partner becomes a replacement character.
-/

namespace ContentStream.Utf16

/-- The 16-bit units, high byte first. -/
def units : List UInt8 → List Nat
  | hi :: lo :: rest => (hi.toNat * 256 + lo.toNat) :: units rest
  | _ => []

def isHigh (u : Nat) : Bool := 0xD800 ≤ u && u < 0xDC00

def isLow (u : Nat) : Bool := 0xDC00 ≤ u && u < 0xE000

/-- The character of a single unit. -/
def single (u : Nat) : Char := if isHigh u || isLow u then Utf8.replacement else Char.ofNat u

def decodeUnits : List Nat → List Char
  | [] => []
  | [u] => [single u]
  | u :: v :: rest =>
    if isHigh u && isLow v then
      Char.ofNat (0x10000 + (u - 0xD800) * 0x400 + (v - 0xDC00)) :: decodeUnits rest
    else single u :: decodeUnits (v :: rest)

/-- The text that the bytes spell. -/
def decode (bytes : List UInt8) : String := String.ofList (decodeUnits (units bytes))

end ContentStream.Utf16
