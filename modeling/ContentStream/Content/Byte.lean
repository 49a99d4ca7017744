/-!
# Classes of bytes

Content is made of blanks, delimiters and regular bytes. Runs of regular bytes make names, numbers
and operators; everything else ends such a run.
-/

namespace ContentStream.Byte

/-- Space, tab, carriage return, line feed, null and form feed. -/
def isBlank (b : UInt8) : Bool :=
  b == 32 || b == 9 || b == 13 || b == 10 || b == 0 || b == 12

/-- The brackets, the solidus of a name and the percent sign of a comment. -/
def isDelimiter (b : UInt8) : Bool :=
  b == 40 || b == 41 || b == 60 || b == 62 || b == 91 || b == 93 || b == 123 || b == 125 ||
    b == 47 || b == 37

def isRegular (b : UInt8) : Bool := !isBlank b && !isDelimiter b

def isNewline (b : UInt8) : Bool := b == 10 || b == 13

def isOctal (b : UInt8) : Bool := 48 ≤ b && b ≤ 55

/-- The value of a hexadecimal digit of either case. -/
def hexValue? (b : UInt8) : Option Nat :=
  if 48 ≤ b && b ≤ 57 then some (b.toNat - 48)
  else if 97 ≤ b && b ≤ 102 then some (b.toNat - 87)
  else if 65 ≤ b && b ≤ 70 then some (b.toNat - 55)
  else none

end ContentStream.Byte
