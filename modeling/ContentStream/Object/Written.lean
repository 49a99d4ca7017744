import ContentStream.Object.Basic
import ContentStream.Text.Utf8

/-!
# Objects as they are written

Strings are written back in the form they came in. Other objects are written the way content spells
them, with one blank between parts; streams and references have a short description instead.
-/

namespace ContentStream

/-! ## Strings -/

namespace ByteString

/-- The hexadecimal digit of a number below 16. -/
def hexDigit (n : Nat) : UInt8 := if n < 10 then (48 + n).toUInt8 else (55 + n).toUInt8

/-- A byte as it stands in a literal string. -/
def writeLiteral (b : UInt8) : List UInt8 :=
  if b == 40 || b == 41 || b == 92 then [92, b] else [b]

/-- A byte as it stands in a hexadecimal string. -/
def writeHex (b : UInt8) : List UInt8 := [hexDigit (b.toNat / 16), hexDigit (b.toNat % 16)]

/-- The string between its delimiters. -/
def written (s : ByteString) : List UInt8 :=
  match s.form with
  | .literal => 40 :: s.bytes.flatMap writeLiteral ++ [41]
  | .hex => 60 :: s.bytes.flatMap writeHex ++ [62]

end ByteString

/-! ## Objects -/

namespace Object

mutual

def written : Object → String
  | null => "null"
  | bool b => if b then "true" else "false"
  | number n => n.normalize.render
  | string s => Utf8.decode s.written
  | name n => "/" ++ n
  | array items => "[" ++ " ".intercalate (writtenItems items) ++ "]"
  | dict entries => "<<" ++ writtenEntries entries ++ " >>"
  | stream _ data _ => "stream(" ++ toString data.length ++ " bytes)"
  | ref r => toString r.id ++ " " ++ toString r.generation ++ " R"

def writtenItems : List Object → List String
  | [] => []
  | o :: rest => written o :: writtenItems rest

def writtenEntries : List (String × Object) → String
  | [] => ""
  | (k, v) :: rest => " /" ++ k ++ " " ++ written v ++ writtenEntries rest

end

end Object

end ContentStream
