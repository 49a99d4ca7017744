import ContentStream.Text.Hidden

/-!
# Quoted text in messages

A message that cites what it found puts it in quotes. The quote and the backslash are escaped, and so
is every character that would not show.
-/

namespace ContentStream.Quoted

def hexText (n : Nat) : String := String.ofList (Nat.toDigits 16 n)

/-- A character as it stands between two `quote`s. -/
def escape (quote c : Char) : String :=
  if c == quote || c == '\\' then String.ofList ['\\', c]
  else if c == '\t' then "\\t"
  else if c == '\r' then "\\r"
  else if c == '\n' then "\\n"
  else if c.toNat == 0 then "\\0"
  else if Hidden.isHidden c then "\\u\x7b" ++ hexText c.toNat ++ "\x7d"
  else c.toString

/-- A text between double quotes. -/
def text (s : String) : String :=
  "\"" ++ String.join (s.toList.map (escape '"')) ++ "\""

/-- A character between single quotes. -/
def char (c : Char) : String :=
  "'" ++ escape '\'' c ++ "'"

end ContentStream.Quoted
