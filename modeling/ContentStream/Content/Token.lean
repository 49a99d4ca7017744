import ContentStream.Content.Cursor
import ContentStream.Object.Basic
import ContentStream.Text.Utf8

/-!
# Tokens

The words of content: numbers, strings, names, brackets and operators. Reading a token never fails
for good: a malformed one is skipped and reported, and only the end of the content inside a string
stops the reading.

Each reader takes the bytes from the start of its token and says how many of them it used besides the
first one, so that reading a token always moves on.
-/

namespace ContentStream

/-- The brackets of arrays, dictionaries and procedures. -/
inductive Mark where
  | arrayOpen
  | arrayClose
  | dictOpen
  | dictClose
  | procOpen
  | procClose
deriving DecidableEq

def Mark.text : Mark → String
  | arrayOpen => "["
  | arrayClose => "]"
  | dictOpen => "<<"
  | dictClose => ">>"
  | procOpen => "\x7b"
  | procClose => "\x7d"

inductive Token where
  | number (value : Decimal)
  | bool (value : Bool)
  | null
  | string (value : ByteString)
  | name (text : String)
  | operator (name : String)
  | mark (mark : Mark)

/-- Why there is no token. -/
inductive TokenError where
  | malformed (fault : TokenFault)
  | truncated

/-- The error of a token that starts at `pos`. -/
def TokenError.at (pos : Nat) : TokenError → Error
  | malformed fault => .malformedToken pos fault
  | truncated => .truncated

namespace Token

/-! ## Literal strings -/

/-- The number that octal digits denote. -/
def octalValue (digits : List UInt8) : Nat :=
  digits.foldl (fun n b => 8 * n + (b.toNat - 48)) 0

/-- What the bytes after a backslash stand for, and how many of them belong to the escape. A line
break stands for nothing, and one to three octal digits for a byte. -/
def escape : List UInt8 → Option (List UInt8 × Nat)
  | [] => none
  | 110 :: _ => some ([10], 1)
  | 114 :: _ => some ([13], 1)
  | 116 :: _ => some ([9], 1)
  | 98 :: _ => some ([8], 1)
  | 102 :: _ => some ([12], 1)
  | 10 :: _ => some ([], 1)
  | 13 :: 10 :: _ => some ([], 2)
  | 13 :: _ => some ([], 1)
  | b :: rest =>
    if Byte.isOctal b then
      let digits := b :: (rest.take 2).takeWhile Byte.isOctal
      some ([(octalValue digits).toUInt8], digits.length)
    else some ([b], 1)

/-- Puts bytes in front of those read later, and counts one byte more as used. -/
def readMore (bytes : List UInt8) : Option (List UInt8 × Nat) → Option (List UInt8 × Nat)
  | some (later, used) => some (bytes ++ later, used + 1)
  | none => none

/-- Reads a literal string from behind its opening parenthesis, up to the closing one. `depth` counts
the parentheses open inside, and `skip` the bytes that belong to an escape already read. -/
def readLiteral : (skip depth : Nat) → List UInt8 → Option (List UInt8 × Nat)
  | _, _, [] => none
  | n + 1, depth, _ :: rest => readMore [] (readLiteral n depth rest)
  | 0, depth, b :: rest =>
    if b == 40 then readMore [b] (readLiteral 0 (depth + 1) rest)
    else if b == 41 then
      match depth with
      | 0 => some ([], 1)
      | d + 1 => readMore [b] (readLiteral 0 d rest)
    else if b == 92 then
      match escape rest with
      | some (bytes, used) => readMore bytes (readLiteral used depth rest)
      | none => none
    else readMore [b] (readLiteral 0 depth rest)

/-! ## Hexadecimal strings -/

/-- The bytes that hexadecimal digits spell in pairs. A last single digit is followed by a zero. -/
def packDigits : List Nat → List UInt8
  | hi :: lo :: rest => (hi * 16 + lo).toUInt8 :: packDigits rest
  | [hi] => [(hi * 16).toUInt8]
  | [] => []

/-- Reads a hexadecimal string from behind its opening bracket. A byte that has no place in it spoils
the whole string. -/
def readHex (bytes : List UInt8) : Except TokenError (List UInt8) × Nat :=
  let body := bytes.takeWhile (· != 62)
  let closed := body.length < bytes.length
  let used := if closed then body.length + 1 else body.length
  match body.find? fun b => !Byte.isBlank b && (Byte.hexValue? b).isNone with
  | some b => (.error (.malformed (.hexDigit b)), used)
  | none =>
    if closed then (.ok (packDigits (body.filterMap Byte.hexValue?)), used)
    else (.error .truncated, used)

/-! ## Runs of regular bytes -/

/-- A name with its `#xx` escapes decoded. -/
def unescapeName : List UInt8 → List UInt8
  | [] => []
  | [b] => [b]
  | [b, c] => [b, c]
  | b :: c :: d :: rest =>
    if b == 35 then
      match Byte.hexValue? c, Byte.hexValue? d with
      | some hi, some lo => (hi * 16 + lo).toUInt8 :: unescapeName rest
      | _, _ => b :: unescapeName (c :: d :: rest)
    else b :: unescapeName (c :: d :: rest)

/-- The number that a run spells. -/
def ofNumber (run : List UInt8) : Except TokenError Token :=
  match Decimal.read? run with
  | some n => .ok (.number n)
  | none => .error (.malformed (.number (Utf8.decode run)))

/-- The word that a run spells. -/
def ofWord (run : List UInt8) : Token :=
  match Utf8.decode run with
  | "true" => .bool true
  | "false" => .bool false
  | "null" => .null
  | word => .operator word

/-- Whether a run that starts like this is meant as a number. -/
def startsNumber (b : UInt8) : Bool := b == 43 || b == 45 || b == 46 || Decimal.isDigit b

/-! ## Any token -/

/-- Reads the token at the cursor, whose first byte is `b`. The number says how many bytes it takes
after the first. -/
def read (c : Cursor) (b : UInt8) : Except TokenError Token × Nat :=
  if b == 47 then
    let run := c.next.run
    (.ok (.name (Utf8.decode (unescapeName run))), run.length)
  else if b == 40 then
    match readLiteral 0 0 c.next.rest with
    | some (bytes, used) => (.ok (.string ⟨bytes, .literal⟩), used)
    | none => (.error .truncated, c.next.rest.length)
  else if b == 60 then
    if c.peek? 1 == some 60 then (.ok (.mark .dictOpen), 1)
    else
      let (bytes, used) := readHex c.next.rest
      (bytes.map fun bytes => .string ⟨bytes, .hex⟩, used)
  else if b == 62 then
    if c.peek? 1 == some 62 then (.ok (.mark .dictClose), 1)
    else (.error (.malformed .unexpectedClose), 0)
  else if b == 41 then (.error (.malformed (.unbalanced ")")), 0)
  else if b == 91 then (.ok (.mark .arrayOpen), 0)
  else if b == 93 then (.ok (.mark .arrayClose), 0)
  else if b == 123 then (.ok (.mark .procOpen), 0)
  else if b == 125 then (.ok (.mark .procClose), 0)
  else
    let run := c.run
    (if startsNumber b then ofNumber run else .ok (ofWord run), run.length - 1)

end Token

namespace Cursor

/-- Reads the token that starts at the cursor, with its offset. -/
def tokenHere? (c : Cursor) : Option (Nat × Except TokenError Token) × Cursor :=
  match c.rest with
  | [] => (none, c)
  | b :: _ =>
    let found := Token.read c b
    (some (c.offset, found.1), c.advance (found.2 + 1))

/-- Reads the next token, with the offset at which it starts. -/
def token? (c : Cursor) : Option (Nat × Except TokenError Token) × Cursor :=
  c.skipBlanks.tokenHere?

theorem token?_progress {c c' : Cursor} {t : Nat × Except TokenError Token}
    (h : c.token? = (some t, c')) : c'.rest.length < c.rest.length := by
  have hskip : c.skipBlanks.rest.length ≤ c.rest.length := by simp [skipBlanks]
  unfold token? tokenHere? at h
  split at h
  · simp at h
  · rename_i b rest hb
    simp only [Prod.mk.injEq] at h
    have hpos : 0 < c.skipBlanks.rest.length := by simp [hb]
    rw [← h.2, advance_rest, List.length_drop]
    omega

end Cursor

end ContentStream
