import ContentStream.Content.Byte

/-!
# Reading bytes in order

The content of a page may come in several segments, which are read as one sequence. A cursor holds
the bytes not read yet and knows at which offsets segments end: a run of regular bytes does not go
on past such an end, and nothing else takes notice of it.
-/

namespace ContentStream

structure Cursor where
  /-- How many bytes lie behind. -/
  offset : Nat
  /-- The bytes ahead. -/
  rest : List UInt8
  /-- The offsets at which segments end, in ascending order. -/
  ends : List Nat

namespace Cursor

/-- The offsets at which segments end that begin at `start`. -/
def segmentEnds (start : Nat) : List (List UInt8) → List Nat
  | [] => []
  | s :: rest => (start + s.length) :: segmentEnds (start + s.length) rest

/-- A cursor at the start of the segments. -/
def ofSegments (segments : List (List UInt8)) : Cursor :=
  { offset := 0, rest := segments.flatten, ends := segmentEnds 0 segments }

def ofBytes (bytes : List UInt8) : Cursor := ofSegments [bytes]

def atEnd (c : Cursor) : Bool := c.rest.isEmpty

/-- The length of all the content, behind and ahead. -/
def total (c : Cursor) : Nat := c.offset + c.rest.length

/-- The byte `n` places ahead. -/
def peek? (c : Cursor) (n : Nat) : Option UInt8 := c.rest[n]?

/-- Whether these bytes lie ahead. -/
def startsWith (c : Cursor) (bytes : List UInt8) : Bool := bytes.isPrefixOf c.rest

/-- Moves over one byte. -/
def next (c : Cursor) : Cursor :=
  match c.rest with
  | [] => c
  | _ :: rest => { c with offset := c.offset + 1, rest := rest }

/-- Moves over `n` bytes, or to the end. -/
def advance (c : Cursor) : Nat → Cursor
  | 0 => c
  | n + 1 => advance c.next n

/-- How many bytes are left of the segment at hand. -/
def room (c : Cursor) : Nat :=
  match c.ends.find? (c.offset < ·) with
  | some e => e - c.offset
  | none => c.rest.length

/-- The regular bytes in front, `limit` of them at most. -/
def regularBytes : (limit : Nat) → List UInt8 → List UInt8
  | 0, _ => []
  | _, [] => []
  | n + 1, b :: rest => if Byte.isRegular b then b :: regularBytes n rest else []

theorem regularBytes_eq (n : Nat) (bytes : List UInt8) :
    regularBytes n bytes = (bytes.take n).takeWhile Byte.isRegular := by
  fun_induction regularBytes n bytes with
  | case1 => simp
  | case2 => simp
  | case3 n b rest h ih => simp [h, ih]
  | case4 n b rest h => simp [h]

/-- The regular bytes ahead in the segment at hand. -/
def run (c : Cursor) : List UInt8 := regularBytes c.room c.rest

/-! ## Blanks and comments -/

/-- The number of bytes in front that separate tokens: blanks, and comments up to the end of their
line. -/
def blankLength (inComment : Bool) : List UInt8 → Nat
  | [] => 0
  | b :: rest =>
    if inComment then blankLength (!Byte.isNewline b) rest + 1
    else if b == 37 then blankLength true rest + 1
    else if Byte.isBlank b then blankLength false rest + 1
    else 0

/-- Moves to the start of the next token. -/
def skipBlanks (c : Cursor) : Cursor := c.advance (blankLength false c.rest)

/-! ## Where a cursor is after a move -/

@[simp] theorem advance_zero (c : Cursor) : c.advance 0 = c := rfl

theorem next_rest (c : Cursor) : c.next.rest = c.rest.drop 1 := by
  unfold next
  split <;> simp_all

@[simp] theorem advance_rest (c : Cursor) (n : Nat) : (c.advance n).rest = c.rest.drop n := by
  induction n generalizing c with
  | zero => simp
  | succ n ih => simp [advance, ih, next_rest]

theorem next_offset (c : Cursor) : c.next.offset = c.offset + min 1 c.rest.length := by
  unfold next
  split <;> simp_all

theorem advance_offset (c : Cursor) (n : Nat) :
    (c.advance n).offset = c.offset + min n c.rest.length := by
  induction n generalizing c with
  | zero => simp
  | succ n ih =>
    simp only [advance, ih, next_offset, next_rest, List.length_drop]
    omega

end Cursor

end ContentStream
