import ContentStream.Content.Cursor

/-!
# The data of inline images

The data between `ID` and `EI` may hold any bytes, so they are not read as tokens. Their end is found
in one of three ways: by a known length, by the marker with which the image's filter ends, or by an
`EI` that stands between blanks.

Data of a known length are taken from the segment at hand. At the end of the content there is none, so
that not even an empty string of bytes can be taken there. A reader that comes to this breaks down.
-/

namespace ContentStream

/-- Why there are no inline data. -/
inductive DataFault where
  /-- The content ends before they do. -/
  | truncated
  /-- The reader breaks down, since there is no segment that they could lie in. -/
  | missingSegment

namespace Cursor

/-- The two letters that end an inline image. -/
def endMark : List UInt8 := [69, 73]

/-- The number of bytes in front of the first `marker`. -/
def beforeMarker? (marker : List UInt8) : List UInt8 → Option Nat
  | [] => if marker.isEmpty then some 0 else none
  | b :: rest =>
    if marker.isPrefixOf (b :: rest) then some 0
    else (beforeMarker? marker rest).map (· + 1)

/-- The number of bytes in front of the first `EI` that has a blank before it and a blank or nothing
after it. `afterBlank` says whether a blank came last. -/
def beforeEnd? (afterBlank : Bool) : List UInt8 → Option Nat
  | [] => none
  | b :: rest =>
    if afterBlank && endMark.isPrefixOf (b :: rest) && ((b :: rest)[2]?).all Byte.isBlank then some 0
    else (beforeEnd? (Byte.isBlank b) rest).map (· + 1)

/-- Moves over the `EI` ahead, if there is one. -/
def skipEnd (c : Cursor) : Cursor :=
  let start := c.skipBlanks
  if start.startsWith endMark && (start.peek? 2).all (fun b => !Byte.isRegular b) then start.advance 2
  else c

/-- Moves to the end. -/
def toEnd (c : Cursor) : Cursor := c.advance c.rest.length

/-- The next `n` bytes, from the segment at hand and those behind it. -/
def take (c : Cursor) (n : Nat) : Except DataFault (List UInt8) :=
  if c.rest.length < n then .error .truncated
  else if c.atEnd then .error .missingSegment
  else .ok (c.rest.take n)

/-- Reads inline data from behind `ID`. One blank in front does not belong to them. There are no data
if their end is not found. -/
def inlineData (c : Cursor) (length : Option Nat) (marker : Option (List UInt8)) :
    Except DataFault (List UInt8) × Cursor :=
  let blank := (c.peek? 0).any Byte.isBlank
  let c := if blank then c.next else c
  match length, marker with
  | some n, _ =>
    match c.take n with
    | .ok data => (.ok data, (c.advance n).skipEnd)
    | .error fault => (.error fault, c)
  | none, some marker =>
    match beforeMarker? marker c.rest with
    | some n =>
      let used := n + marker.length
      (.ok (c.rest.take used), (c.advance used).skipEnd)
    | none => (.error .truncated, c.toEnd)
  | none, none =>
    match beforeEnd? blank c.rest with
    | some n => (.ok (c.rest.take n).dropLast, c.advance (n + 2))
    | none => (.error .truncated, c.toEnd)

theorem skipEnd_length (c : Cursor) : c.skipEnd.rest.length ≤ c.rest.length := by
  unfold skipEnd
  dsimp only
  split
  · simp only [skipBlanks, advance_rest, List.length_drop]
    omega
  · exact Nat.le_refl _

theorem inlineData_length (c : Cursor) (length : Option Nat) (marker : Option (List UInt8)) :
    (c.inlineData length marker).2.rest.length ≤ c.rest.length := by
  unfold inlineData
  extract_lets blank c'
  have hc : c'.rest.length ≤ c.rest.length := by
    simp only [c']
    split
    · simp [next_rest]
    · exact Nat.le_refl _
  have hskip (n : Nat) : (c'.advance n).skipEnd.rest.length ≤ c.rest.length :=
    Nat.le_trans (skipEnd_length _) (by simp only [advance_rest, List.length_drop]; omega)
  have hadv (n : Nat) : (c'.advance n).rest.length ≤ c.rest.length := by
    simp only [advance_rest, List.length_drop]; omega
  split
  · split
    · exact hskip _
    · exact hc
  · split
    · exact hskip _
    · exact hadv _
  · split
    · exact hadv _
    · exact hadv _

end Cursor

end ContentStream
