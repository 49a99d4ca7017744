import ContentStream.Content.InlineData
import ContentStream.Content.InlineDict
import ContentStream.Content.Token

/-!
# Items of content

What content consists of above its tokens: operands, operators and inline images, each with the
offset at which it starts.

**Containers.** Arrays, dictionaries and procedures are collected until their closing bracket, which
makes them one operand. A procedure is kept as an array, with its operators as names.

**Inline images.** The operands between `BI` and `ID` are the image's dictionary, and what follows
is its data.

**Errors** are items too. Most of them concern one token, and reading goes on behind it. Content that
ends inside a token, a container or an inline image ends with such an error.

**Breakdowns.** Where content ends and the data of an empty inline image should lie, the reader asks
for a segment that is not there, and breaks down. This stands as the error `missingSegment` at the end
of the items, but it is no item: whoever asks for the next item there gets no answer.
-/

namespace ContentStream

inductive Item where
  | operand (value : Object)
  | operator (name : String)
  | image (value : Stream)

/-- An item, or what was found in its place, with its offset. -/
abbrev ItemAt := Nat × Except Error Item

/-- Whether the reader breaks down instead of giving an item. -/
def ItemAt.breaksDown : ItemAt → Bool
  | (_, .error .missingSegment) => true
  | _ => false

/-! ## Collecting containers -/

inductive Container where
  | array
  | dict
  | proc
deriving DecidableEq

/-- A container whose closing bracket has not come yet. -/
structure OpenContainer where
  kind : Container
  start : Nat
  /-- What it holds so far, last first. -/
  items : List Object := []

/-- An inline image whose data have not come yet. -/
structure OpenImage where
  start : Nat
  /-- The operands of its dictionary so far, last first. -/
  items : List Object := []

/-- What is open at a place in the content. -/
structure Builder where
  /-- The open containers, innermost first. -/
  containers : List OpenContainer := []
  image : Option OpenImage := none

/-- Pairs up keys and values. Keys that are no names are dropped with their values, and so is a key
without a value; the flag says whether that happened. -/
def pairEntries : List Object → List (String × Object) × Bool
  | [] => ([], false)
  | [_] => ([], true)
  | .name k :: v :: rest => ((k, v) :: (pairEntries rest).1, (pairEntries rest).2)
  | _ :: _ :: rest => ((pairEntries rest).1, true)

namespace Builder

/-- Puts a value where it belongs: into the innermost container, into the dictionary of the open
image, or among the items. -/
def place (b : Builder) (pos : Nat) (value : Object) : Builder × List ItemAt :=
  match b.containers with
  | c :: outer => ({ b with containers := { c with items := value :: c.items } :: outer }, [])
  | [] =>
    match b.image with
    | some image => ({ b with image := some { image with items := value :: image.items } }, [])
    | none => (b, [(pos, .ok (.operand value))])

def openContainer (b : Builder) (pos : Nat) (kind : Container) : Builder × List ItemAt :=
  ({ b with containers := { kind := kind, start := pos } :: b.containers }, [])

/-- Reports a malformed place and leaves everything as it is. -/
def complain (b : Builder) (pos : Nat) (fault : TokenFault) : Builder × List ItemAt :=
  (b, [(pos, .error (.malformedToken pos fault))])

/-- Makes a value of a container. A dictionary that lost entries is reported first. -/
def finishContainer (b : Builder) (c : OpenContainer) : Builder × List ItemAt :=
  match c.kind with
  | .dict =>
    let (entries, dropped) := pairEntries c.items.reverse
    let (b', out) := b.place c.start (.dict (Dict.ofEntries entries))
    if dropped then (b', (c.start, .error (.malformedToken c.start .keyNotName)) :: out)
    else (b', out)
  | _ => b.place c.start (.array c.items.reverse)

/-- Closes the innermost container, if it is of the right kind. -/
def close (b : Builder) (pos : Nat) (kind : Container) (mark : Mark) : Builder × List ItemAt :=
  match b.containers with
  | c :: outer =>
    if c.kind = kind then { b with containers := outer }.finishContainer c
    else b.complain pos (.unbalanced mark.text)
  | [] => b.complain pos (.unbalanced mark.text)

def mark (b : Builder) (pos : Nat) : Mark → Builder × List ItemAt
  | .arrayOpen => b.openContainer pos .array
  | .dictOpen => b.openContainer pos .dict
  | .procOpen => b.openContainer pos .proc
  | .arrayClose => b.close pos .array .arrayClose
  | .dictClose => b.close pos .dict .dictClose
  | .procClose => b.close pos .proc .procClose

/-- An operator stands alone, except inside a procedure. `BI` opens an inline image. -/
def operator (b : Builder) (pos : Nat) (name : String) : Builder × List ItemAt :=
  match b.containers with
  | c :: _ =>
    if c.kind = .proc then b.place pos (.name name) else b.complain pos (.operatorInContainer name)
  | [] =>
    if b.image.isSome then b.complain pos (.operatorInImage name)
    else if name = "BI" then ({ b with image := some { start := pos } }, [])
    else (b, [(pos, .ok (.operator name))])

def token (b : Builder) (pos : Nat) : Token → Builder × List ItemAt
  | .number n => b.place pos (.number n)
  | .bool v => b.place pos (.bool v)
  | .null => b.place pos .null
  | .string s => b.place pos (.string s)
  | .name n => b.place pos (.name n)
  | .mark m => b.mark pos m
  | .operator name => b.operator pos name

/-- The open image, if this token is the `ID` in front of its data. -/
def imageData? (b : Builder) : Token → Option OpenImage
  | .operator "ID" => if b.containers.isEmpty then b.image else none
  | _ => none

/-- What is left to say when the content ends: the outermost thing that is still open. -/
def finish (b : Builder) : List ItemAt :=
  match b.containers.getLast?, b.image with
  | some c, _ => [(c.start, .error .truncated)]
  | none, some image => [(image.start, .error .truncated)]
  | none, none => []

end Builder

/-- The dictionary of an open image, with its abbreviations written out. -/
def OpenImage.attrs (image : OpenImage) : Dict :=
  InlineDict.expand (Dict.ofEntries (pairEntries image.items.reverse).1)

def DataFault.error : DataFault → Error
  | truncated => .truncated
  | missingSegment => .missingSegment

/-! ## Reading items -/

namespace Cursor

/-- The data of an open image. -/
def imageData (c : Cursor) (image : OpenImage) : Except DataFault (List UInt8) × Cursor :=
  c.inlineData (InlineDict.dataLength? image.attrs) (InlineDict.dataMarker? image.attrs)

/-- The items ahead, with `b` open. -/
def items (c : Cursor) (b : Builder) : List ItemAt :=
  match _h : c.token? with
  | (none, _) => b.finish
  | (some (_, .error .truncated), c') => [(c'.offset, .error .truncated)]
  | (some (pos, .error (.malformed fault)), c') =>
    (pos, .error (.malformedToken pos fault)) :: c'.items b
  | (some (pos, .ok token), c') =>
    match b.imageData? token with
    | none => (b.token pos token).2 ++ c'.items (b.token pos token).1
    | some image =>
      match _hd : c'.imageData image with
      | (.error fault, _) => [(image.start, .error fault.error)]
      | (.ok data, c'') => (image.start, .ok (.image ⟨image.attrs, data, 0⟩)) :: c''.items {}
termination_by c.rest.length
decreasing_by
  · exact token?_progress _h
  · exact token?_progress _h
  · have hle := inlineData_length c' (InlineDict.dataLength? image.attrs)
      (InlineDict.dataMarker? image.attrs)
    rw [show c'.inlineData (InlineDict.dataLength? image.attrs)
      (InlineDict.dataMarker? image.attrs) = (.ok data, c'') from _hd] at hle
    exact Nat.lt_of_le_of_lt hle (token?_progress _h)

end Cursor

namespace Content

/-- The items of content that comes in segments. -/
def items (segments : List (List UInt8)) : List ItemAt := (Cursor.ofSegments segments).items {}

/-- The items of content in one piece. -/
def itemsOf (bytes : List UInt8) : List ItemAt := items [bytes]

end Content

end ContentStream
