import ContentStream.Content.Token
import ContentStream.Font.CodeMap
import ContentStream.Text.Utf16

/-!
# Texts of codes

A font may come with a program that maps its codes to text. Of that program only two kinds of
sections matter: pairs of a code and its text, and ranges of codes. A range gives either the text of
its first code, from which the others are counted up, or a list of texts.

The program is read as tokens, and the operator at the end of a section gets the tokens since the
last operator. Malformed tokens and entries are passed over.
-/

namespace ContentStream.ToUnicode

/-- The code that up to four bytes spell. -/
def codeOf (bytes : List UInt8) : Nat :=
  (bytes.take 4).foldl (fun n b => n * 256 + b.toNat) 0

/-- The token that stands around the elements of a list. -/
def listMark : Token := .name ""

def isListMark : Token → Bool
  | .name "" => true
  | _ => false

/-! ## Sections -/

/-- Reads pairs of a code and its text. -/
def readPairs (map : CodeMap String) : List Token → CodeMap String
  | .string src :: .string dst :: rest =>
    readPairs (map.insert (codeOf src.bytes) (Utf16.decode dst.bytes)) rest
  | _ :: _ :: rest => readPairs map rest
  | _ => map

/-- The bytes with `k` added to the last one, which stays a byte. -/
def countUp (bytes : List UInt8) (k : Nat) : List UInt8 :=
  match bytes.getLast? with
  | some b => bytes.dropLast ++ [b + k.toUInt8]
  | none => []

/-- The most codes that a range may reach beyond its first one. -/
def maxSpan : Nat := 0xFFFF

/-- Whether a range is in order and not too long. -/
def isUsable (lo hi : Nat) : Bool := lo ≤ hi && hi - lo ≤ maxSpan

/-- Gives texts to a range of codes, counted up from the text of the first one. -/
def insertSpan (map : CodeMap String) (lo hi : Nat) (dst : List UInt8) : CodeMap String :=
  if isUsable lo hi then
    map.insertRange lo (hi + 1 - lo) fun k => Utf16.decode (countUp dst k)
  else map

/-- Where the reading of ranges stands: between entries, or in a list of texts with the code that is
next, if there is one. -/
inductive RangeState where
  | between
  | inList (next : Option Nat) (hi : Nat)

/-- Takes one token of a list of texts. -/
def listStep (map : CodeMap String) (next : Option Nat) (hi : Nat) (t : Token) :
    CodeMap String × RangeState :=
  match t, next with
  | .string dst, some code =>
    if code ≤ hi then (map.insert code (Utf16.decode dst.bytes), .inList (some (code + 1)) hi)
    else (map, .inList next hi)
  | t, next => (map, if isListMark t then .between else .inList next hi)

/-- What three tokens in a row begin. -/
inductive RangeEntry where
  | span (lo hi : Nat) (dst : List UInt8)
  | list (lo hi : Nat)
  | none

def RangeEntry.ofTokens : Token → Token → Token → RangeEntry
  | .string lo, .string hi, .string dst => .span (codeOf lo.bytes) (codeOf hi.bytes) dst.bytes
  | .string lo, .string hi, .name "" => .list (codeOf lo.bytes) (codeOf hi.bytes)
  | _, _, _ => .none

/-- Reads entries for ranges. A token that starts no entry is passed over. -/
def readRanges (map : CodeMap String) : RangeState → List Token → CodeMap String
  | .inList next hi, t :: rest =>
    readRanges (listStep map next hi t).1 (listStep map next hi t).2 rest
  | .between, a :: b :: c :: rest =>
    match RangeEntry.ofTokens a b c with
    | .span lo hi dst => readRanges (insertSpan map lo hi dst) .between rest
    | .list lo hi => readRanges map (.inList (if isUsable lo hi then some lo else none) hi) rest
    | .none => readRanges map .between (b :: c :: rest)
  | _, _ => map

/-! ## Programs -/

/-- What has been read of a program. -/
structure State where
  map : CodeMap String := ∅
  /-- The tokens since the last operator, last first. -/
  operands : List Token := []
  /-- The elements of the list being read, last first. -/
  list : Option (List Token) := none

/-- Reads a section with the tokens in front of the operator that ends it. -/
def readSection (map : CodeMap String) (operands : List Token) : String → CodeMap String
  | "endbfchar" => readPairs map operands
  | "endbfrange" => readRanges map .between operands
  | _ => map

def step (s : State) : Token → State
  | .mark .arrayOpen => { s with list := some [] }
  | .mark .arrayClose =>
    match s.list with
    | some items => { s with operands := listMark :: (items ++ listMark :: s.operands), list := none }
    | none => s
  | .operator name =>
    { s with map := readSection s.map s.operands.reverse name, operands := [] }
  | t =>
    match s.list with
    | some items => { s with list := some (t :: items) }
    | none => { s with operands := t :: s.operands }

/-- The tokens ahead of a cursor that are well formed. -/
def tokens (c : Cursor) : List Token :=
  match _h : c.token? with
  | (none, _) => []
  | (some (_, .ok t), c') => t :: tokens c'
  | (some (_, .error _), c') => tokens c'
termination_by c.rest.length
decreasing_by
  · exact Cursor.token?_progress _h
  · exact Cursor.token?_progress _h

/-- The texts that a program gives to codes. -/
def read (program : List UInt8) : CodeMap String :=
  ((tokens (Cursor.ofBytes program)).foldl step {}).map

end ContentStream.ToUnicode
