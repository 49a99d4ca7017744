import ContentStream.Graphics.Color
import ContentStream.Object.Basic

/-!
# The dictionaries of inline images

Inline images may abbreviate the keys of their dictionary, the names of colour spaces and the names
of filters. Expansion writes all of them out.
-/

namespace ContentStream.InlineDict

/-- The keys that may be abbreviated. -/
def keys : List (String × String) :=
  [("BPC", "BitsPerComponent"), ("CS", "ColorSpace"), ("D", "Decode"), ("DP", "DecodeParms"),
    ("F", "Filter"), ("H", "Height"), ("IM", "ImageMask"), ("I", "Interpolate"), ("L", "Length"),
    ("W", "Width")]

/-- The filters that may be abbreviated. -/
def filters : List (String × String) :=
  [("AHx", "ASCIIHexDecode"), ("A85", "ASCII85Decode"), ("LZW", "LZWDecode"), ("Fl", "FlateDecode"),
    ("RL", "RunLengthDecode"), ("CCF", "CCITTFaxDecode"), ("DCT", "DCTDecode")]

/-- The full form of a word, if the table abbreviates it, and the word itself otherwise. -/
def fullForm (table : List (String × String)) (word : String) : String :=
  (table.lookup word).getD word

def expandKey (key : String) : String := fullForm keys key

/-- A name written out by a table. Other objects stay. -/
def expandName (table : List (String × String)) : Object → Object
  | .name n => .name (fullForm table n)
  | o => o

/-- The value of a key that is already written out. -/
def expandValue (key : String) (value : Object) : Object :=
  if key == "ColorSpace" then expandName ColorSpace.abbreviations value
  else if key == "Filter" then
    match value with
    | .array items => .array (items.map (expandName filters))
    | value => expandName filters value
  else value

/-- The dictionary with everything written out. -/
def expand (d : Dict) : Dict :=
  Dict.ofEntries (d.map fun (key, value) => (expandKey key, expandValue (expandKey key) value))

/-- The length that an expanded dictionary gives for its data. -/
def dataLength? (d : Dict) : Option Nat :=
  match Dict.find? d "Length" with
  | some (.number n) => n.toNatBelow? wordBound
  | _ => none

/-- The name of the filter that was applied last. -/
def firstFilter? (d : Dict) : Option String :=
  match Dict.find? d "Filter" with
  | some (.name f) => some f
  | some (.array (.name f :: _)) => some f
  | _ => none

/-- The bytes with which data end that went through a textual filter. -/
def dataMarker? (d : Dict) : Option (List UInt8) :=
  match firstFilter? d with
  | some "ASCII85Decode" => some [126, 62]
  | some "ASCIIHexDecode" => some [62]
  | _ => none

end ContentStream.InlineDict
