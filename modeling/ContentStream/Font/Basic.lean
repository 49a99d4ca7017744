import ContentStream.Decimal.Quotient
import ContentStream.Font.CodeMap
import ContentStream.Graphics.Geometry
import ContentStream.Object.Basic

/-!
# Fonts

What showing text needs to know of a font: how a string falls into codes, how far each code moves on,
what text it stands for, and the procedure that draws it, if the font is of the kind that draws its
glyphs by content.
-/

namespace ContentStream

/-- A character code and the number of bytes that spelt it. -/
structure CharCode where
  code : Nat
  nbytes : Nat
deriving DecidableEq

/-- Word spacing applies to the blank of one byte only. -/
def CharCode.isWordSpace (c : CharCode) : Bool := c.nbytes == 1 && c.code == 32

/-- Widths of consecutive codes. -/
structure WidthRun where
  first : Nat := 0
  widths : Array Decimal := #[]

def WidthRun.find? (run : WidthRun) (code : Nat) : Option Decimal :=
  if run.first ≤ code then run.widths[code - run.first]? else none

/-- A font with codes of one byte. -/
structure SimpleFont where
  subtype : String
  baseFont : Option String
  widths : WidthRun
  missingWidth : Decimal

/-- A font with codes of two bytes. -/
structure CompositeFont where
  baseFont : Option String
  widths : CodeMap Decimal
  defaultWidth : Decimal

/-- A font whose glyphs are drawn by content. -/
structure Type3Font where
  name : String
  matrix : Matrix
  widths : WidthRun
  /-- The names of the glyphs. -/
  encoding : CodeMap String
  /-- The procedures that draw them. -/
  procs : List (String × Stream)
  resources : Option Dict

inductive FontProgram where
  | simple (font : SimpleFont)
  | composite (font : CompositeFont)
  | type3 (font : Type3Font)

structure Font where
  program : FontProgram
  toUnicode : CodeMap String

namespace Font

/-- One thousandth, the unit in which widths are given. -/
def thousandth : Decimal := { coeff := 1, scale := 3, coeff_lt := by decide, scale_le := by decide }

/-- The matrix of fonts that do not bring their own. -/
def defaultMatrix : Matrix := ⟨thousandth, 0, 0, thousandth, 0, 0⟩

/-- A width in units of the font size. -/
def perThousand (width : Decimal) : Decimal := (width.div? 1000).getD 0

def subtype (font : Font) : String :=
  match font.program with
  | .simple f => f.subtype
  | .composite _ => "Type0"
  | .type3 _ => "Type3"

def fontName? (font : Font) : Option String :=
  match font.program with
  | .simple f => f.baseFont
  | .composite f => f.baseFont
  | .type3 f => some f.name

def isMultibyte (font : Font) : Bool :=
  match font.program with
  | .composite _ => true
  | _ => false

def matrix (font : Font) : Matrix :=
  match font.program with
  | .type3 f => f.matrix
  | _ => defaultMatrix

def resources? (font : Font) : Option Dict :=
  match font.program with
  | .type3 f => f.resources
  | _ => none

/-- Codes of two bytes. A last single byte is a code by itself. -/
def decodePairs : List UInt8 → List CharCode
  | hi :: lo :: rest => ⟨hi.toNat * 256 + lo.toNat, 2⟩ :: decodePairs rest
  | [b] => [⟨b.toNat, 1⟩]
  | [] => []

/-- The codes that a string spells. -/
def decode (font : Font) (bytes : List UInt8) : List CharCode :=
  if font.isMultibyte then decodePairs bytes else bytes.map fun b => ⟨b.toNat, 1⟩

/-- How far a code moves on, in units of the font size. -/
def width (font : Font) (code : Nat) : Decimal :=
  match font.program with
  | .simple f => perThousand ((f.widths.find? code).getD f.missingWidth)
  | .composite f => perThousand (f.widths[code]?.getD f.defaultWidth)
  | .type3 f => (((f.widths.find? code).getD 0).mul? f.matrix.a).getD 0

/-- The visible characters of ASCII and the blank. -/
def isPlain (code : Nat) : Bool := 32 ≤ code && code ≤ 126

/-- The text that a code stands for when the font does not say. -/
def impliedText? (font : Font) (code : Nat) : Option String :=
  match font.program with
  | .simple _ => if isPlain code then some (Char.ofNat code).toString else none
  | .composite _ => none
  | .type3 f => f.encoding[code]?.filter fun glyph => glyph.length == 1

/-- The text that a code stands for. -/
def text? (font : Font) (code : Nat) : Option String :=
  font.toUnicode[code]?.or (font.impliedText? code)

/-- The procedure that draws a code. -/
def procedure? (font : Font) (code : Nat) : Option Stream :=
  match font.program with
  | .type3 f =>
    match f.encoding[code]? with
    | some glyph => f.procs.lookup glyph
    | none => none
  | _ => none

end Font

end ContentStream
