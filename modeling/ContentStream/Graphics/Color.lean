import ContentStream.Decimal.Basic

/-!
# Colour spaces and colours

A colour space fixes how many components a colour has and which colour is current when the space is
selected. The families with a fixed meaning of their components have colours of their own kind; the
others keep a plain list of components.
-/

namespace ContentStream

inductive ColorFamily where
  | deviceGray
  | deviceRgb
  | deviceCmyk
  | calGray
  | calRgb
  | lab
  | iccBased
  | indexed
  | separation
  | deviceN
  | pattern
  | other (name : String)
deriving DecidableEq

namespace ColorFamily

/-- The families that have a name of their own. -/
def known : List (String × ColorFamily) :=
  [("DeviceGray", deviceGray), ("DeviceRGB", deviceRgb), ("DeviceCMYK", deviceCmyk),
    ("CalGray", calGray), ("CalRGB", calRgb), ("Lab", lab), ("ICCBased", iccBased),
    ("Indexed", indexed), ("Separation", separation), ("DeviceN", deviceN), ("Pattern", pattern)]

def ofName (name : String) : ColorFamily := (known.lookup name).getD (other name)

def name : ColorFamily → String
  | deviceGray => "DeviceGray"
  | deviceRgb => "DeviceRGB"
  | deviceCmyk => "DeviceCMYK"
  | calGray => "CalGray"
  | calRgb => "CalRGB"
  | lab => "Lab"
  | iccBased => "ICCBased"
  | indexed => "Indexed"
  | separation => "Separation"
  | deviceN => "DeviceN"
  | pattern => "Pattern"
  | other name => name

end ColorFamily

/-- A colour. A pattern colour names its pattern, with components if the pattern has no colours of
its own. -/
inductive Color where
  | gray (g : Decimal)
  | rgb (r g b : Decimal)
  | cmyk (c m y k : Decimal)
  | components (values : List Decimal)
  | patternColored (name : String)
  | patternUncolored (values : List Decimal) (name : String)

namespace Color

def values : Color → List Decimal
  | gray g => [g]
  | rgb r g b => [r, g, b]
  | cmyk c m y k => [c, m, y, k]
  | components values => values
  | patternColored _ => []
  | patternUncolored values _ => values

def patternName? : Color → Option String
  | patternColored name => some name
  | patternUncolored _ name => some name
  | _ => none

def isPattern (color : Color) : Bool := color.patternName?.isSome

end Color

/-- A colour space. A pattern space may have a base space, in which patterns without colours are
painted; a space that came from the resources keeps its name there. -/
structure ColorSpace where
  family : ColorFamily
  ncomponents : Nat
  base : Option ColorSpace := none
  resource : Option String := none

namespace ColorSpace

def deviceGray : ColorSpace := { family := .deviceGray, ncomponents := 1 }

def deviceRgb : ColorSpace := { family := .deviceRgb, ncomponents := 3 }

def deviceCmyk : ColorSpace := { family := .deviceCmyk, ncomponents := 4 }

def patternOver (base : Option ColorSpace) : ColorSpace :=
  { family := .pattern, ncomponents := 1, base := base }

def isPattern (space : ColorSpace) : Bool := space.family == .pattern

/-- The colour that is current when the space is selected. -/
def initialColor (space : ColorSpace) : Color :=
  match space.family with
  | .deviceGray | .calGray => .gray 0
  | .deviceRgb | .calRgb => .rgb 0 0 0
  | .deviceCmyk => .cmyk 0 0 0 1
  | .separation | .deviceN => .components (List.replicate space.ncomponents 1)
  | .pattern => .components []
  | _ => .components (List.replicate space.ncomponents 0)

/-- The colour with these components. -/
def colorOf (space : ColorSpace) (values : List Decimal) : Color :=
  match space.family, values with
  | .deviceGray, [g] | .calGray, [g] => .gray g
  | .deviceRgb, [r, g, b] | .calRgb, [r, g, b] => .rgb r g b
  | .deviceCmyk, [c, m, y, k] => .cmyk c m y k
  | _, _ => .components values

/-- The spaces that need no definition, by name. -/
def predefined : List (String × ColorSpace) :=
  [("DeviceGray", 1), ("CalRGB", 3), ("CalGray", 1), ("Lab", 3), ("DeviceRGB", 3), ("DeviceCMYK", 4),
    ("Separation", 1), ("Indexed", 1), ("Pattern", 1)].map fun (name, n) =>
      (name, { family := .ofName name, ncomponents := n })

def predefined? (name : String) : Option ColorSpace := predefined.lookup name

/-- The full name of a space that an inline image may abbreviate. -/
def abbreviations : List (String × String) :=
  [("G", "DeviceGray"), ("RGB", "DeviceRGB"), ("CMYK", "DeviceCMYK"), ("I", "Indexed")]

end ColorSpace

end ContentStream
